import Vpp.Schemes.Run
import Vpp.Session.Mma.Update

/-! A lookup returns a most specific rule, over whole runs of additions and deletions.

    A table stands for a map from patterns to actions (`RuleMap`). It keeps the map whole, and finds its way through it,
    as long as every rule that is added fits among those stored: the place of a rule is found by a lookup of its match,
    so a wide rule whose match happens to be matched by a narrow one ends up below the narrow one. -/

namespace Vpp.Session
open Vpp.Schemes MmaRulesTable Function MmaCmd

variable {w : ℕ}

/-- The actions of the patterns that are stored. -/
abbrev RuleMap (w : ℕ) := Pattern w → Option ℕ

def RuleMap.init (actionIndex : ℕ) : RuleMap w := fun p => if p = .top w then some actionIndex else none

/-- The root is never deleted; it only loses its action. -/
def RuleMap.exec (m : RuleMap w) : MmaCmd w → RuleMap w
  | .add p actionIndex _ => update m p (some actionIndex)
  | .del p => update m p (if p = .top w then some mmaTableInvalidIndex else none)

/-- The table stores the map. -/
def Stores (srt : MmaRulesTable w) (m : RuleMap w) : Prop :=
  ∀ p a, m p = some a ↔ ∃ i r, srt.rules.get? i = some r ∧ r.toPattern = p ∧ r.actionIndex = a

/-- The condition for a command: what is added fits. -/
def MmaCmd.Fits (srt : MmaRulesTable w) : MmaCmd w → Prop
  | .add p _ _ => Session.Fits srt p
  | .del _ => True

theorem fits_iff (srt : MmaRulesTable w) (x : Pattern w) :
    Session.Fits srt x ↔ (∀ a ∈ srt.patterns, a.Matches x.value → x ≤ a) ∧
      (∀ a ∈ srt.patterns, x.Matches a.value → a ≤ x ∨ x ≤ a) ∧
      ∀ a ∈ x :: srt.patterns, ∀ b ∈ x :: srt.patterns, ∀ c ∈ x :: srt.patterns, a ≤ b → a ≤ c →
        b ≤ c ∨ c ≤ b :=
  ⟨fun h => ⟨h.above, h.below, h.chained⟩, fun h => ⟨h.1, h.2.1, h.2.2⟩⟩

instance (srt : MmaRulesTable w) (x : Pattern w) : Decidable (Session.Fits srt x) :=
  decidable_of_iff' _ (fits_iff srt x)

instance (srt : MmaRulesTable w) : ∀ c, Decidable (MmaCmd.Fits srt c)
  | .add p _ _ => inferInstanceAs (Decidable (Session.Fits srt p))
  | .del _ => isTrue trivial

/-! ### Steps -/

section
variable {srt srt' : MmaRulesTable w} {m : RuleMap w}

/-- The pattern and the action of the rule at an index. -/
def MmaRulesTable.entry (srt : MmaRulesTable w) (i : ℕ) : Option (Pattern w × ℕ) :=
  (srt.rules.get? i).map fun r => (r.toPattern, r.actionIndex)

theorem stores_iff : Stores srt m ↔ ∀ p a, m p = some a ↔ ∃ i, srt.entry i = some (p, a) := by
  simp [Stores, entry]

theorem item_of_entry {i a : ℕ} {p : Pattern w} (h : srt.entry i = some (p, a)) : srt.item i = some p := by
  obtain ⟨r, hr, hentry⟩ := Option.map_eq_some_iff.mp h
  exact item_eq_some.mpr ⟨r, hr, congrArg Prod.fst hentry⟩

/-- One pattern gets another action, or a first one, or loses it, and everything else is stored as before. -/
theorem Stores.update (h : Stores srt m) {x : Pattern w} {e : Option ℕ} (n : ℕ)
    (hold : ∀ i, i ≠ n → srt'.entry i = srt.entry i) (hn : ∀ p a, srt.entry n = some (p, a) → p = x)
    (hn' : srt'.entry n = e.map fun a => (x, a)) (honly : ∀ i a, srt.entry i = some (x, a) → i = n) :
    Stores srt' (update m x e) := by
  rw [stores_iff] at h ⊢
  have hnew (p : Pattern w) (a : ℕ) : srt'.entry n = some (p, a) ↔ p = x ∧ e = some a := by
    rw [hn']
    cases e <;> simp [eq_comm]
  intro p a
  by_cases hp : p = x
  · subst hp
    rw [update_self]
    constructor
    · exact fun ha => ⟨n, (hnew p a).mpr ⟨rfl, ha⟩⟩
    · rintro ⟨i, hi⟩
      by_cases hin : i = n
      · exact ((hnew p a).mp (hin ▸ hi)).2
      · rw [hold i hin] at hi
        exact absurd (honly i a hi) hin
  · rw [update_of_ne hp, h]
    refine exists_congr fun i => ?_
    by_cases hin : i = n
    · rw [hin, hnew]
      exact ⟨fun hi => absurd (hn p a hi) hp, fun hi => absurd hi.1 hp⟩
    · rw [hold i hin]

/-- A rule is given another action. -/
theorem Stores.setAction (hshape : Shape srt) (h : Stores srt m) {p : ℕ} {r : MmaRule w}
    (hp : srt.rules.get? p = some r) {actionIndex : ℕ}
    (hget : ∀ i, srt'.rules.get? i = if i = p then some { r with actionIndex := actionIndex } else srt.rules.get? i) :
    Stores srt' (Function.update m r.toPattern (some actionIndex)) := by
  have hentry : srt.entry p = some (r.toPattern, r.actionIndex) := by
    rw [entry, hp]
    rfl
  refine h.update p ?_ ?_ ?_ ?_
  · intro i hip
    rw [entry, hget, if_neg hip, entry]
  · intro q a hq
    cases hentry.symm.trans hq
    rfl
  · rw [entry, hget, if_pos rfl]
    rfl
  · -- another rule with the same pattern there is not
    intro i a hi
    exact hshape.tree.inj i p _ (item_of_entry hi) (item_of_entry hentry)

theorem Stores.added (hshape : Shape srt) (hshape' : Shape srt') (h : Stores srt m) {new : MmaRule w}
    (hadded : Added srt new srt') : Stores srt' (Function.update m new.toPattern (some new.actionIndex)) := by
  cases hadded with
  | replaced p r hp hsame hget =>
    rw [← hsame]
    exact h.setAction hshape hp hget
  | placed n p r below next hplaced =>
    obtain ⟨hn, hp, -, -, -, -, hget⟩ := hplaced
    have hold (i : ℕ) (hin : i ≠ n) : srt'.entry i = srt.entry i := by
      rw [entry, hget, if_neg hin, entry]
      split_ifs with hip
      · rw [hip, hp]
        rfl
      · rfl
    have hnew : srt'.entry n = some (new.toPattern, new.actionIndex) := by
      rw [entry, hget, if_pos rfl]
      rfl
    refine h.update n hold ?_ hnew ?_
    · intro q a hq
      rw [entry, hn] at hq
      cases hq
    · intro i a hi
      by_contra hin
      rw [← hold i hin] at hi
      exact hin (hshape'.tree.inj i n _ (item_of_entry hi) (item_of_entry hnew))

theorem Stores.deleted (hshape : Shape srt) (h : Stores srt m) {x : Pattern w} (hdel : Deleted srt x srt') :
    Stores srt' (Function.update m x (if x = .top w then some mmaTableInvalidIndex else none)) := by
  cases hdel with
  | absent hx hget =>
    have hne : x ≠ .top w := fun heq => hx srt.rootIndex (by rw [hshape.root, heq])
    have hnone : m x = none := by
      rw [Option.eq_none_iff_forall_ne_some]
      intro a ha
      obtain ⟨i, r, hi, hr, -⟩ := (h x a).mp ha
      exact hx i (item_eq_some.mpr ⟨r, hi, hr⟩)
    rw [if_neg hne, ← hnone, update_eq_self]
    intro p a
    simp only [hget]
    exact h p a
  | root r hp hsame hget =>
    have htop : x = .top w := by
      obtain ⟨r', hr', hpattern⟩ := item_eq_some.mp hshape.root
      cases hp.symm.trans hr'
      rw [← hsame, hpattern]
    rw [if_pos htop, ← hsame]
    exact h.setAction hshape hp hget
  | removed n p gone r front back _ hn hsame hp hnext hget =>
    have hitem_n : srt.item n = some x := item_eq_some.mpr ⟨gone, hn, hsame⟩
    have hitem_p : srt.item p = some r.toPattern := item_eq_some.mpr ⟨r, hp, rfl⟩
    have htop : x ≠ .top w := by
      rintro rfl
      obtain ⟨b, hb, hlt⟩ := hshape.tree.child p _ n hitem_p (by rw [next_eq hp, hnext]; simp)
      cases hitem_n.symm.trans hb
      exact absurd (Pattern.le_top _) hlt.not_ge
    rw [if_neg htop]
    refine h.update n ?_ ?_ ?_ ?_
    · intro i hin
      rw [entry, hget, if_neg hin, entry]
      split_ifs with hip
      · rw [hip, hp]
        rfl
      · rfl
    · intro q a hq
      cases hitem_n.symm.trans (item_of_entry hq)
      rfl
    · rw [entry, hget, if_pos rfl]
      rfl
    · intro i a hi
      exact hshape.tree.inj i n x (item_of_entry hi) hitem_n

/-- A command that fits returns, and does to the table what it does to the map. -/
theorem exec_stores (hshape : Shape srt) (h : Stores srt m) {c : MmaCmd w} (hfits : c.Fits srt) :
    ∃ srt', c.exec srt = .ok srt' ∧ Shape srt' ∧ Stores srt' (m.exec c) := by
  cases c with
  | add p actionIndex maxMatch =>
    have hfits : Session.Fits srt (MmaRule.init p actionIndex maxMatch).toPattern := hfits
    obtain ⟨srt', hadd, hroot, hadded⟩ := addRule_added hshape hfits rfl
    have hshape' := hshape.added hroot hfits hadded
    exact ⟨srt', hadd, hshape', h.added hshape hshape' hadded⟩
  | del p =>
    obtain ⟨srt', hdel, hroot, hdeleted⟩ := delRule_deleted hshape p
    exact ⟨srt', hdel, Shape.deleted hshape hroot hdeleted, h.deleted hshape hdeleted⟩

end

/-! ### Runs -/

section
variable (ruleCmpFn : MmaRule w → MmaRule w → Bool) (actionIndex : ℕ) (maxMatch : BitVec w)

theorem get?_init (i : ℕ) : (MmaRulesTable.init ruleCmpFn actionIndex maxMatch).rules.get? i =
    if i = 0 then some (.init (.top w) actionIndex maxMatch) else none := by
  rw [init, Pool.get?_alloc, Pool.get?_empty]
  rfl

theorem shape_init : Shape (MmaRulesTable.init ruleCmpFn actionIndex maxMatch) := by
  have hget := get?_init ruleCmpFn actionIndex maxMatch
  have hitem {i : ℕ} {a : Pattern w} (hi : (init ruleCmpFn actionIndex maxMatch).item i = some a) :
      i = 0 ∧ a = .top w := by
    obtain ⟨r, hr, rfl⟩ := item_eq_some.mp hi
    rw [hget] at hr
    split_ifs at hr with h0
    cases hr
    exact ⟨h0, rfl⟩
  have hnext (i : ℕ) : (init ruleCmpFn actionIndex maxMatch).next i = [] := by
    rw [next, hget]
    split_ifs <;> rfl
  have hroot : (init ruleCmpFn actionIndex maxMatch).item 0 = some (.top w) := by
    rw [item, hget, if_pos rfl]
    rfl
  refine ⟨hroot, ⟨⟨_, hroot, fun i b hi => (hitem hi).2.le⟩, ?_, ?_, ?_, ?_, ?_⟩, ?_⟩
  · intro i j a hi hj
    rw [(hitem hi).1, (hitem hj).1]
  · intro i a j _ hj
    rw [hnext] at hj
    cases hj
  · intro i a j b hi hj hlt
    rw [(hitem hi).2, (hitem hj).2] at hlt
    exact absurd rfl hlt.ne
  · intro i a j b k c _ hj
    rw [hnext] at hj
    cases hj
  · intro i a _
    rw [hnext]
    exact List.nodup_nil
  · intro i j k a b c _ hj hk _ _
    rw [(hitem hj).2, (hitem hk).2]
    exact Or.inl le_rfl

theorem stores_init : Stores (MmaRulesTable.init ruleCmpFn actionIndex maxMatch) (.init actionIndex) := by
  intro p a
  simp only [get?_init, RuleMap.init]
  constructor
  · intro h
    split_ifs at h with hp
    cases h
    exact ⟨0, _, if_pos rfl, hp.symm, rfl⟩
  · rintro ⟨i, r, hr, rfl, rfl⟩
    split_ifs at hr
    cases hr
    exact if_pos rfl

end

theorem run_stores {srt : MmaRulesTable w} {m : RuleMap w} (hshape : Shape srt) (h : Stores srt m)
    {cmds : List (MmaCmd w)} (hfits : AllStepsM MmaCmd.Fits MmaCmd.exec srt cmds) :
    ∃ srt', runM exec srt cmds = .ok srt' ∧ Shape srt' ∧ Stores srt' (run RuleMap.exec m cmds) := by
  induction cmds generalizing srt m with
  | nil => exact ⟨srt, rfl, hshape, h⟩
  | cons c cmds ih =>
    obtain ⟨hc, hrest⟩ := hfits
    obtain ⟨srt₁, hexec, hshape₁, h₁⟩ := exec_stores hshape h hc
    rw [hexec] at hrest
    obtain ⟨srt', hrun, hend⟩ := ih hshape₁ h₁ hrest
    exact ⟨srt', by rw [runM, hexec]; exact hrun, hend⟩

/-- After any run of additions of rules that fit and of deletions, the table stores the rules that were added and not
    deleted, and every lookup returns a stored rule that matches the key and than which no stored rule that matches the
    key is more specific; a rule that is the only one besides the root to match the key is found. -/
theorem mmaLookup_most_specific (ruleCmpFn : MmaRule w → MmaRule w → Bool) (actionIndex : ℕ) (maxMatch : BitVec w)
    {cmds : List (MmaCmd w)}
    (hfits : AllStepsM MmaCmd.Fits MmaCmd.exec (.init ruleCmpFn actionIndex maxMatch) cmds) :
    ∃ srt, runM exec (.init ruleCmpFn actionIndex maxMatch) cmds = .ok srt ∧
      (∀ p a, run RuleMap.exec (.init actionIndex) cmds p = some a ↔
        ∃ i r, srt.rules.get? i = some r ∧ r.toPattern = p ∧ r.actionIndex = a) ∧
      ∀ key, ∃ i r, mmaRulesTableLookupRule srt key srt.rootIndex = .ok (some i) ∧ srt.rules.get? i = some r ∧
        r.Matches key ∧
        (∀ j s, srt.rules.get? j = some s → s.Matches key →
          ¬(r.mask &&& s.mask = r.mask ∧ r.mask ≠ s.mask)) ∧
        ∀ j s, srt.rules.get? j = some s → j ≠ srt.rootIndex → s.Matches key →
          (∀ j' s', srt.rules.get? j' = some s' → j' ≠ srt.rootIndex → s'.Matches key →
            j' = j) → i = j := by
  obtain ⟨srt, hrun, hshape, hstores⟩ :=
    run_stores (shape_init ruleCmpFn actionIndex maxMatch) (stores_init ruleCmpFn actionIndex maxMatch) hfits
  refine ⟨srt, hrun, hstores, fun key => ?_⟩
  obtain ⟨i, b, hlookup, hi, hmatch, hnone⟩ := lookupRule_spec (holds_self srt) hshape.tree key hshape.root
  obtain ⟨r, hr, rfl⟩ := item_eq_some.mp hi
  have hspecific (j : ℕ) (s : MmaRule w) (hs : srt.rules.get? j = some s) (hkey : s.Matches key) :
      ¬ s.toPattern < r.toPattern := by
    intro hlt
    obtain ⟨k, hk, c, hc, hle⟩ := hshape.tree.descend i _ j _ hi (item_eq_some.mpr ⟨s, hs, rfl⟩) hlt
    exact hnone k hk c hc (hkey.mono hle)
  refine ⟨i, r, hlookup, hr, hmatch, ?_, ?_⟩
  · rintro j s hs hkey ⟨hsub, hne⟩
    refine hspecific j s hs hkey (lt_of_le_of_ne (hkey.le hmatch hsub) fun heq => hne ?_)
    rw [heq]
  · intro j s hs hj hkey honly
    by_cases hroot : i = srt.rootIndex
    · -- the root is above the rule, so it was not returned
      have hitem_j : srt.item j = some s.toPattern := item_eq_some.mpr ⟨s, hs, rfl⟩
      have htop : r.toPattern = .top w := by
        have := hshape.root
        rw [← hroot, hi] at this
        exact Option.some.inj this
      refine absurd (lt_of_le_of_ne ?_ fun heq => hj ?_) (hspecific j s hs hkey)
      · rw [htop]
        exact Pattern.le_top _
      · exact hshape.tree.inj j _ _ hitem_j (by rw [hshape.root, ← htop, heq])
    · exact honly i r hr hroot hmatch

/-! A table of IPv4 rules, `mma_rules_table_16_t`; the local address is in the first four bytes. -/

/-- Local addresses 10.0.0.0/8 and 10.0.0.0/16. -/
def tenSlash8 : Pattern 128 := ⟨0xff, 0x0a, by decide⟩

def tenSlash16 : Pattern 128 := ⟨0xffff, 0x0a, by decide⟩

/-- Rules ordered by `max_match`. -/
def byMaxMatch (r₁ r₂ : MmaRule 128) : Bool := r₁.maxMatch < r₂.maxMatch

/-- The wide rule first: the key 10.1.0.1 gets it. -/
theorem mmaLookup_most_specific_two :
    ∃ srt, runM MmaCmd.exec (.init byMaxMatch 0 0) [.add tenSlash8 1 0, .add tenSlash16 2 0] = .ok srt ∧
      ∃ i r, mmaRulesTableLookupRule srt 0x0100010a srt.rootIndex = .ok (some i) ∧ srt.rules.get? i = some r ∧
        r.Matches 0x0100010a := by
  have hfits : AllStepsM MmaCmd.Fits MmaCmd.exec (.init byMaxMatch 0 0) [.add tenSlash8 1 0, .add tenSlash16 2 0] := by
    decide +kernel
  obtain ⟨srt, hrun, -, hlookup⟩ := mmaLookup_most_specific byMaxMatch 0 0 hfits
  obtain ⟨i, r, hi, hr, hmatch, -⟩ := hlookup 0x0100010a
  exact ⟨srt, hrun, i, r, hi, hr, hmatch⟩

/-- The narrow rule first: the wide one is placed below it, and the key 10.1.0.1, which matches the wide one only, gets
    the root. -/
theorem mmaLookup_misses :
    ∃ srt, runM exec (.init byMaxMatch 0 0) [.add tenSlash16 2 0, .add tenSlash8 1 0] = .ok srt ∧
      mmaRulesTableLookupRule srt 0x0100010a srt.rootIndex = .ok (some srt.rootIndex) ∧
      ∃ r, srt.rules.get? 2 = some r ∧ r.toPattern = tenSlash8 ∧ r.Matches 0x0100010a := by
  obtain ⟨srt, hrun, hobs⟩ := exists_of_runM_map
    (show (runM exec (.init byMaxMatch 0 0) [.add tenSlash16 2 0, .add tenSlash8 1 0]).map
        (fun srt => (mmaRulesTableLookupRule srt 0x0100010a srt.rootIndex, srt.rootIndex, srt.rules.get? 2)) =
      .ok (.ok (some 0), 0, some (.init tenSlash8 1 0)) by decide +kernel)
  simp only [Prod.mk.injEq] at hobs
  obtain ⟨hlookup, hroot, hrule⟩ := hobs
  exact ⟨srt, hrun, by rw [hlookup, hroot], _, hrule, rfl, by decide⟩

end Vpp.Session
