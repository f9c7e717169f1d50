import Vpp.Session.Mma.Tree

/-! Additions and deletions keep the tree of a table.

    Each command comes to a change of one or two rules of the pool (`Added`, `Deleted`); from the change it follows that
    the rules are again arranged by their patterns. -/

namespace Vpp.Session
open Vpp.Schemes List Pool MmaRulesTable Pattern
open MmaRulesTable (next_eq item_eq_some item getRule_eq_ok setRule)

variable {w : ℕ} {srt srt' : MmaRulesTable w}
    {del : MmaRulesTable w → ℕ → Except MmaFault (DelRule × MmaRulesTable w)}

/-- The rules of the table are arranged by their patterns, below a root that matches everything. -/
structure Shape (srt : MmaRulesTable w) : Prop where
  root : srt.item srt.rootIndex = some (.top w)
  tree : CoverTree srt.item srt.next srt.rootIndex
  chained : Chained srt.item

/-! ### Addition -/

/-- The patterns of the rules that are stored. -/
def MmaRulesTable.patterns (srt : MmaRulesTable w) : List (Pattern w) := srt.rules.toList.map (·.2.toPattern)

theorem mem_patterns {a : Pattern w} : a ∈ srt.patterns ↔ ∃ i, srt.item i = some a := by
  rw [patterns, mem_map]
  constructor
  · rintro ⟨⟨i, r⟩, hmem, rfl⟩
    exact ⟨i, item_eq_some.mpr ⟨r, mem_toList.mp hmem, rfl⟩⟩
  · rintro ⟨i, hi⟩
    obtain ⟨r, hr, rfl⟩ := item_eq_some.mp hi
    exact ⟨(i, r), mem_toList.mpr hr, rfl⟩

/-- A rule can be placed: what its match is matched by is above it, what it matches the match of is comparable to it,
    and the patterns above any pattern, with the new one, are above one another. -/
structure Fits (srt : MmaRulesTable w) (x : Pattern w) : Prop where
  above : ∀ a ∈ srt.patterns, a.Matches x.value → x ≤ a
  below : ∀ a ∈ srt.patterns, x.Matches a.value → a ≤ x ∨ x ≤ a
  chained : ∀ a ∈ x :: srt.patterns, ∀ b ∈ x :: srt.patterns, ∀ c ∈ x :: srt.patterns,
    a ≤ b → a ≤ c → b ≤ c ∨ c ≤ b

/-- A new rule at `n` below the rule at `p`, over those rules there that it matches. -/
structure Placed (srt : MmaRulesTable w) (new : MmaRule w) (srt' : MmaRulesTable w) (n p : ℕ) (r : MmaRule w)
    (below next : List ℕ) : Prop where
  free : srt.rules.get? n = none
  parent : srt.rules.get? p = some r
  lt : new.toPattern < r.toPattern
  least : ∀ k ∈ r.nextIndices, ∀ c, srt.item k = some c → ¬ new.toPattern ≤ c
  below_eq : below = r.nextIndices.filter fun k => (srt.item k).any (· ≤ new.toPattern)
  next_perm : next.Perm (n :: r.nextIndices.filter fun k => !(srt.item k).any (· ≤ new.toPattern))
  get : ∀ i, srt'.rules.get? i = if i = n then some { new with nextIndices := below }
    else if i = p then some { r with nextIndices := next } else srt.rules.get? i

/-- What an addition comes to: a new action for the rule that is there already, or a new rule. -/
inductive Added (srt : MmaRulesTable w) (new : MmaRule w) (srt' : MmaRulesTable w) : Prop where
  | replaced (p : ℕ) (r : MmaRule w) (hp : srt.rules.get? p = some r) (hsame : r.toPattern = new.toPattern)
      (hget : ∀ i, srt'.rules.get? i =
        if i = p then some { r with actionIndex := new.actionIndex } else srt.rules.get? i)
  | placed (n p : ℕ) (r : MmaRule w) (below next : List ℕ) (hplaced : Placed srt new srt' n p r below next)

/-- The table with the new rule allocated. -/
def MmaRulesTable.alloc (srt : MmaRulesTable w) (new : MmaRule w) : MmaRulesTable w :=
  { srt with rules := (srt.rules.alloc new).1 }

theorem holds_alloc (srt : MmaRulesTable w) (new : MmaRule w) : Holds srt.item srt.next (srt.alloc new) := by
  intro i a hi
  obtain ⟨r, hr, rfl⟩ := item_eq_some.mp hi
  refine ⟨r, ?_, rfl, (next_eq hr).symm⟩
  rw [MmaRulesTable.alloc, (get?_alloc_of_isSome (by rw [hr]; rfl)).1, hr]

section
variable (h : Shape srt)
include h

theorem addRule_added {new : MmaRule w} (hfits : Fits srt new.toPattern)
    (hleaf : new.nextIndices = []) :
    ∃ srt', mmaRulesTableAddRule (srt.alloc new) (srt.rules.alloc new).2 = .ok srt' ∧
      srt'.rootIndex = srt.rootIndex ∧ Added srt new srt' := by
  set n := (srt.rules.alloc new).2 with hn
  have hget (i : ℕ) : (srt.alloc new).rules.get? i = if i = n then some new else srt.rules.get? i :=
    get?_alloc srt.rules new i
  have hfree : srt.rules.get? n = none := get?_alloc_index _ _
  have hnew : (srt.alloc new).rules.get? n = some new := by rw [hget, if_pos rfl]
  obtain ⟨p, b, hlookup, hp, hmatch, hnone⟩ :=
    lookupRule_spec (holds_alloc srt new) h.tree new.value h.root
  obtain ⟨r, hr, rfl⟩ := item_eq_some.mp hp
  have hpn : p ≠ n := by
    intro heq
    rw [heq, hfree] at hr
    cases hr
  have hparent : (srt.alloc new).rules.get? p = some r := by rw [hget, if_neg hpn, hr]
  have hnext : srt.next p = r.nextIndices := next_eq hr
  have hle : new.toPattern ≤ r.toPattern := hfits.above _ (mem_patterns.mpr ⟨p, hp⟩) hmatch
  have hleast : ∀ k ∈ r.nextIndices, ∀ c, srt.item k = some c → ¬ new.toPattern ≤ c := by
    intro k hk c hc hxc
    exact hnone k (by rwa [hnext]) c hc (matches_value_of_le hxc)
  rw [mmaRulesTableAddRule, getRule_eq_ok hnew]
  have hroot : (srt.alloc new).rootIndex = srt.rootIndex := rfl
  simp only [hroot, hlookup, getRule_eq_ok hparent]
  by_cases hexact : ruleIsExactMatch new r = true
  · rw [if_pos hexact]
    refine ⟨_, rfl, rfl, .replaced p r hr (ruleIsExactMatch_iff.mp hexact).symm fun i => ?_⟩
    have hset := get?_set hparent
      { r with actionIndex := new.actionIndex }
    simp only [freeRule, setRule]
    rw [get?_put (by rw [hset, if_neg (Ne.symm hpn), hnew]), hset, hget]
    by_cases hin : i = n
    · rw [if_pos hin, hin, if_neg (Ne.symm hpn), hfree]
    · rw [if_neg hin, if_neg hin]
  · rw [if_neg hexact]
    have hlt : new.toPattern < r.toPattern :=
      lt_of_le_of_ne hle fun heq => hexact (ruleIsExactMatch_iff.mpr heq)
    by_cases hlen : r.nextIndices.length = 0
    · have hnil := length_eq_zero_iff.mp hlen
      rw [if_pos hlen]
      refine ⟨_, rfl, rfl, .placed n p r [] [n]
        ⟨hfree, hr, hlt, hleast, by rw [hnil]; rfl, by rw [hnil]; simp, fun i => ?_⟩⟩
      simp only [setRule]
      rw [get?_set hparent, hget, hnil, nil_append]
      by_cases hin : i = n
      · rw [if_neg (by rw [hin]; exact Ne.symm hpn), if_pos hin, if_pos hin, ← hleaf]
      · rw [if_neg hin, if_neg hin]
    · rw [if_neg hlen]
      obtain ⟨placed, hplaced, hperm⟩ := placeAmong_spec (holds_alloc srt new) new n
        (P := fun k => (srt.item k).any (· ≤ new.toPattern)) r.nextIndices
        (fun k hk => by
          obtain ⟨c, hc, -⟩ := h.tree.child p _ k hp (by rwa [hnext])
          refine ⟨c, hc, ?_⟩
          rw [hc, Option.any_some, decide_eq_true_iff]
          refine ⟨matches_value_of_le, fun hvalue => ?_⟩
          exact (hfits.below c (mem_patterns.mpr ⟨k, hc⟩) hvalue).resolve_right (hleast k hk c hc)) false
      rw [hplaced]
      refine ⟨_, rfl, rfl, .placed n p r _ placed
        ⟨hfree, hr, hlt, hleast, rfl, by simpa using hperm, fun i => ?_⟩⟩
      have hset := get?_set hnew
        { new with nextIndices := new.nextIndices ++ r.nextIndices.filter fun k =>
          (srt.item k).any (· ≤ new.toPattern) }
      simp only [setRule]
      rw [get?_set (by rw [hset, if_neg hpn, hparent]), hset, hget, hleaf, nil_append]
      by_cases hin : i = n
      · rw [if_neg (by rw [hin]; exact Ne.symm hpn), if_pos hin, if_pos hin]
      · simp only [hin, if_false]

section
variable (hroot : srt'.rootIndex = srt.rootIndex)
include hroot

/-- A table whose rules have the same patterns and the same rules below them. -/
theorem Shape.congr
    (hitem : ∀ i, srt'.item i = srt.item i) (hnext : ∀ i, srt'.next i = srt.next i) : Shape srt' := by
  have hitem : srt'.item = srt.item := funext hitem
  have hnext : srt'.next = srt.next := funext hnext
  refine ⟨?_, ?_, ?_⟩
  · rw [hroot, hitem]
    exact h.root
  · rw [hroot, hitem, hnext]
    exact h.tree
  · rw [hitem]
    exact h.chained

/-- A new action changes neither patterns nor links. -/
theorem Shape.setAction {p : ℕ}
    {r : MmaRule w} (hp : srt.rules.get? p = some r) {actionIndex : ℕ}
    (hget : ∀ i, srt'.rules.get? i = if i = p then some { r with actionIndex := actionIndex } else srt.rules.get? i) :
    Shape srt' := by
  refine h.congr hroot ?_ ?_
  · intro i
    rw [item, hget, item]
    split_ifs with hip
    · rw [hip, hp]
      rfl
    · rfl
  · intro i
    rw [MmaRulesTable.next, hget, MmaRulesTable.next]
    split_ifs with hip
    · rw [hip, hp]
      rfl
    · rfl

/-- The patterns after a rule has been placed. -/
theorem Shape.placed {new r : MmaRule w} {n p : ℕ} {below next : List ℕ} (hfits : Fits srt new.toPattern)
    (hplaced : Placed srt new srt' n p r below next) : Shape srt' := by
  obtain ⟨hn, hp, hlt, hleast, hbelow, hnext, hget⟩ := hplaced
  have hpn : p ≠ n := by
    rintro rfl
    rw [hn] at hp
    cases hp
  have hitem_n : srt.item n = none := by
    rw [item, hn]
    rfl
  have hitem_p : srt.item p = some r.toPattern := item_eq_some.mpr ⟨r, hp, rfl⟩
  have hnew : srt'.item n = some new.toPattern := by
    rw [item, hget, if_pos rfl]
    rfl
  have hold (i : ℕ) (hin : i ≠ n) : srt'.item i = srt.item i := by
    rw [item, hget, if_neg hin, item]
    split_ifs with hip
    · rw [hip, hp]
      rfl
    · rfl
  have hnext_p : srt.next p = r.nextIndices := next_eq hp
  have hnext'_n : srt'.next n = below := by
    rw [MmaRulesTable.next, hget, if_pos rfl]
    rfl
  have hnext'_p : srt'.next p = next := by
    rw [MmaRulesTable.next, hget, if_neg hpn, if_pos rfl]
    rfl
  have hnodup := h.tree.nodup p _ hitem_p
  have hnot : n ∉ srt.next p := by
    intro hmem
    obtain ⟨b, hb, -⟩ := h.tree.child p _ n hitem_p hmem
    rw [hitem_n] at hb
    cases hb
  rw [hnext_p] at hnodup hnot
  have hpatterns {i : ℕ} {a : Pattern w} (hi : srt'.item i = some a) : a ∈ new.toPattern :: srt.patterns := by
    by_cases hin : i = n
    · subst hin
      cases hnew.symm.trans hi
      exact mem_cons_self
    · rw [hold i hin] at hi
      exact mem_cons_of_mem _ (mem_patterns.mpr ⟨i, hi⟩)
  have hchained : Chained srt'.item := by
    intro i j k a b c hi hj hk
    exact hfits.chained a (hpatterns hi) b (hpatterns hj) c (hpatterns hk)
  have hany (k : ℕ) : (srt.item k).any (· ≤ new.toPattern) = true ↔ ∃ c, srt.item k = some c ∧
    c ≤ new.toPattern := by
    cases srt.item k <;> simp
  refine ⟨?_, ?_, hchained⟩
  · have hne : srt.rootIndex ≠ n := by
      intro heq
      have := h.root
      rw [heq, hitem_n] at this
      cases this
    rw [hroot, hold _ hne]
    exact h.root
  · rw [hroot]
    refine h.tree.insert hchained hitem_n hitem_p hlt (by rwa [hnext_p]) hnew hold ?_ ?_ ?_ ?_ ?_
    · intro i hin hip
      rw [MmaRulesTable.next, hget, if_neg hin, if_neg hip, MmaRulesTable.next]
    · intro k
      rw [hnext'_n, hbelow, mem_filter, hnext_p, hany]
    · rw [hnext'_n, hbelow]
      exact hnodup.filter _
    · intro k
      rw [hnext'_p, hnext.mem_iff, mem_cons, mem_filter, hnext_p, Bool.not_eq_true', ← Bool.not_eq_true, hany]
      simp only [not_exists, not_and]
    · rw [hnext'_p, hnext.nodup_iff, nodup_cons]
      exact ⟨fun hmem => hnot (mem_filter.mp hmem).1, hnodup.filter _⟩

theorem Shape.added {new : MmaRule w}
    (hfits : Fits srt new.toPattern) (hadded : Added srt new srt') : Shape srt' := by
  cases hadded with
  | replaced p r hp _ hget => exact h.setAction hroot hp hget
  | placed n p r below next hplaced => exact h.placed hroot hfits hplaced

end

end

/-! ### Deletion -/

/-- What a deletion comes to: nothing if there is no such rule, no action if it is the root, or the rule is gone and the
    rules below it are in its place. -/
inductive Deleted (srt : MmaRulesTable w) (x : Pattern w) (srt' : MmaRulesTable w) : Prop where
  | absent (hx : ∀ i, srt.item i ≠ some x) (hget : ∀ i, srt'.rules.get? i = srt.rules.get? i)
  | root (r : MmaRule w) (hp : srt.rules.get? srt.rootIndex = some r) (hsame : r.toPattern = x)
      (hget : ∀ i, srt'.rules.get? i =
        if i = srt.rootIndex then some { r with actionIndex := mmaTableInvalidIndex } else srt.rules.get? i)
  | removed (n p : ℕ) (gone r : MmaRule w) (front back : List ℕ) (hne : n ≠ p) (hn : srt.rules.get? n = some gone)
      (hsame : gone.toPattern = x) (hp : srt.rules.get? p = some r) (hnext : r.nextIndices = front ++ n :: back)
      (hget : ∀ i, srt'.rules.get? i = if i = n then none
        else if i = p then some { r with nextIndices := front ++ gone.nextIndices ++ back } else srt.rules.get? i)

/-- A loop over children that are all passed. -/
theorem delNext_invalid (ruleIndex : ℕ) {is : List ℕ}
    (h : ∀ i ∈ is, del srt i = .ok (.invalid, srt)) (passed : List ℕ) :
    delNext del ruleIndex passed is srt = .ok (.invalid, srt) := by
  induction is generalizing passed with
  | nil => rfl
  | cons i is ih =>
    obtain ⟨hi, his⟩ := forall_mem_cons.mp h
    rw [delNext, hi]
    exact ih his _

/-- A loop that passes some children and goes on with the next one. -/
theorem delNext_append (ruleIndex : ℕ) {front : List ℕ}
    (h : ∀ i ∈ front, del srt i = .ok (.invalid, srt)) (passed rest : List ℕ) :
    delNext del ruleIndex passed (front ++ rest) srt = delNext del ruleIndex (passed ++ front) rest srt := by
  induction front generalizing passed with
  | nil => rw [nil_append, append_nil]
  | cons i is ih =>
    obtain ⟨hi, his⟩ := forall_mem_cons.mp h
    rw [cons_append, delNext, hi]
    dsimp only
    rw [ih his, append_assoc]
    rfl

section
variable {srt : MmaRulesTable w} (h : Shape srt)
include h

/-- A rule whose pattern is not stored at `i` or below is not found from `i` on. -/
theorem delRuleTo_absent (rule : MmaRule w) (depth : ℕ) {i : ℕ} {a : Pattern w} (hi : srt.item i = some a)
    (hx : ∀ j b, srt.item j = some b → b ≤ a → b ≠ rule.toPattern)
    (hdepth : countBelow (Finset.range srt.depth) srt.item a < depth) :
    delRuleTo rule depth srt i = .ok (.invalid, srt) := by
  induction depth generalizing i a with
  | zero => exact absurd hdepth (Nat.not_lt_zero _)
  | succ depth ih =>
    obtain ⟨r, hr, rfl⟩ := item_eq_some.mp hi
    rw [delRuleTo, getRule_eq_ok hr]
    have hexact : ruleIsExactMatch rule r = false := by
      rw [← Bool.not_eq_true]
      intro hexact
      exact hx i _ hi le_rfl (ruleIsExactMatch_iff.mp hexact).symm
    simp only [hexact, Bool.false_eq_true, if_false]
    split_ifs with hmatch
    · rfl
    · refine delNext_invalid i (fun k hk => ?_) []
      obtain ⟨c, hc, hca⟩ := h.tree.child i _ k hi (by rwa [next_eq hr])
      have hlt := countBelow_lt (lt_of_holds (holds_self srt) hc) hc hca
      exact ih hc (fun j b hj hle => hx j b hj (hle.trans hca.le)) (by omega)

/-- A stored rule is found from itself on, and from the rules above it. -/
theorem delRuleTo_stored (rule : MmaRule w) {gone : MmaRule w} {n : ℕ} (hn : srt.rules.get? n = some gone)
    (hsame : gone.toPattern = rule.toPattern) (hroot : n ≠ srt.rootIndex) (depth : ℕ) {i : ℕ} {r : MmaRule w}
    (hi : srt.rules.get? i = some r) (hdepth : countBelow (Finset.range srt.depth) srt.item r.toPattern < depth) :
    (i = n → delRuleTo rule depth srt i = .ok (.itself, srt)) ∧
    (rule.toPattern < r.toPattern → ∃ srt', delRuleTo rule depth srt i = .ok (.done, srt') ∧
      srt'.rootIndex = srt.rootIndex ∧ Deleted srt rule.toPattern srt') := by
  induction depth generalizing i r with
  | zero => exact absurd hdepth (Nat.not_lt_zero _)
  | succ depth ih =>
    have hitem_i : srt.item i = some r.toPattern := item_eq_some.mpr ⟨r, hi, rfl⟩
    have hitem_n : srt.item n = some rule.toPattern := item_eq_some.mpr ⟨gone, hn, hsame⟩
    rw [delRuleTo, getRule_eq_ok hi]
    constructor
    · rintro rfl
      cases hi.symm.trans hn
      have hexact : ruleIsExactMatch rule gone = true := ruleIsExactMatch_iff.mpr hsame.symm
      have hmatch : ruleIsMatchForKey rule.value gone = true :=
        ruleIsMatchForKey_iff.mpr (matches_value_of_le hsame.ge)
      simp only [hmatch, hexact, hroot, Bool.not_true, Bool.false_eq_true, if_false, if_true]
    · intro hlt
      have hmatch : ruleIsMatchForKey rule.value r = true :=
        ruleIsMatchForKey_iff.mpr (matches_value_of_le hlt.le)
      have hexact : ruleIsExactMatch rule r = false := by
        rw [← Bool.not_eq_true]
        exact fun heq => hlt.ne (ruleIsExactMatch_iff.mp heq)
      simp only [hmatch, hexact, Bool.not_true, Bool.false_eq_true, if_false]
      -- there is one child on the way to the rule; those before it are passed
      obtain ⟨k, hk, c, hc, hxc⟩ := h.tree.descend i _ n _ hitem_i hitem_n hlt
      rw [next_eq hi] at hk
      obtain ⟨front, back, hsplit⟩ := append_of_mem hk
      have hchild (j : ℕ) (hj : j ∈ r.nextIndices) : ∃ rj, srt.rules.get? j = some rj ∧
          countBelow (Finset.range srt.depth) srt.item rj.toPattern < depth := by
        obtain ⟨b, hb, hba⟩ := h.tree.child i _ j hitem_i (by rwa [next_eq hi])
        have hlt := countBelow_lt (lt_of_holds (holds_self srt) hb) hb hba
        obtain ⟨rj, hrj, rfl⟩ := item_eq_some.mp hb
        exact ⟨rj, hrj, by omega⟩
      have hnodup := h.tree.nodup i _ hitem_i
      rw [next_eq hi, hsplit] at hnodup
      have hfront : ∀ j ∈ front, delRuleTo rule depth srt j = .ok (.invalid, srt) := by
        intro j hj
        have hj' : j ∈ r.nextIndices := by
          rw [hsplit]
          exact mem_append_left _ hj
        obtain ⟨rj, hrj, hdepth_j⟩ := hchild j hj'
        have hitem_j : srt.item j = some rj.toPattern := item_eq_some.mpr ⟨rj, hrj, rfl⟩
        refine delRuleTo_absent h rule depth hitem_j (fun l b hl hle heq => ?_) hdepth_j
        rw [heq] at hle
        have hjk : j = k := by
          rcases h.chained n j k _ _ _ hitem_n hitem_j hc hle hxc with hle | hle
          · exact h.tree.apart i _ j _ k _ hitem_i (by rwa [next_eq hi])
              (by rwa [next_eq hi]) hitem_j hc hle
          · exact (h.tree.apart i _ k _ j _ hitem_i (by rwa [next_eq hi])
              (by rwa [next_eq hi]) hc hitem_j hle).symm
        subst hjk
        exact (nodup_append.mp hnodup).2.2 j hj j mem_cons_self rfl
      rw [hsplit, delNext_append i hfront, nil_append, delNext]
      obtain ⟨rk, hrk, hdepth_k⟩ := hchild k hk
      cases (item_eq_some.mpr ⟨rk, hrk, rfl⟩).symm.trans hc
      by_cases hkn : k = n
      · rw [(ih hrk hdepth_k).1 hkn]
        dsimp only
        subst hkn
        cases hrk.symm.trans hn
        rw [getRule_eq_ok hrk, getRule_eq_ok hi]
        have hik : i ≠ k := by
          rintro rfl
          cases hi.symm.trans hrk
          exact hlt.ne hsame.symm
        refine ⟨_, rfl, rfl, .removed k i gone r front back (Ne.symm hik) hrk hsame hi hsplit fun j => ?_⟩
        have hput := get?_put hrk
        simp only [setRule, freeRule]
        rw [get?_set (by rw [hput, if_neg hik, hi]), hput]
        by_cases hjk : j = k
        · rw [if_pos hjk, if_pos hjk, if_neg (by rw [hjk]; exact Ne.symm hik)]
        · simp only [hjk, if_false]
      · have hlt : rule.toPattern < rk.toPattern := by
          refine lt_of_le_of_ne hxc fun heq => hkn ?_
          exact h.tree.inj k n _ hc (by rw [hitem_n, heq])
        obtain ⟨srt', hdel, hrest⟩ := (ih hrk hdepth_k).2 hlt
        rw [hdel]
        exact ⟨srt', rfl, hrest⟩

theorem delRule_deleted (x : Pattern w) :
    ∃ srt', mmaRulesTableDelRule srt (.init x 0 0) = .ok srt' ∧ srt'.rootIndex = srt.rootIndex ∧
      Deleted srt x srt' := by
  have hdepth := countBelow_lt_card (lt_of_holds (holds_self srt) h.root) h.root
  rw [Finset.card_range] at hdepth
  obtain ⟨r, hr, hpattern⟩ := item_eq_some.mp h.root
  rw [mmaRulesTableDelRule]
  by_cases hx : ∃ n, srt.item n = some x
  · obtain ⟨n, hn⟩ := hx
    obtain ⟨gone, hgone, hsame⟩ := item_eq_some.mp hn
    by_cases hroot : n = srt.rootIndex
    · -- the root stays, without an action
      subst hroot
      cases hr.symm.trans hgone
      obtain ⟨depth, hsucc⟩ : ∃ depth, srt.depth = depth + 1 := Nat.exists_eq_succ_of_ne_zero (by omega)
      have hexact : ruleIsExactMatch (.init x 0 0) r = true := ruleIsExactMatch_iff.mpr hsame.symm
      have hmatch : ruleIsMatchForKey (MmaRule.init x 0 0).value r = true :=
        ruleIsMatchForKey_iff.mpr (matches_value_of_le hsame.ge)
      rw [hsucc, delRuleTo, getRule_eq_ok hr]
      simp only [hmatch, hexact, Bool.not_true, Bool.false_eq_true, if_false, if_true]
      refine ⟨_, rfl, rfl, .root r hr hsame fun i => ?_⟩
      exact get?_set hr _ i
    · have hlt : x < r.toPattern := by
        rw [hpattern]
        refine lt_of_le_of_ne (le_top x) fun heq => hroot ?_
        exact h.tree.inj n _ x hn (by rw [h.root, heq])
      obtain ⟨srt', hdel, hrest⟩ := (delRuleTo_stored h (.init x 0 0) hgone hsame hroot srt.depth hr
        (by rwa [hpattern])).2 hlt
      rw [hdel]
      exact ⟨srt', rfl, hrest⟩
  · have hx : ∀ i, srt.item i ≠ some x := fun i hi => hx ⟨i, hi⟩
    rw [delRuleTo_absent h (.init x 0 0) srt.depth h.root (fun j b hj _ heq => hx j (by rw [hj, heq]; rfl)) hdepth]
    exact ⟨srt, rfl, rfl, .absent hx fun _ => rfl⟩

theorem Shape.deleted (hroot : srt'.rootIndex = srt.rootIndex) {x : Pattern w}
    (hdel : Deleted srt x srt') : Shape srt' := by
  cases hdel with
  | absent _ hget =>
    refine h.congr hroot (fun i => ?_) (fun i => ?_)
    · rw [item, hget, item]
    · rw [MmaRulesTable.next, hget, MmaRulesTable.next]
  | root r hp _ hget => exact h.setAction hroot hp hget
  | removed n p gone r front back hne hn hsame hp hnext hget =>
    have hitem_p : srt.item p = some r.toPattern := item_eq_some.mpr ⟨r, hp, rfl⟩
    have hgone : srt'.item n = none := by
      rw [item, hget, if_pos rfl]
      rfl
    have hold (i : ℕ) (hin : i ≠ n) : srt'.item i = srt.item i := by
      rw [item, hget, if_neg hin, item]
      split_ifs with hip
      · rw [hip, hp]
        rfl
      · rfl
    have hsub {i : ℕ} {a : Pattern w} (hi : srt'.item i = some a) : srt.item i = some a := by
      rwa [hold] at hi
      rintro rfl
      rw [hgone] at hi
      cases hi
    have hmem : n ∈ srt.next p := by
      rw [next_eq hp, hnext]
      simp
    have hroot_ne : srt.rootIndex ≠ n := by
      intro heq
      obtain ⟨b, hb, hlt⟩ := h.tree.child p _ n hitem_p hmem
      rw [← heq, h.root] at hb
      cases hb
      exact absurd (le_top _) hlt.not_ge
    refine ⟨?_, ?_, ?_⟩
    · rw [hroot, hold _ hroot_ne]
      exact h.root
    · rw [hroot]
      refine h.tree.remove h.chained hitem_p (by rw [next_eq hp, hnext]) hgone hold ?_ ?_
      · intro i hin hip
        rw [MmaRulesTable.next, hget, if_neg hin, if_neg hip, MmaRulesTable.next]
      · rw [MmaRulesTable.next, hget, if_neg (Ne.symm hne), if_pos rfl, next_eq hn]
        rfl
    · intro i j k a b c hi hj hk
      exact h.chained i j k a b c (hsub hi) (hsub hj) (hsub hk)

end

end Vpp.Session
