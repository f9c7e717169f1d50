import Vpp.Schemes.CoverTree
import Vpp.Session.Mma.Table

/-! The rules of a table as a tree of patterns (`CoverTree`), and what the three walks over it do.

    A lookup ends at a rule that matches the key and has no matching rule below it; the place of a new rule among the
    children of its parent is found by comparing matches. -/

namespace Vpp.Session
open Vpp.Schemes List MmaRulesTable

variable {w : ℕ}

namespace MmaRulesTable

/-- The pattern at an index, and the rules below it. -/
def item (srt : MmaRulesTable w) (i : ℕ) : Option (Pattern w) := (srt.rules.get? i).map (·.toPattern)

def next (srt : MmaRulesTable w) (i : ℕ) : List ℕ := ((srt.rules.get? i).map (·.nextIndices)).getD []

variable {r : MmaRule w} {srt : MmaRulesTable w}

theorem getRule_eq_ok {i : ℕ} (h : srt.rules.get? i = some r) :
    srt.getRule i = .ok r := by
  rw [getRule, h]

theorem item_eq_some {i : ℕ} {a : Pattern w} :
    srt.item i = some a ↔ ∃ r, srt.rules.get? i = some r ∧ r.toPattern = a :=
  Option.map_eq_some_iff

theorem next_eq {i : ℕ} (h : srt.rules.get? i = some r) :
    srt.next i = r.nextIndices := by
  rw [next, h]
  rfl

end MmaRulesTable

/-- A table holds a tree, and perhaps more rules besides. -/
def Holds (item : ℕ → Option (Pattern w)) (next : ℕ → List ℕ) (srt : MmaRulesTable w) : Prop :=
  ∀ i a, item i = some a → ∃ r, srt.rules.get? i = some r ∧ r.toPattern = a ∧ r.nextIndices = next i

theorem holds_self (srt : MmaRulesTable w) : Holds srt.item srt.next srt := by
  intro i a hi
  obtain ⟨r, hr, rfl⟩ := item_eq_some.mp hi
  exact ⟨r, hr, rfl, (next_eq hr).symm⟩

theorem ruleIsMatchForKey_iff {key : BitVec w} :
    ruleIsMatchForKey key r = true ↔ r.toPattern.Matches key := by
  rw [ruleIsMatchForKey, decide_eq_true_iff]
  rfl

theorem ruleIsExactMatch_iff {key : MmaRule w} : ruleIsExactMatch key r = true ↔ key.toPattern = r.toPattern := by
  rw [ruleIsExactMatch, decide_eq_true_iff]
  constructor
  · rintro ⟨hvalue, hmask⟩
    exact Pattern.ext hmask hvalue
  · intro h
    exact ⟨congrArg Pattern.value h, congrArg Pattern.mask h⟩

/-! ### Lookup -/

/-- Of rules that are looked up in turn, the first one that matches decides. -/
theorem lookupNext_spec {lookup : ℕ → Except MmaFault (Option ℕ)} {M Q : ℕ → Prop}
    (ruleIndex : ℕ) (is : List ℕ)
    (hmiss : ∀ i ∈ is, ¬ M i → lookup i = .ok none)
    (hhit : ∀ i ∈ is, M i → ∃ j, lookup i = .ok (some j) ∧ Q j) :
    ∃ j, lookupNext lookup ruleIndex is = .ok (some j) ∧ ((j = ruleIndex ∧ ∀ i ∈ is, ¬ M i) ∨ Q j) := by
  induction is with
  | nil => exact ⟨ruleIndex, rfl, .inl ⟨rfl, fun i hi => absurd hi not_mem_nil⟩⟩
  | cons i is ih =>
    obtain ⟨hmiss_i, hmiss⟩ := forall_mem_cons.mp hmiss
    obtain ⟨hhit_i, hhit⟩ := forall_mem_cons.mp hhit
    rw [lookupNext]
    by_cases hM : M i
    · obtain ⟨j, hj, hQ⟩ := hhit_i hM
      exact ⟨j, by rw [hj], .inr hQ⟩
    · rw [hmiss_i hM]
      obtain ⟨j, hj, ⟨rfl, hall⟩ | hQ⟩ := ih hmiss hhit
      · exact ⟨j, hj, .inl ⟨rfl, forall_mem_cons.mpr ⟨hM, hall⟩⟩⟩
      · exact ⟨j, hj, .inr hQ⟩

section
variable {item : ℕ → Option (Pattern w)} {next : ℕ → List ℕ} {root : ℕ} {srt : MmaRulesTable w}

section

variable (hholds : Holds item next srt)
include hholds

/-- The indices of a table's pool. -/
theorem lt_of_holds {i : ℕ} {a : Pattern w} (hi : item i = some a) :
    i ∈ Finset.range srt.depth := by
  obtain ⟨r, hr, -⟩ := hholds i a hi
  exact Finset.mem_range.mpr (List.getElem?_eq_some_iff.mp (Pool.get?_eq_some.mp hr)).1

/-- What is found from a rule on: nothing if the rule does not match, or else a rule that matches and has no matching
    rule below it. -/
theorem lookupRuleTo_spec (htree : CoverTree item next root) (key : BitVec w) (depth : ℕ) {i : ℕ}
    {a : Pattern w} (hi : item i = some a)
    (hdepth : countBelow (Finset.range srt.depth) item a < depth) :
    (¬ a.Matches key → lookupRuleTo srt key depth i = .ok none) ∧
    (a.Matches key → ∃ j b, lookupRuleTo srt key depth i = .ok (some j) ∧ item j = some b ∧ b.Matches key ∧
      ∀ k ∈ next j, ∀ c, item k = some c → ¬ c.Matches key) := by
  induction depth generalizing i a with
  | zero => exact absurd hdepth (Nat.not_lt_zero _)
  | succ depth ih =>
    obtain ⟨r, hr, rfl, hnext⟩ := hholds i a hi
    rw [lookupRuleTo, getRule_eq_ok hr]
    dsimp only
    constructor
    · intro hkey
      rw [if_neg (by rwa [ruleIsMatchForKey_iff])]
    · intro hkey
      rw [if_pos (ruleIsMatchForKey_iff.mpr hkey), hnext]
      -- every child is strictly below, so it is looked up with depth enough
      have hchild (k : ℕ) (hk : k ∈ next i) : ∃ c, item k = some c ∧
          countBelow (Finset.range srt.depth) item c < depth := by
        obtain ⟨c, hc, hca⟩ := htree.child i _ k hi hk
        have hlt := countBelow_lt (lt_of_holds hholds hc) hc hca
        exact ⟨c, hc, by omega⟩
      obtain ⟨j, hj, ⟨rfl, hall⟩ | ⟨b, hb, hmatch, hbelow⟩⟩ := lookupNext_spec
        (M := fun k => ∀ c, item k = some c → c.Matches key)
        (Q := fun j => ∃ b, item j = some b ∧ b.Matches key ∧ ∀ k ∈ next j, ∀ c, item k = some c →
          ¬ c.Matches key)
        i (next i)
        (fun k hk hM => by
          obtain ⟨c, hc, hlt⟩ := hchild k hk
          refine (ih hc hlt).1 fun hmatch => hM ?_
          intro c' hc'
          cases hc.symm.trans hc'
          exact hmatch)
        (fun k hk hM => by
          obtain ⟨c, hc, hlt⟩ := hchild k hk
          obtain ⟨j, b, hj, hrest⟩ := (ih hc hlt).2 (hM c hc)
          exact ⟨j, hj, b, hrest⟩)
      · refine ⟨j, _, hj, hi, hkey, fun k hk c hc hmatch => hall k hk ?_⟩
        intro c' hc'
        cases hc.symm.trans hc'
        exact hmatch
      · exact ⟨j, b, hj, hb, hmatch, hbelow⟩

theorem lookupRule_spec (htree : CoverTree item next root) (key : BitVec w)
    (hroot : item root = some (.top w)) :
    ∃ j b, mmaRulesTableLookupRule srt key root = .ok (some j) ∧ item j = some b ∧ b.Matches key ∧
      ∀ k ∈ next j, ∀ c, item k = some c → ¬ c.Matches key := by
  have hdepth := countBelow_lt_card (lt_of_holds hholds hroot) hroot
  rw [Finset.card_range] at hdepth
  exact (lookupRuleTo_spec hholds htree key srt.depth hroot hdepth).2 (Pattern.matches_top key)

/-! ### Addition -/

/-- The loop splits the children by whether the rule is above them, and puts the rule among the others. -/
theorem placeAmong_spec (rule : MmaRule w) (ruleIndex : ℕ) {P : ℕ → Bool} (is : List ℕ)
    (hP : ∀ i ∈ is, ∃ c, item i = some c ∧ (P i = true ↔ rule.toPattern.Matches c.value))
    (added : Bool) :
    ∃ placed, placeAmong srt rule ruleIndex is added = .ok (is.filter P, placed) ∧
      placed.Perm ((if added then [] else [ruleIndex]) ++ is.filter fun i => !P i) := by
  induction is generalizing added with
  | nil => exact ⟨_, rfl, by simp⟩
  | cons i is ih =>
    obtain ⟨⟨c, hc, hPi⟩, hP⟩ := forall_mem_cons.mp hP
    obtain ⟨child, hr, rfl, -⟩ := hholds i c hc
    rw [placeAmong, getRule_eq_ok hr]
    dsimp only
    by_cases hbelow : P i = true
    · rw [if_pos (ruleIsMatchForKey_iff.mpr (hPi.mp hbelow))]
      obtain ⟨placed, hplaced, hperm⟩ := ih hP true
      rw [hplaced]
      refine ⟨if added then placed else ruleIndex :: placed, by simp [hbelow], ?_⟩
      cases added with
      | true => simpa [hbelow] using hperm
      | false => simpa [hbelow] using hperm
    · rw [if_neg (by rwa [ruleIsMatchForKey_iff, ← hPi])]
      have hfalse : P i = false := by simpa using hbelow
      obtain ⟨placed, hplaced, hperm⟩ := ih hP (added || (!added && srt.ruleCmpFn rule child))
      rw [hplaced]
      refine ⟨if !added && srt.ruleCmpFn rule child then ruleIndex :: i :: placed else i :: placed,
        by simp [hfalse], ?_⟩
      cases added with
      | true =>
        simpa [hfalse] using hperm
      | false =>
        cases hcmp : srt.ruleCmpFn rule child with
        | true =>
          simp only [hcmp, Bool.false_or, Bool.not_false, Bool.true_and, if_true, nil_append] at hperm ⊢
          simpa [hfalse] using hperm
        | false =>
          simp only [hcmp, Bool.false_or, Bool.not_false, Bool.true_and] at hperm ⊢
          simp only [Bool.false_eq_true, if_false, hfalse, Bool.not_false, filter_cons_of_pos] at hperm ⊢
          exact (hperm.cons i).trans (List.Perm.swap _ _ _)

end

end

end Vpp.Session
