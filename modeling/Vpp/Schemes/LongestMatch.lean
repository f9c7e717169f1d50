import Mathlib

/-! Longest-prefix match, on bit strings that are given by their length and their value.

        w  =  1 0 1 1 0 1         length m = 6
        v  =  1 0 1 1             length n = 4,   v = w / 2 ^ (m - n)

    A table has a value for some strings. `longest R d n v` finds the longest string of the table that `v` starts
    with; so does a search through the lengths in use, from the greatest on (`searchLengths_eq_longest`). -/

namespace Vpp.Schemes
open List Option

/-- A table of prefixes, by their lengths and values. -/
abbrev Routes (α : Type*) := ℕ → ℕ → Option α

/-- The string `v` of length `n` starts the string `w` of length `m`. -/
def Starts (n v m w : ℕ) : Prop := n ≤ m ∧ w / 2 ^ (m - n) = v
deriving Decidable

section
variable {n v m w k u : ℕ}

theorem Starts.refl (n v : ℕ) : Starts n v n v := ⟨le_refl n, by simp⟩

theorem starts_self : Starts n v n w ↔ w = v := by simp [Starts]

theorem Starts.trans (h : Starts n v m w) (h' : Starts m w k u) : Starts n v k u := by
  obtain ⟨hle, rfl⟩ := h
  obtain ⟨hle', rfl⟩ := h'
  refine ⟨by omega, ?_⟩
  rw [Nat.div_div_eq_div_mul, ← pow_add]
  congr 2
  omega

theorem Starts.succ_half (h : Starts n v (m + 1) w) (hlt : n ≤ m) : Starts n v m (w / 2) := by
  refine ⟨hlt, ?_⟩
  have hpow : 2 ^ (m + 1 - n) = 2 * 2 ^ (m - n) := by
    rw [← Nat.pow_succ']
    congr 1
    omega
  rw [Nat.div_div_eq_div_mul, ← hpow]
  exact h.2

theorem starts_half (n v : ℕ) : Starts n (v / 2) (n + 1) v := ⟨Nat.le_succ n, by simp⟩

end

variable {α : Type*} {R : Routes α} {d : α}

/-- The longest string of the table that `v` starts with, and its value; `(0, d)` where there is none. -/
def longest (R : Routes α) (d : α) : ℕ → ℕ → ℕ × α
  | 0, v => (0, (R 0 v).getD d)
  | n + 1, v =>
    match R (n + 1) v with
    | some a => (n + 1, a)
    | none => longest R d n (v / 2)

/-- What is found is in the table, or nothing is found. -/
theorem longest_cases (n v : ℕ) :
    (∃ w, Starts (longest R d n v).1 w n v ∧ R (longest R d n v).1 w = some (longest R d n v).2) ∨
      longest R d n v = (0, d) := by
  induction n generalizing v with
  | zero =>
    rw [longest]
    cases h : R 0 v with
    | none => exact .inr rfl
    | some a => exact .inl ⟨v, Starts.refl 0 v, h⟩
  | succ n ih =>
    rw [longest]
    cases h : R (n + 1) v with
    | some a => exact .inl ⟨v, Starts.refl _ v, h⟩
    | none =>
      rcases ih (v / 2) with ⟨w, hw, hR⟩ | hnone
      · exact .inl ⟨w, hw.trans (starts_half n v), hR⟩
      · exact .inr hnone

/-- What is found is at least as long as any string of the table that `v` starts with. -/
theorem le_longest {n v m w : ℕ} {a : α} (hs : Starts m w n v) (h : R m w = some a) :
    m ≤ (longest R d n v).1 ∧ ((longest R d n v).1 = m → (longest R d n v).2 = a) := by
  induction n generalizing v with
  | zero =>
    obtain rfl : m = 0 := Nat.le_zero.mp hs.1
    obtain rfl : v = w := starts_self.mp hs
    rw [longest, h]
    exact ⟨le_refl 0, fun _ => rfl⟩
  | succ n ih =>
    rw [longest]
    cases hv : R (n + 1) v with
    | some b =>
      refine ⟨hs.1, fun heq => ?_⟩
      simp only at heq
      subst heq
      obtain rfl := starts_self.mp hs
      exact some.inj (hv.symm.trans h)
    | none =>
      refine ih (hs.succ_half (Nat.lt_succ_iff.mp (lt_of_le_of_ne hs.1 ?_)))
      rintro rfl
      obtain rfl := starts_self.mp hs
      rw [hv] at h
      cases h

/-! ### Searching by length -/

/-- The value of the first of the given lengths at which the table has a string that `v` starts with. -/
def searchLengths (R : Routes α) (n v : ℕ) : List ℕ → Option α
  | [] => none
  | l :: ls =>
    match R l (v / 2 ^ (n - l)) with
    | some a => some a
    | none => searchLengths R n v ls

/-- What is found has one of the lengths, and no length before it has anything. -/
theorem searchLengths_cases (R : Routes α) (n v : ℕ) (ls : List ℕ) :
    (∃ l ∈ ls, ∃ a, R l (v / 2 ^ (n - l)) = some a ∧ searchLengths R n v ls = some a ∧
      ∀ m ∈ ls, ls.Pairwise (· > ·) → l < m → R m (v / 2 ^ (n - m)) = none) ∨
    (searchLengths R n v ls = none ∧ ∀ l ∈ ls, R l (v / 2 ^ (n - l)) = none) := by
  induction ls with
  | nil => exact .inr ⟨rfl, by simp⟩
  | cons k ls ih =>
    rw [searchLengths]
    cases hk : R k (v / 2 ^ (n - k)) with
    | some a =>
      refine .inl ⟨k, mem_cons_self, a, hk, rfl, ?_⟩
      intro m hm hdesc hlt
      rcases mem_cons.mp hm with rfl | hmem
      · exact absurd hlt (lt_irrefl _)
      · exact absurd (rel_of_pairwise_cons hdesc hmem) (Nat.lt_asymm hlt)
    | none =>
      rcases ih with ⟨l, hl, a, ha, hsearch, hbefore⟩ | ⟨hsearch, hnone⟩
      · refine .inl ⟨l, mem_cons_of_mem k hl, a, ha, hsearch, ?_⟩
        intro m hm hdesc hlt
        rcases mem_cons.mp hm with rfl | hmem
        · exact hk
        · exact hbefore m hmem (List.Pairwise.of_cons hdesc) hlt
      · exact .inr ⟨hsearch, forall_mem_cons.mpr ⟨hk, hnone⟩⟩

/-- Where no length is above `m`, only the first `m` bits are looked at. -/
theorem searchLengths_of_le {n m v : ℕ} {ls : List ℕ} (hm : m ≤ n) (hle : ∀ l ∈ ls, l ≤ m) :
    searchLengths R n v ls = searchLengths R m (v / 2 ^ (n - m)) ls := by
  induction ls with
  | nil => rfl
  | cons l ls ih =>
    have hl : l ≤ m := hle l mem_cons_self
    have hdiv : v / 2 ^ (n - m) / 2 ^ (m - l) = v / 2 ^ (n - l) := by
      rw [Nat.div_div_eq_div_mul, ← pow_add]
      congr 2
      omega
    rw [searchLengths, searchLengths, hdiv, ih fun k hk => hle k (mem_cons_of_mem l hk)]

/-- From descending lengths those above a limit are the first ones. -/
theorem mem_dropWhile_of_desc {ls : List ℕ} (hdesc : ls.Pairwise (· > ·)) (k l : ℕ) :
    l ∈ ls.dropWhile (fun m => decide (m > k)) ↔ l ∈ ls ∧ l ≤ k := by
  induction ls with
  | nil => simp
  | cons m ls ih =>
    rw [dropWhile_cons]
    by_cases hm : m > k
    · rw [if_pos (by simpa using hm), ih (List.Pairwise.of_cons hdesc), mem_cons]
      constructor
      · rintro ⟨hmem, hle⟩
        exact ⟨.inr hmem, hle⟩
      · rintro ⟨rfl | hmem, hle⟩
        · omega
        · exact ⟨hmem, hle⟩
    · rw [if_neg (by simpa using hm), iff_self_and]
      intro hmem
      rcases mem_cons.mp hmem with rfl | hmem
      · omega
      · have := rel_of_pairwise_cons hdesc hmem
        omega

/-- A search through the lengths in descending order, all those in use among them, finds the longest match. -/
theorem searchLengths_eq_longest {n v : ℕ} {ls : List ℕ} (hdesc : ls.Pairwise (· > ·))
    (hle : ∀ l ∈ ls, l ≤ n)
    (hall : ∀ l ≤ n, R l (v / 2 ^ (n - l)) ≠ none → l ∈ ls) :
    (searchLengths R n v ls).getD d = (longest R d n v).2 := by
  rcases searchLengths_cases R n v ls with ⟨l, hl, a, ha, hsearch, hbefore⟩ | ⟨hsearch, hnone⟩
  · obtain ⟨hlong, heq⟩ := le_longest (d := d) ⟨hle l hl, rfl⟩ ha
    rw [hsearch, getD_some]
    refine (heq (le_antisymm ?_ hlong)).symm
    -- nothing longer is in the table
    rcases longest_cases (R := R) (d := d) n v with ⟨w, hw, hR⟩ | hzero
    · by_contra hlt
      obtain ⟨hm, rfl⟩ := hw
      have hin := hall _ hm (by rw [hR]; simp)
      rw [hbefore _ hin hdesc (not_le.mp hlt)] at hR
      cases hR
    · rw [hzero]
      exact Nat.zero_le l
  · rw [hsearch, getD_none]
    rcases longest_cases (R := R) (d := d) n v with ⟨w, hw, hR⟩ | hzero
    · obtain ⟨hm, rfl⟩ := hw
      have hin := hall _ hm (by rw [hR]; simp)
      rw [hnone _ hin] at hR
      cases hR
    · rw [hzero]

/-- The table with another value, or none, for one string. -/
def Routes.set (R : Routes α) (L V : ℕ) (o : Option α) : Routes α :=
  fun m w => if m = L ∧ w = V then o else R m w

end Vpp.Schemes
