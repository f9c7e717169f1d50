import Mathlib

/-! Counting the positions of disjoint intervals.

    Intervals that lie in order between `a` and `e` without overlapping have at most `e - a` positions
    together. They have exactly that many when, and only when, they leave no gap:

        a [##########][####][###############] e -/

namespace Vpp.Schemes
open List

/-- The positions from `lo` on, below `hi`. -/
structure Iv where
  lo : ℕ
  hi : ℕ
deriving DecidableEq

def Iv.Has (a : Iv) (p : ℕ) : Prop := a.lo ≤ p ∧ p < a.hi
deriving Decidable

variable {l : List Iv} {x : Iv} {a e : ℕ}

/-- No interval is empty, and none starts before the one in front of it has ended. -/
structure Ordered (l : List Iv) : Prop where
  nonempty : ∀ x ∈ l, x.lo < x.hi
  disjoint : l.Pairwise fun x y => x.hi ≤ y.lo

/-- The number of positions. -/
def measure (l : List Iv) : ℕ := (l.map fun x => x.hi - x.lo).sum

/-- The intervals follow each other from `a` to `e`. -/
def Tiles (a : ℕ) : List Iv → ℕ → Prop
  | [], e => a = e
  | x :: l, e => x.lo = a ∧ Tiles x.hi l e

instance decidableTiles : (a : ℕ) → (l : List Iv) → (e : ℕ) → Decidable (Tiles a l e)
  | a, [], e => inferInstanceAs (Decidable (a = e))
  | a, x :: l, e =>
    have := decidableTiles x.hi l e
    inferInstanceAs (Decidable (x.lo = a ∧ Tiles x.hi l e))

@[simp] theorem measure_nil : measure [] = 0 := rfl
@[simp] theorem measure_cons : measure (x :: l) = (x.hi - x.lo) + measure l := rfl

theorem ordered_cons : Ordered (x :: l) ↔ x.lo < x.hi ∧ (∀ y ∈ l, x.hi ≤ y.lo) ∧ Ordered l := by
  constructor
  · intro h
    obtain ⟨hx, hl⟩ := pairwise_cons.mp h.disjoint
    exact ⟨h.nonempty x mem_cons_self, hx, fun y hy => h.nonempty y (mem_cons_of_mem x hy), hl⟩
  · rintro ⟨hx, hlt, hl⟩
    exact ⟨forall_mem_cons.mpr ⟨hx, hl.nonempty⟩, pairwise_cons.mpr ⟨hlt, hl.disjoint⟩⟩

/-- Two intervals have a position in common. -/
def Iv.Meets (x y : Iv) : Prop := max x.lo y.lo < min x.hi y.hi
deriving Decidable

/-- Different intervals of the list do not meet. -/
theorem Ordered.eq_of_meets (h : Ordered l) {x y : Iv} (hx : x ∈ l) (hy : y ∈ l) (hm : x.Meets y) : x = y := by
  by_contra hne
  have hdis : l.Pairwise fun x y => x.hi ≤ y.lo ∨ y.hi ≤ x.lo := h.disjoint.imp fun hxy => Or.inl hxy
  have : Std.Symm fun x y : Iv => x.hi ≤ y.lo ∨ y.hi ≤ x.lo := ⟨fun _ _ hxy => hxy.symm⟩
  have hor := hdis.forall hx hy hne
  simp only [Iv.Meets] at hm
  omega

section
variable (h : Ordered l) (hae : a ≤ e) (hlo : ∀ x ∈ l, a ≤ x.lo) (hhi : ∀ x ∈ l, x.hi ≤ e)
include h hae hlo hhi

theorem Ordered.measure_le :
    measure l ≤ e - a := by
  induction l generalizing a with
  | nil => exact Nat.zero_le _
  | cons x l ih =>
    obtain ⟨hx, hlt, hl⟩ := ordered_cons.mp h
    obtain ⟨hxe, hhi'⟩ := forall_mem_cons.mp hhi
    have hxa := hlo x mem_cons_self
    have hrest := ih hl hxe hlt hhi'
    rw [measure_cons]
    omega

/-- As many positions as there are leave no gap. -/
theorem Ordered.tiles
    (hm : measure l = e - a) : Tiles a l e := by
  induction l generalizing a with
  | nil =>
    rw [measure_nil] at hm
    exact le_antisymm hae (by omega)
  | cons x l ih =>
    obtain ⟨hx, hlt, hl⟩ := ordered_cons.mp h
    obtain ⟨hxe, hhi'⟩ := forall_mem_cons.mp hhi
    have hxa := hlo x mem_cons_self
    have hle := hl.measure_le hxe hlt hhi'
    rw [measure_cons] at hm
    exact ⟨by omega, ih hl hxe hlt hhi' (by omega)⟩

/-- Where no position is missed, the intervals follow each other. -/
theorem Ordered.tiles_of_covers
    (hc : ∀ p, a ≤ p → p < e → ∃ x ∈ l, x.Has p) : Tiles a l e := by
  induction l generalizing a with
  | nil =>
    by_contra hne
    obtain ⟨x, hx, -⟩ := hc a (le_refl a) (lt_of_le_of_ne hae hne)
    cases hx
  | cons x l ih =>
    obtain ⟨hx, hlt, hl⟩ := ordered_cons.mp h
    obtain ⟨hxe, hhi'⟩ := forall_mem_cons.mp hhi
    have hxa := hlo x mem_cons_self
    have hstart : x.lo = a := by
      obtain ⟨y, hy, hya, -⟩ := hc a (le_refl a) (by omega)
      rcases mem_cons.mp hy with rfl | hy
      · omega
      · have := hlt y hy
        omega
    refine ⟨hstart, ih hl hxe hlt hhi' fun p hp hpe => ?_⟩
    obtain ⟨y, hy, hyp⟩ := hc p (by omega) hpe
    rcases mem_cons.mp hy with rfl | hy
    · exact absurd hyp.2 (by omega)
    · exact ⟨y, hy, hyp⟩

end

theorem Tiles.measure_eq (h : Tiles a l e) (hl : ∀ x ∈ l, x.lo ≤ x.hi) : a ≤ e ∧ measure l = e - a := by
  induction l generalizing a with
  | nil =>
    obtain rfl : a = e := h
    exact ⟨le_refl a, (Nat.sub_self a).symm⟩
  | cons x l ih =>
    obtain ⟨rfl, hrest⟩ := h
    obtain ⟨hx, hl'⟩ := forall_mem_cons.mp hl
    obtain ⟨hle, hm⟩ := ih hrest hl'
    rw [measure_cons]
    exact ⟨by omega, by omega⟩

/-! ### Intervals that follow each other -/

theorem Tiles.bounds (h : Tiles a l e) (hl : ∀ x ∈ l, x.lo ≤ x.hi) : ∀ x ∈ l, a ≤ x.lo ∧ x.hi ≤ e := by
  induction l generalizing a with
  | nil => simp
  | cons x l ih =>
    obtain ⟨rfl, hrest⟩ := h
    obtain ⟨hx, hl'⟩ := forall_mem_cons.mp hl
    refine forall_mem_cons.mpr ⟨⟨le_refl _, (hrest.measure_eq hl').1⟩, fun y hy => ?_⟩
    obtain ⟨h1, h2⟩ := ih hrest hl' y hy
    exact ⟨by omega, h2⟩

theorem Tiles.ordered (h : Tiles a l e) (hl : ∀ x ∈ l, x.lo < x.hi) : Ordered l := by
  induction l generalizing a with
  | nil => exact ⟨by simp, List.Pairwise.nil⟩
  | cons x l ih =>
    obtain ⟨rfl, hrest⟩ := h
    obtain ⟨hx, hl'⟩ := forall_mem_cons.mp hl
    exact ordered_cons.mpr ⟨hx, fun y hy => (hrest.bounds (fun z hz => le_of_lt (hl' z hz)) y hy).1, ih hrest hl'⟩

theorem Tiles.covers (h : Tiles a l e) {p : ℕ} (hap : a ≤ p) (hpe : p < e) : ∃ x ∈ l, x.Has p := by
  induction l generalizing a with
  | nil =>
    obtain rfl : a = e := h
    omega
  | cons x l ih =>
    obtain ⟨rfl, hrest⟩ := h
    rcases lt_or_ge p x.hi with hlt | hge
    · exact ⟨x, mem_cons_self, hap, hlt⟩
    · obtain ⟨y, hy, hyp⟩ := ih hrest hge
      exact ⟨y, mem_cons_of_mem x hy, hyp⟩

end Vpp.Schemes
