import Vpp.Ip.Reass.Range
import Vpp.Schemes.Coverage

/-! What is true of every range that a context holds: it is the end of its fragment. The ranges of a
    context, read as intervals, are in order and do not overlap. -/

namespace Vpp.Ip
open Vpp.Schemes List Range

/-- The octets of the range. -/
def Range.iv (r : Range) : Iv := ⟨r.rangeFirst, r.rangeLast + 1⟩

/-- The range is a part of the fragment that goes to its end. -/
structure Range.Good (r : Range) : Prop where
  first : r.fragmentFirst ≤ r.rangeFirst
  nonempty : r.rangeFirst ≤ r.rangeLast
  last : r.rangeLast = r.fragmentLast
  lt : r.rangeLast < 2 ^ 16 - 1

/-- Another range of the same fragment. -/
def Range.SameFragment (r r' : Range) : Prop :=
  r.bi = r'.bi ∧ r.fragmentFirst = r'.fragmentFirst ∧ r.fragmentLast = r'.fragmentLast

theorem Range.SameFragment.refl (r : Range) : r.SameFragment r := ⟨rfl, rfl, rfl⟩

variable {r : Range}

namespace Range.Good

theorem dataOffset (h : r.Good) : r.dataOffset = r.rangeFirst - r.fragmentFirst := by
  have h1 := h.first
  have h2 := h.nonempty
  have h3 := h.lt
  rw [Range.dataOffset]
  omega

theorem dataLen (h : r.Good) : r.dataLen = r.iv.hi - r.iv.lo := by
  have hoff := h.dataOffset
  have h1 := h.first
  have h2 := h.nonempty
  have h3 := h.lt
  have h4 := h.last
  rw [Range.dataLen, hoff, ← h4, Nat.min_self]
  simp only [iv]
  omega

theorem dataLen_pos (h : r.Good) : 0 < r.dataLen := by
  have hne := h.nonempty
  rw [h.dataLen, iv]
  simp only
  omega

theorem sane (h : r.Good) : r.sane = true := by
  simp [Range.sane, h.first]

end Range.Good

theorem Range.good_ofFragment (bi : ℕ) {first last : ℕ} (hle : first ≤ last) (hlt : last < 2 ^ 16 - 1) :
    (ofFragment bi first last).Good := by
  refine ⟨le_refl _, ?_, rfl, ?_⟩
  · simp only [ofFragment]
    omega
  · simp only [ofFragment]
    omega

theorem Range.ofFragment_eq (bi : ℕ) {first last : ℕ} (hle : first ≤ last) (hlt : last < 2 ^ 16 - 1) :
    ofFragment bi first last = ⟨bi, first, last, first, last⟩ := by
  have h1 : first % 2 ^ 16 = first := Nat.mod_eq_of_lt (by omega)
  have h2 : last % 2 ^ 16 = last := Nat.mod_eq_of_lt (by omega)
  rw [ofFragment, h1, h2]

/-- The end announced last is the one that was there before, or that of an element which announces one. -/
theorem foldl_announced {α : Type*} (more : α → Bool) (last : α → ℕ) (o : ℕ) (l : List α) :
    l.foldl (fun o a => if more a then o else last a) o = o ∨
      ∃ a ∈ l, more a = false ∧ l.foldl (fun o a => if more a then o else last a) o = last a := by
  induction l using reverseRecOn with
  | nil => exact .inl rfl
  | append_singleton l a ih =>
    rw [foldl_append, foldl_cons, foldl_nil]
    cases hmore : more a with
    | false => exact .inr ⟨a, by simp, hmore, if_neg Bool.false_ne_true⟩
    | true =>
      rw [if_pos rfl]
      rcases ih with ih | ⟨b, hb, hm, heq⟩
      · exact .inl ih
      · exact .inr ⟨b, mem_append_left _ hb, hm, heq⟩

end Vpp.Ip
