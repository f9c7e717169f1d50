import Mathlib

/-! Reference counts.

    Each of the holders `held` refers to one shared object, `key i`. A reference count is right when it is
    the number of holders that refer to the object (`uses`); a holder that comes or goes changes the
    number of its own object by one and no other. -/

namespace Vpp.Schemes
open Finset

section
variable {ι κ : Type} [DecidableEq ι] [DecidableEq κ] {held : Finset ι} {key key' : ι → κ} {i : ι} {k : κ}

/-- The number of holders that refer to `k`. -/
def uses (held : Finset ι) (key : ι → κ) (k : κ) : ℕ := (held.filter fun i => key i = k).card

omit [DecidableEq ι] in
/-- Two ways to name the same object. -/
theorem uses_eq_of_iff {κ' : Type} [DecidableEq κ'] {key₁ : ι → κ'} {k₁ : κ'}
    (h : ∀ i ∈ held, (key₁ i = k₁ ↔ key i = k)) : uses held key₁ k₁ = uses held key k :=
  congrArg card (filter_congr h)

omit [DecidableEq ι] in
theorem uses_congr (h : ∀ i ∈ held, key' i = key i) : uses held key' k = uses held key k :=
  uses_eq_of_iff fun i hi => by rw [h i hi]

omit [DecidableEq ι] in
theorem uses_pos_iff : 0 < uses held key k ↔ ∃ i ∈ held, key i = k := by
  rw [uses, card_pos]
  constructor
  · rintro ⟨i, hi⟩
    obtain ⟨hmem, hkey⟩ := mem_filter.mp hi
    exact ⟨i, hmem, hkey⟩
  · rintro ⟨i, hmem, hkey⟩
    exact ⟨i, mem_filter.mpr ⟨hmem, hkey⟩⟩

/-- A new holder. -/
theorem uses_insert (hi : i ∉ held) (h : ∀ j ∈ held, key' j = key j) :
    uses (insert i held) key' k = uses held key k + if key' i = k then 1 else 0 := by
  rw [← uses_congr h]
  unfold uses
  rw [filter_insert]
  split
  · rw [card_insert_of_notMem fun hmem => hi (mem_filter.mp hmem).1]
  · rfl

/-- A holder leaves. -/
theorem uses_erase (hi : i ∈ held) (h : ∀ j ∈ held.erase i, key' j = key j) :
    uses (held.erase i) key' k = uses held key k - if key i = k then 1 else 0 := by
  rw [uses_congr h]
  unfold uses
  rw [filter_erase]
  split
  · next heq => rw [card_erase_of_mem (mem_filter.mpr ⟨hi, heq⟩)]
  · next hne =>
    have hnot : i ∉ held.filter fun i => key i = k := fun hmem => hne (mem_filter.mp hmem).2
    rw [erase_eq_of_notMem hnot, Nat.sub_zero]

end

end Vpp.Schemes
