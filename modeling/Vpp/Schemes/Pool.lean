import Mathlib

/-! A pool of objects with stable indices, and an index over it by key.

      slots   [ some a | none | some b | none ]
      free                ^                ^       exactly empty slots, each once

    `alloc` reuses the slot freed last or grows the pool, `put` frees a slot. `Indexed key p idx` says
    that `idx` finds every live object under its own key and nothing else; each operation on the pair
    has a rule that keeps it. -/

namespace Vpp.Schemes
open List Function Option

/-- A pool; the free list names empty slots, without repetition. -/
structure Pool (α : Type) where
  slots : List (Option α)
  free : List ℕ
  free_empty : ∀ i ∈ free, slots[i]? = some none
  free_nodup : free.Nodup

namespace Pool
variable {α : Type} {i : ℕ} {p : Pool α}

def empty : Pool α := ⟨[], [], by simp, by simp⟩

/-- The live object at an index. -/
def get? (p : Pool α) (i : ℕ) : Option α := (p.slots[i]?).join

theorem get?_eq_some {a : α} : p.get? i = some a ↔ p.slots[i]? = some (some a) := by
  simp [get?, join_eq_some_iff]

@[simp] theorem get?_empty (i : ℕ) : (empty : Pool α).get? i = none := rfl

/-- The number of live objects. -/
def elts (p : Pool α) : ℕ := p.slots.length - p.free.length

/-- `alloc` with the new object already written. -/
def alloc (p : Pool α) (a : α) : Pool α × ℕ :=
  match hfree : p.free with
  | [] => (⟨p.slots ++ [some a], [], by simp, by simp⟩, p.slots.length)
  | i :: rest =>
    (⟨p.slots.set i (some a), rest,
      by
        have hnodup := p.free_nodup
        rw [hfree, nodup_cons] at hnodup
        intro j hj
        have hne : i ≠ j := by rintro rfl; exact hnodup.1 hj
        rw [getElem?_set_ne hne]
        exact p.free_empty j (by rw [hfree]; exact mem_cons_of_mem _ hj),
      by
        have hnodup := p.free_nodup
        rw [hfree] at hnodup
        exact hnodup.of_cons⟩, i)

/-- Overwrite a live object. -/
def set (p : Pool α) (i : ℕ) (a : α) : Pool α :=
  if h : (p.get? i).isSome then
    ⟨p.slots.set i (some a), p.free,
      by
        obtain ⟨b, hb⟩ := isSome_iff_exists.mp h
        intro j hj
        have hne : i ≠ j := by
          rintro rfl
          have hempty := p.free_empty i hj
          rw [get?_eq_some.mp hb] at hempty
          cases hempty
        rw [getElem?_set_ne hne]
        exact p.free_empty j hj,
      p.free_nodup⟩
  else p

/-- Free a live object. -/
def put (p : Pool α) (i : ℕ) : Pool α :=
  if h : (p.get? i).isSome then
    ⟨p.slots.set i none, i :: p.free,
      by
        obtain ⟨b, hb⟩ := isSome_iff_exists.mp h
        have hlt : i < p.slots.length := (List.getElem?_eq_some_iff.mp (get?_eq_some.mp hb)).1
        intro j hj
        by_cases hij : i = j
        · subst hij; simp [hlt]
        · rw [getElem?_set_ne hij]
          exact p.free_empty j ((mem_cons.mp hj).resolve_left (Ne.symm hij)),
      by
        obtain ⟨b, hb⟩ := isSome_iff_exists.mp h
        refine nodup_cons.mpr ⟨?_, p.free_nodup⟩
        intro hmem
        have hempty := p.free_empty i hmem
        rw [get?_eq_some.mp hb] at hempty
        cases hempty⟩
  else p

theorem join_getElem?_set {l : List (Option α)} {b : Option α} (h : l[i]? = some b) (x : Option α)
    (j : ℕ) :
    ((l.set i x)[j]?).join = if j = i then x else (l[j]?).join := by
  have hlt : i < l.length := (List.getElem?_eq_some_iff.mp h).1
  by_cases hij : i = j
  · subst hij; simp [hlt]
  · rw [getElem?_set_ne hij, if_neg (Ne.symm hij)]

/-- The slot `alloc` picks is not in use. -/
theorem get?_alloc_index (p : Pool α) (a : α) : p.get? (p.alloc a).2 = none := by
  unfold alloc
  split
  · simp [get?]
  · next i rest hfree =>
    have hempty := p.free_empty i (by rw [hfree]; exact mem_cons_self)
    simp [get?, hempty]

theorem get?_alloc (p : Pool α) (a : α) (j : ℕ) :
    (p.alloc a).1.get? j = if j = (p.alloc a).2 then some a else p.get? j := by
  unfold alloc
  split
  · simp only [get?]
    rcases lt_trichotomy j p.slots.length with hlt | rfl | hgt
    · rw [getElem?_append_left hlt, if_neg (by omega)]
    · simp
    · rw [if_neg (by omega), getElem?_eq_none (by simp; omega), getElem?_eq_none (by omega)]
  · next i rest hfree =>
    exact join_getElem?_set (p.free_empty i (by rw [hfree]; exact mem_cons_self)) _ j

theorem get?_set {b : α} (h : p.get? i = some b) (a : α) (j : ℕ) :
    (p.set i a).get? j = if j = i then some a else p.get? j := by
  rw [set, dif_pos (isSome_of_eq_some h)]
  exact join_getElem?_set (get?_eq_some.mp h) _ j

theorem get?_put {b : α} (h : p.get? i = some b) (j : ℕ) :
    (p.put i).get? j = if j = i then none else p.get? j := by
  rw [put, dif_pos (isSome_of_eq_some h)]
  exact join_getElem?_set (get?_eq_some.mp h) _ j

/-- Freeing a slot, live or not, leaves the others as they are. -/
theorem get?_put_ne (p : Pool α) {j : ℕ} (hne : j ≠ i) : (p.put i).get? j = p.get? j := by
  by_cases h : (p.get? i).isSome
  · rw [get?_put (eq_some_of_isSome h), if_neg hne]
  · rw [put, dif_neg h]

/-- What was live stays as it was when a slot is taken. -/
theorem get?_alloc_of_isSome {a : α} {j : ℕ} (hj : (p.get? j).isSome) :
    (p.alloc a).1.get? j = p.get? j ∧ j ≠ (p.alloc a).2 := by
  have hne : j ≠ (p.alloc a).2 := by
    rintro rfl
    rw [get?_alloc_index] at hj
    cases hj
  exact ⟨by rw [get?_alloc, if_neg hne], hne⟩

/-- A slot that is taken and given back at once leaves the live objects as they were. -/
theorem get?_alloc_put (p : Pool α) (a : α) (j : ℕ) :
    ((p.alloc a).1.put (p.alloc a).2).get? j = p.get? j := by
  rw [get?_put (by rw [get?_alloc, if_pos rfl]), get?_alloc]
  split
  · next heq => rw [heq, get?_alloc_index]
  · rfl

/-- The live objects with their indices, in the order of the pool. -/
def toList (p : Pool α) : List (ℕ × α) := p.slots.zipIdx.filterMap fun s => s.1.map (s.2, ·)

theorem mem_toList {a : α} : (i, a) ∈ p.toList ↔ p.get? i = some a := by
  rw [get?_eq_some, toList, mem_filterMap]
  constructor
  · rintro ⟨⟨s, j⟩, hmem, hs⟩
    obtain ⟨b, rfl, hb⟩ := map_eq_some_iff.mp hs
    cases hb
    exact mem_zipIdx_iff_getElem?.mp hmem
  · intro h
    exact ⟨(some a, i), mem_zipIdx_iff_getElem?.mpr h, rfl⟩

/-! ### Properties of all objects -/

/-- Every live object satisfies `P`. -/
def All (P : α → Prop) (p : Pool α) : Prop := ∀ i a, p.get? i = some a → P a

section
variable {P : α → Prop} {p : Pool α}

theorem All.empty : (empty : Pool α).All P := by
  intro i a h
  cases h

theorem All.alloc (h : p.All P) {a : α} (ha : P a) : (p.alloc a).1.All P := by
  intro j b hj
  rw [get?_alloc] at hj
  split at hj
  · cases hj; exact ha
  · exact h j b hj

theorem All.set (h : p.All P) (i : ℕ) {a : α} (ha : P a) : (p.set i a).All P := by
  by_cases hi : (p.get? i).isSome
  · intro j b hj
    rw [get?_set (eq_some_of_isSome hi)] at hj
    split at hj
    · cases hj; exact ha
    · exact h j b hj
  · rw [Pool.set, dif_neg hi]; exact h

theorem All.put (h : p.All P) (i : ℕ) : (p.put i).All P := by
  by_cases hi : (p.get? i).isSome
  · intro j b hj
    rw [get?_put (eq_some_of_isSome hi)] at hj
    split at hj
    · cases hj
    · exact h j b hj
  · rw [Pool.put, dif_neg hi]; exact h

end

end Pool

/-! ### An index by key -/

section
variable {α κ : Type} [DecidableEq κ]

/-- The index finds every live object under its own key, and only live objects. -/
structure Indexed (key : α → κ) (p : Pool α) (idx : κ → Option ℕ) : Prop where
  found : ∀ i a, p.get? i = some a → idx (key a) = some i
  live : ∀ k i, idx k = some i → ∃ a, p.get? i = some a ∧ key a = k

variable {key : α → κ} {p : Pool α} {idx : κ → Option ℕ} {i : ℕ} {a b : α}

omit [DecidableEq κ] in
theorem Indexed.empty : Indexed key (Pool.empty : Pool α) fun _ => none :=
  ⟨by simp, by simp⟩

omit [DecidableEq κ] in
/-- The object an index entry points to is the one with that key. -/
theorem Indexed.key_eq (h : Indexed key p idx) {k : κ} (hk : idx k = some i) (ha : p.get? i = some a) :
    key a = k := by
  obtain ⟨a', ha', hkey⟩ := h.live k i hk
  rw [ha] at ha'
  cases ha'
  exact hkey

section

variable (h : Indexed key p idx)
include h

omit [DecidableEq κ] in
/-- It does not matter which slots are free. -/
theorem Indexed.congr {p' : Pool α} (hget : ∀ j, p'.get? j = p.get? j) :
    Indexed key p' idx := by
  constructor
  · intro i a ha
    rw [hget] at ha
    exact h.found i a ha
  · intro k i hi
    rw [hget]
    exact h.live k i hi

/-- An empty slot is filled with an object whose key is not in use. -/
theorem Indexed.fill {p' : Pool α} (hfree : p.get? i = none) (hk : idx (key a) = none)
    (hget : ∀ j, p'.get? j = if j = i then some a else p.get? j) :
    Indexed key p' (update idx (key a) (some i)) := by
  constructor
  · intro j c hj
    rw [hget] at hj
    split at hj
    · next heq => cases hj; rw [update_self, heq]
    · have hc := h.found j c hj
      have hne : key c ≠ key a := by intro heq; rw [heq, hk] at hc; cases hc
      rw [update_of_ne hne]; exact hc
  · intro k j hj
    by_cases hka : k = key a
    · subst hka
      rw [update_self] at hj
      cases hj
      exact ⟨a, by rw [hget, if_pos rfl], rfl⟩
    · rw [update_of_ne hka] at hj
      obtain ⟨c, hc, hkey⟩ := h.live k j hj
      have hne : j ≠ i := by rintro rfl; rw [hfree] at hc; cases hc
      exact ⟨c, by rw [hget, if_neg hne]; exact hc, hkey⟩

/-- A new object under a key that is not in use. -/
theorem Indexed.insert (hk : idx (key a) = none) :
    Indexed key (p.alloc a).1 (update idx (key a) (some (p.alloc a).2)) :=
  h.fill (p.get?_alloc_index a) hk (p.get?_alloc a)

/-- An object is freed together with its index entry. -/
theorem Indexed.remove (ha : p.get? i = some a) :
    Indexed key (p.put i) (update idx (key a) none) := by
  constructor
  · intro j c hj
    rw [Pool.get?_put ha] at hj
    split at hj
    · cases hj
    · next hne =>
      have hc := h.found j c hj
      have hkne : key c ≠ key a := by
        intro heq
        rw [heq, h.found i a ha] at hc
        cases hc; exact hne rfl
      rw [update_of_ne hkne]; exact hc
  · intro k j hj
    have hka : k ≠ key a := by rintro rfl; rw [update_self] at hj; cases hj
    rw [update_of_ne hka] at hj
    obtain ⟨c, hc, hkey⟩ := h.live k j hj
    have hne : j ≠ i := by rintro rfl; rw [ha] at hc; cases hc; exact hka hkey.symm
    exact ⟨c, by rw [Pool.get?_put ha, if_neg hne]; exact hc, hkey⟩

end

omit [DecidableEq κ] in
/-- An object is overwritten by one with the same key. -/
theorem Indexed.modify (h : Indexed key p idx) (ha : p.get? i = some a) (hkey : key b = key a) :
    Indexed key (p.set i b) idx := by
  constructor
  · intro j c hj
    rw [Pool.get?_set ha] at hj
    split at hj
    · next heq => cases hj; rw [hkey, heq]; exact h.found i a ha
    · exact h.found j c hj
  · intro k j hj
    obtain ⟨c, hc, hck⟩ := h.live k j hj
    by_cases hij : j = i
    · subst hij
      rw [ha] at hc; cases hc
      exact ⟨b, by rw [Pool.get?_set ha, if_pos rfl], hkey.trans hck⟩
    · exact ⟨c, by rw [Pool.get?_set ha, if_neg hij]; exact hc, hck⟩

/-- An object moves to a new slot and leaves its old one to an object with a new key. -/
theorem Indexed.swap (h : Indexed key p idx) (ha : p.get? i = some a) (hb : idx (key b) = none) :
    Indexed key ((p.alloc a).1.set i b)
      (update (update idx (key a) (some (p.alloc a).2)) (key b) (some i)) := by
  have hput := Pool.get?_put ha
  obtain ⟨hia, hnew⟩ := Pool.get?_alloc_of_isSome (a := a) (show (p.get? i).isSome by rw [ha]; rfl)
  rw [ha] at hia
  have hab : key b ≠ key a := by intro heq; rw [heq, h.found i a ha] at hb; cases hb
  -- the object leaves its slot, comes back in the new one, and the old one is filled
  have hmoved : Indexed key ((p.alloc a).1.put i)
      (update (update idx (key a) none) (key a) (some (p.alloc a).2)) := by
    refine (h.remove ha).fill ?_ (update_self _ _ _) fun j => ?_
    · rw [hput, if_neg hnew.symm, Pool.get?_alloc_index]
    · rw [Pool.get?_put hia, Pool.get?_alloc, hput]
      by_cases hj : j = i
      · rw [if_pos hj, if_pos hj, if_neg (hj ▸ hnew)]
      · rw [if_neg hj, if_neg hj]
  rw [update_idem] at hmoved
  refine hmoved.fill ?_ (by rw [update_of_ne hab]; exact hb) fun j => ?_
  · rw [Pool.get?_put hia, if_pos rfl]
  · rw [Pool.get?_set hia, Pool.get?_put hia]
    split <;> rfl

end

end Vpp.Schemes
