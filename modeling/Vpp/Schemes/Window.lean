import Mathlib

/-! Circular buffers with a head, a tail and a count that are written one at a time.

    Of `n` slots, `len` are in use, one after the other from `start`, around the end:

        slot     0   1   2   3   4   5           n = 6, start = 4, len = 3
                 x   .   .   .   x   x

    Whoever adds writes the tail first and the count after it; whoever removes writes the head first and the count after
    it. Between the two writes the three numbers disagree, by as much as `counting` and `releasing` say (`Cursors`). The
    slots that are in use are a `window`, and what is stored in them is a list in the order of the window (`Stored`). -/

namespace Vpp.Schemes
open List Function

/-- `len` slots out of `n`, from `start` on. -/
def window (n start len : ℕ) : List ℕ := (range len).map fun i => (start + i) % n

section
variable {n start len : ℕ}

@[simp] theorem length_window (n start len : ℕ) : (window n start len).length = len := by simp [window]

@[simp] theorem window_zero (n start : ℕ) : window n start 0 = [] := rfl

theorem window_succ (n start len : ℕ) : window n start (len + 1) = window n start len ++ [(start + len) % n] := by
  simp [window, range_succ]

theorem window_cons (n start len : ℕ) : window n start (len + 1) = start % n :: window n (start + 1) len := by
  simp only [window, range_succ_eq_map, map_cons, map_map, add_zero, cons.injEq, true_and]
  refine map_congr_left fun i _ => ?_
  simp only [comp, Nat.succ_eq_add_one]
  congr 1
  omega

theorem window_mod (n start len : ℕ) : window n (start % n) len = window n start len := by
  simp [window, Nat.mod_add_mod]

theorem window_add (n start a b : ℕ) : window n start (a + b) = window n start a ++ window n (start + a) b := by
  simp [window, range_add, add_assoc]

/-- Before the end of the buffer. -/
theorem window_eq_map (h : start + len ≤ n) : window n start len = (range len).map (start + ·) := by
  refine map_congr_left fun i hi => Nat.mod_eq_of_lt ?_
  have hlt := mem_range.mp hi
  omega

/-- The next slot of those that are left. -/
theorem eq_of_drop_window {m slot : ℕ} {slots : List ℕ} (h : slot :: slots = (window n start len).drop m) :
    slot = (start + m) % n ∧ slots = (window n start len).drop (m + 1) := by
  have hlt : m < len := by
    by_contra hle
    rw [drop_eq_nil_of_le (by simpa using hle)] at h
    cases h
  rw [drop_eq_getElem_cons (by simpa using hlt), cons.injEq] at h
  refine ⟨h.1.trans ?_, h.2⟩
  simp [window]

/-- Within `n` slots no two are the same. -/
theorem slot_inj {i j : ℕ} (hlen : len ≤ n) (hi : i < len) (hj : j < len) (h : (start + i) % n = (start + j) % n) :
    i = j := by
  have hmod : i % n = j % n := Nat.ModEq.add_left_cancel' start h
  rwa [Nat.mod_eq_of_lt (by omega), Nat.mod_eq_of_lt (by omega)] at hmod

theorem nodup_window (start : ℕ) (hlen : len ≤ n) : (window n start len).Nodup := by
  refine List.Nodup.map_on ?_ nodup_range
  intro i hi j hj hij
  exact slot_inj hlen (mem_range.mp hi) (mem_range.mp hj) hij

end

/-! ### Head, tail and count -/

/-- `counting` slots have been taken at the tail and not yet been counted; `releasing` slots have been given up at the
    head and are still counted. -/
structure Cursors (n head tail cursize start len counting releasing : ℕ) : Prop where
  len_le : len ≤ n
  tail_eq : tail = (start + len) % n
  head_eq : head = (start + releasing) % n
  count_eq : cursize + counting = len

namespace Cursors
variable {n head tail cursize start len counting releasing k : ℕ}

section

variable (h : Cursors n head tail cursize start len counting releasing)
include h

theorem count_le : cursize ≤ n := by
  have hlen := h.len_le
  have hcount := h.count_eq
  omega

theorem tail_lt (hn : 0 < n) : tail < n :=
  h.tail_eq ▸ Nat.mod_lt _ hn

theorem head_lt (hn : 0 < n) : head < n :=
  h.head_eq ▸ Nat.mod_lt _ hn

end

/-- A slot is taken at the tail. -/
theorem take (h : Cursors n head tail cursize start len 0 releasing) (hlen : len < n) :
    Cursors n head ((tail + 1) % n) cursize start (len + 1) 1 releasing where
  len_le := hlen
  tail_eq := by rw [h.tail_eq, Nat.mod_add_mod, add_assoc]
  head_eq := h.head_eq
  count_eq := by rw [← h.count_eq]

/-- And counted. -/
theorem count (h : Cursors n head tail cursize start len 1 releasing) :
    Cursors n head tail (cursize + 1) start len 0 releasing :=
  { h with }

/-- Slots are given up at the head. -/
theorem release (h : Cursors n head tail cursize start len counting 0) (k : ℕ) :
    Cursors n ((head + k) % n) tail cursize start len counting k where
  len_le := h.len_le
  tail_eq := h.tail_eq
  head_eq := by rw [h.head_eq, Nat.mod_add_mod, add_zero]
  count_eq := h.count_eq

/-- And no longer counted. -/
theorem discount (h : Cursors n head tail cursize start len counting k) (hk : k ≤ cursize) :
    Cursors n head tail (cursize - k) (start + k) (len - k) counting 0 where
  len_le := le_trans (Nat.sub_le _ _) h.len_le
  tail_eq := by
    have hcount := h.count_eq
    rw [h.tail_eq]
    congr 1
    omega
  head_eq := h.head_eq
  count_eq := by
    have hcount := h.count_eq
    omega

end Cursors

/-! ### What is stored -/

/-- The items are in the slots from `start` on. -/
def Stored {α : Type} (data : ℕ → α) (n start : ℕ) (xs : List α) : Prop :=
  ∀ i x, xs[i]? = some x → data ((start + i) % n) = x

namespace Stored
variable {α : Type} {data : ℕ → α} {n start : ℕ} {xs : List α}

theorem nil (data : ℕ → α) (n start : ℕ) : Stored data n start [] := by
  intro i x hx
  simp at hx

/-- A write behind the last item disturbs none. -/
theorem write (h : Stored data n start xs) (hlen : xs.length < n) (x : α) :
    Stored (update data ((start + xs.length) % n) x) n start xs := by
  intro i y hy
  have hi : i < xs.length := (List.getElem?_eq_some_iff.mp hy).1
  rw [update_of_ne]
  · exact h i y hy
  · intro hslot
    have heq := slot_inj (Nat.succ_le_of_lt hlen) (Nat.lt_succ_of_lt hi) (Nat.lt_succ_self _) hslot
    omega

theorem concat (h : Stored data n start xs) {x : α} (hx : data ((start + xs.length) % n) = x) :
    Stored data n start (xs ++ [x]) := by
  intro i y hy
  rcases lt_trichotomy i xs.length with hi | rfl | hi
  · rw [getElem?_append_left hi] at hy
    exact h i y hy
  · rw [getElem?_concat_length] at hy
    cases hy
    exact hx
  · rw [getElem?_eq_none (by simp; omega)] at hy
    cases hy

theorem drop (h : Stored data n start xs) (k : ℕ) : Stored data n (start + k) (xs.drop k) := by
  intro i x hx
  rw [getElem?_drop] at hx
  rw [add_assoc]
  exact h (k + i) x hx

end Stored

end Vpp.Schemes
