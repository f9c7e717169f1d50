import Mathlib

/-! Byte strings: fixed-width numbers in network byte order, and writing into the middle of a string.

    `toBe k n` is the `k`-byte big-endian form of `n`, `ofBe` reads one back, and the two undo each
    other below `256 ^ k`. `ofLe` is what a little-endian host reads when it forgets to swap. -/

namespace Vpp.Schemes
open List

abbrev Byte := BitVec 8
abbrev Bytes := List Byte

/-- The `k` low bytes of `n`, most significant first. -/
def toBe : ℕ → ℕ → Bytes
  | 0, _ => []
  | k + 1, n => toBe k (n / 256) ++ [BitVec.ofNat 8 n]

/-- The number that a byte string in network order stands for. -/
def ofBe (bs : Bytes) : ℕ := bs.foldl (fun n b => n * 256 + b.toNat) 0

/-- The number that the same bytes stand for in a little-endian register. -/
def ofLe (bs : Bytes) : ℕ := ofBe bs.reverse

/-- Overwrite the bytes from `off` on. -/
def writeAt (bs : Bytes) (off : ℕ) (new : Bytes) : Bytes :=
  bs.take off ++ new ++ bs.drop (off + new.length)

@[simp] theorem length_toBe (k n : ℕ) : (toBe k n).length = k := by
  induction k generalizing n with
  | zero => rfl
  | succ k ih => simp [toBe, ih]

@[simp] theorem ofBe_append_singleton (bs : Bytes) (b : Byte) :
    ofBe (bs ++ [b]) = ofBe bs * 256 + b.toNat := by
  simp [ofBe]

theorem ofBe_toBe {k n : ℕ} (h : n < 256 ^ k) : ofBe (toBe k n) = n := by
  induction k generalizing n with
  | zero => simp at h; subst h; rfl
  | succ k ih =>
    have hdiv : n / 256 < 256 ^ k := Nat.div_lt_of_lt_mul (by rw [pow_succ] at h; omega)
    rw [toBe, ofBe_append_singleton, ih hdiv, BitVec.toNat_ofNat]
    omega

theorem ofBe_lt (bs : Bytes) : ofBe bs < 256 ^ bs.length := by
  induction bs using reverseRecOn with
  | nil => decide
  | append_singleton bs b ih =>
    have hb := b.isLt
    rw [ofBe_append_singleton, length_append, length_singleton, pow_succ]
    omega

variable {off : ℕ} {new : Bytes}

@[simp] theorem length_writeAt {bs : Bytes} (h : off + new.length ≤ bs.length) :
    (writeAt bs off new).length = bs.length := by
  simp only [writeAt, length_append, length_take, length_drop]
  omega

/-- Overwriting a middle piece by one of the same length. -/
theorem writeAt_middle (pre old new post : Bytes) (hoff : off = pre.length)
    (hlen : new.length = old.length) :
    writeAt (pre ++ (old ++ post)) off new = pre ++ (new ++ post) := by
  subst hoff
  simp [writeAt, drop_append, hlen]

/-- Overwriting in the front part of a string. -/
theorem writeAt_append (bs post : Bytes) (h : off + new.length ≤ bs.length) :
    writeAt (bs ++ post) off new = writeAt bs off new ++ post := by
  simp only [writeAt]
  rw [take_append_of_le_length (by omega), drop_append_of_le_length h]
  simp

/-- Bytes that are not overwritten stay. -/
theorem getElem?_writeAt_of_not_mem {bs : Bytes} {k : ℕ} (h : off + new.length ≤ bs.length)
    (hk : k < off ∨ off + new.length ≤ k) : (writeAt bs off new)[k]? = bs[k]? := by
  have htake : (bs.take off).length = off := by rw [length_take]; omega
  rw [writeAt, append_assoc]
  rcases hk with hk | hk
  · rw [getElem?_append_left (by omega), getElem?_take_of_lt hk]
  · rw [getElem?_append_right (by omega), getElem?_append_right (by omega), getElem?_drop]
    congr 1
    omega

/-- What has been written is there. -/
theorem take_drop_writeAt {bs : Bytes} (h : off + new.length ≤ bs.length) :
    ((writeAt bs off new).drop off).take new.length = new := by
  have htake : (bs.take off).length = off := by rw [length_take]; omega
  rw [writeAt, append_assoc, drop_left' htake, take_left' rfl]

theorem take_drop_writeAt_of_disjoint {bs : Bytes} {a n : ℕ} (h : off + new.length ≤ bs.length)
    (hd : a + n ≤ off ∨ off + new.length ≤ a) :
    ((writeAt bs off new).drop a).take n = (bs.drop a).take n := by
  refine ext_getElem? fun k => ?_
  rcases lt_or_ge k n with hk | hk
  · rw [getElem?_take_of_lt hk, getElem?_take_of_lt hk, getElem?_drop, getElem?_drop,
      getElem?_writeAt_of_not_mem h (by omega)]
  · rw [getElem?_eq_none (by rw [length_take]; omega), getElem?_eq_none (by rw [length_take]; omega)]

end Vpp.Schemes
