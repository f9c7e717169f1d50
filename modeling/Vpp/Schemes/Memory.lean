import Vpp.Schemes.Bytes

/-! Reading untrusted bytes through bounds that the program checks, or forgets to check.

    A computation over a received byte string returns `Except Fault α`: every read goes through
    `slice`, which faults outside the string, and a length that would wrap around faults when it is
    used (`lengthSub`). `MemSafe` says that a computation commits none of these faults; a loop that
    never ends is not one of them. The rules push `MemSafe` through `>>=` and down to inequalities
    between offsets and lengths. `Ensures x Q` is the postcondition of a computation: whatever it
    returns satisfies `Q`. -/

namespace Vpp.Schemes
open List

inductive Fault where
  /-- a read outside the byte string -/
  | outOfBounds
  /-- a negative length, wrapped around, given to a copy -/
  | wrappedLength
  /-- the result of a failed call, used as if it had succeeded -/
  | nullDeref
  /-- an object released to a pool it does not belong to -/
  | wildFree
  /-- a loop that is never left -/
  | divergence
  deriving DecidableEq

/-- The `n` bytes at `off`. -/
def slice (mem : Bytes) (off n : ℕ) : Except Fault Bytes :=
  if off + n ≤ mem.length then .ok ((mem.drop off).take n) else .error .outOfBounds

/-- A length computed by an unsigned subtraction, at the moment a copy uses it. -/
def lengthSub (a b : ℕ) : Except Fault ℕ :=
  if b ≤ a then .ok (a - b) else .error .wrappedLength

/-- A pointer that may be null, at the moment it is followed. -/
def deref {α : Type} (p : Option α) : Except Fault α :=
  match p with
  | none => .error .nullDeref
  | some a => .ok a

/-- A field of one byte, and a big-endian field of `n` bytes, of a struct read from memory. -/
def field8 (bs : Bytes) (k : ℕ) : Byte := bs.getD k 0
def fieldBe (bs : Bytes) (k n : ℕ) : ℕ := ofBe ((bs.drop k).take n)

/-- No memory fault. -/
def MemSafe {α : Type} (x : Except Fault α) : Prop := ∀ f, x = .error f → f = .divergence

variable {α β : Type} {x : Except Fault α} {mem : Bytes} {k : α → Except Fault β}

@[simp] theorem memSafe_ok (a : α) : MemSafe (.ok a : Except Fault α) := by
  intro f h; cases h

@[simp] theorem memSafe_pure (a : α) : MemSafe (pure a : Except Fault α) := memSafe_ok a

@[simp] theorem memSafe_error (f : Fault) : MemSafe (.error f : Except Fault α) ↔ f = .divergence := by
  constructor
  · intro h; exact h f rfl
  · rintro rfl g hg; cases hg; rfl

theorem memSafe_bind (x : Except Fault α) (k : α → Except Fault β) :
    MemSafe (x >>= k) ↔ MemSafe x ∧ ∀ a, x = .ok a → MemSafe (k a) := by
  cases x with
  | ok a => simp [Bind.bind, Except.bind]
  | error f => simp [Bind.bind, Except.bind]

@[simp] theorem bind_ok (a : α) (k : α → Except Fault β) : ((.ok a : Except Fault α) >>= k) = k a := rfl

theorem bind_eq_ok {b : β} :
    x >>= k = .ok b ↔ ∃ a, x = .ok a ∧ k a = .ok b := by
  cases x with
  | ok a => simp [Bind.bind, Except.bind]
  | error f => simp [Bind.bind, Except.bind]

theorem bind_ne_error {f : Fault} (hx : x ≠ .error f) (hk : ∀ a, k a ≠ .error f) : x >>= k ≠ .error f := by
  cases x with
  | ok a => exact hk a
  | error g =>
    intro h
    cases h
    exact hx rfl

theorem slice_ne_divergence (mem : Bytes) (off n : ℕ) : slice mem off n ≠ .error .divergence := by
  unfold slice
  split <;> simp

theorem slice_eq_ok {off n : ℕ} {bs : Bytes} :
    slice mem off n = .ok bs ↔ off + n ≤ mem.length ∧ bs = (mem.drop off).take n := by
  unfold slice
  split
  · next h => simp [h, eq_comm]
  · next h => simp [h]

/-- A read is followed by what is done with the bytes that are there. -/
@[simp] theorem memSafe_slice_bind (mem : Bytes) (off n : ℕ) (k : Bytes → Except Fault β) :
    MemSafe (slice mem off n >>= k) ↔ off + n ≤ mem.length ∧ MemSafe (k ((mem.drop off).take n)) := by
  unfold slice
  split
  · next h => simp [h]
  · next h => simp [h, Bind.bind, Except.bind]

theorem memSafe_ite (c : Prop) [Decidable c] (x y : Except Fault α) :
    MemSafe (if c then x else y) ↔ (c → MemSafe x) ∧ (¬c → MemSafe y) := by
  split <;> simp_all

theorem field8_take_drop {off n k : ℕ} (h : k < n) :
    field8 ((mem.drop off).take n) k = field8 mem (off + k) := by
  simp [field8, getD_eq_getElem?_getD, h]

theorem fieldBe_take_drop {off n k m : ℕ} (h : k + m ≤ n) :
    fieldBe ((mem.drop off).take n) k m = fieldBe mem (off + k) m := by
  rw [fieldBe, fieldBe, drop_take, take_take, drop_drop, min_eq_left (by omega)]

theorem fieldBe_lt (bs : Bytes) (k n : ℕ) : fieldBe bs k n < 256 ^ n := by
  have hlen : ((bs.drop k).take n).length ≤ n := length_take_le _ _
  exact lt_of_lt_of_le (ofBe_lt _) (Nat.pow_le_pow_right (by omega) hlen)

theorem length_of_slice {off n : ℕ} {bs : Bytes} (h : slice mem off n = .ok bs) :
    bs.length = n := by
  obtain ⟨hle, rfl⟩ := slice_eq_ok.mp h
  simp only [length_take, length_drop]; omega

/-- Reading what is known to lie at `off`. -/
theorem slice_of_drop {xs ys : Bytes} {off n : ℕ} (h : mem.drop off = xs ++ ys) (hn : xs.length = n)
    (hoff : off ≤ mem.length) : slice mem off n = .ok xs := by
  have hlen : (mem.drop off).length = xs.length + ys.length := by rw [h, length_append]
  rw [length_drop] at hlen
  refine slice_eq_ok.mpr ⟨by omega, ?_⟩
  rw [h, ← hn, take_left]

/-- What lies after a piece that is known to lie at `p`. -/
theorem drop_add_of_drop {xs ys : Bytes} {p k : ℕ} (h : mem.drop p = xs ++ ys) (hk : xs.length = k) : mem.drop
    (p + k) = ys := by
  rw [← drop_drop, h, ← hk, drop_left]

/-- A big-endian field of a struct that is known piece by piece. -/
theorem fieldBe_toBe {pre post : Bytes} {k n v : ℕ} (hk : pre.length = k) (hv : v < 256 ^ n) :
    fieldBe (pre ++ (toBe n v ++ post)) k n = v := by
  rw [fieldBe, drop_left' hk, take_left' (length_toBe n v), ofBe_toBe hv]

@[simp] theorem deref_some (a : α) : deref (some a) = .ok a := rfl

theorem deref_eq_ok {p : Option α} {a : α} : deref p = .ok a ↔ p = some a := by
  cases p <;> simp [deref]

@[simp] theorem memSafe_deref (p : Option α) : MemSafe (deref p) ↔ p.isSome := by
  cases p <;> simp [deref]

theorem lengthSub_eq_ok {a b n : ℕ} : lengthSub a b = .ok n ↔ b ≤ a ∧ n = a - b := by
  unfold lengthSub
  split
  · next h => simp [h, eq_comm]
  · next h => simp [h]

/-! ### Postconditions -/

/-- Whatever `x` returns satisfies `Q`. -/
def Ensures (x : Except Fault α) (Q : α → Prop) : Prop := ∀ a, x = .ok a → Q a

section
variable {Q : α → Prop} {R : β → Prop}

theorem Ensures.ok {a : α} (h : Q a) : Ensures (.ok a) Q := by
  rintro b hb
  cases hb; exact h

instance Ensures.decidable [∀ a, Decidable (Q a)] : ∀ x, Decidable (Ensures x Q)
  | .ok a => decidable_of_iff (Q a) ⟨.ok, fun h => h a rfl⟩
  | .error _ => isTrue fun _ h => nomatch h

theorem Ensures.pure {a : α} (h : Q a) : Ensures (pure a) Q := Ensures.ok h

theorem Ensures.error (f : Fault) : Ensures (.error f) Q := by
  intro a h
  cases h

theorem Ensures.throw (f : Fault) : Ensures (throw f : Except Fault α) Q := Ensures.error f

theorem Ensures.bind (hx : Ensures x Q) (hk : ∀ a, Q a → Ensures (k a) R) : Ensures (x >>= k) R := by
  intro b hb
  obtain ⟨a, ha, hka⟩ := bind_eq_ok.mp hb
  exact hk a (hx a ha) b hka

/-- Nothing needs to be known about the first computation. -/
theorem Ensures.bind_any (hk : ∀ a, Ensures (k a) R) :
    Ensures (x >>= k) R :=
  .bind (Q := fun _ => True) (fun _ _ => trivial) fun a _ => hk a

theorem Ensures.ite {c : Prop} [Decidable c] {y : Except Fault α} (hx : c → Ensures x Q)
    (hy : ¬c → Ensures y Q) : Ensures (if c then x else y) Q := by
  split
  · next h => exact hx h
  · next h => exact hy h

theorem Ensures.and {Q' : α → Prop} (h : Ensures x Q) (h' : Ensures x Q') :
    Ensures x fun a => Q a ∧ Q' a := fun a ha => ⟨h a ha, h' a ha⟩

theorem Ensures.slice (mem : Bytes) (off n : ℕ) : Ensures (slice mem off n) fun bs => bs.length = n :=
  fun _ h => length_of_slice h

theorem Ensures.deref (p : Option α) : Ensures (deref p) fun a => p = some a :=
  fun _ h => deref_eq_ok.mp h

theorem Ensures.mono {Q' : α → Prop} (hx : Ensures x Q) (h : ∀ a, Q a → Q' a) :
    Ensures x Q' := fun a ha => h a (hx a ha)

end

end Vpp.Schemes
