import Vpp.Nat.FlowTable

/-! The address and the port of twice-NAT (`nat44_ed_alloc_i2o_addr_and_port`).

        addresses   [ ... | offset ... ]      offset = i2o_addr % length
                      2nd    1st loop         fib found  ->  this address
                                              ~0 found   ->  the last address, whatever its fib

    Each port that is drawn is put into the flow hash by overwriting, so a collision is not noticed. -/

namespace Vpp.Nat.ForStaticMapping
open List

/-- The addresses in the order of the two loops. -/
def searchOrder (c : ForStaticMapping) : List SnatAddress :=
  let offset := c.i2oAddr.toNat % c.sm.twiceNatAddresses.length
  c.sm.twiceNatAddresses.drop offset ++ c.sm.twiceNatAddresses.take offset

/-- An address of the session's fib. -/
def Bound (c : ForStaticMapping) (a : SnatAddress) : Prop :=
  a ∈ c.sm.twiceNatAddresses ∧ a.fibIndex = c.i2oFibIndex

/-- An address of the session's fib or of any fib. -/
def Permitted (c : ForStaticMapping) (a : SnatAddress) : Prop :=
  c.Bound a ∨ (a ∈ c.sm.twiceNatAddresses ∧ a.fibIndex = BitVec.allOnes 32)

variable {c : ForStaticMapping} {h : FlowHash} {t i : ℕ} {a : SnatAddress} {s : SnatSession}

theorem mem_searchOrder : a ∈ c.searchOrder ↔ a ∈ c.sm.twiceNatAddresses := by
  rw [searchOrder, mem_append, or_comm, ← mem_append, take_append_drop]

/-- The three ends of the search. -/
theorem twiceNatPick_cases (c : ForStaticMapping) :
    (∃ a, c.twiceNatPick = some a ∧ c.Bound a) ∨
    ((∀ a, ¬c.Bound a) ∧ (∃ a, c.Permitted a) ∧ c.twiceNatPick = c.searchOrder.getLast?) ∨
    ((∀ a, ¬c.Permitted a) ∧ c.twiceNatPick = none) := by
  rw [twiceNatPick, ← searchOrder]
  rcases hfind : c.searchOrder.find? _ with _ | a
  · have hunbound (a : SnatAddress) (ha : c.Bound a) : False := by
      simpa [ha.2] using find?_eq_none.mp hfind a (mem_searchOrder.mpr ha.1)
    rcases hany : c.searchOrder.any _ with _ | _
    · refine .inr (.inr ⟨?_, rfl⟩)
      rintro a (ha | ⟨hmem, ha⟩)
      · exact hunbound a ha
      · simpa [ha] using any_eq_false.mp hany a (mem_searchOrder.mpr hmem)
    · obtain ⟨a, hmem, ha⟩ := any_eq_true.mp hany
      exact .inr (.inl ⟨hunbound, ⟨a, .inr ⟨mem_searchOrder.mp hmem, of_decide_eq_true ha⟩⟩, rfl⟩)
  · have hfib := find?_some hfind
    exact .inl ⟨a, rfl, mem_searchOrder.mp (mem_of_find?_eq_some hfind), of_decide_eq_true hfib⟩

/-- The draw whose match the hash takes: the first one for which the insertion does not fail. -/
def Drawn (attempts : ℕ) (chance : ℕ → Chance) (k : ℕ) : Prop :=
  k < attempts ∧ (chance k).fails = false ∧ ∀ j < k, (chance j).fails = true

theorem drawn_succ {attempts k : ℕ} {chance : ℕ → Chance} (h : Drawn (attempts + 1) chance k) :
    k = 0 ∧ (chance 0).fails = false ∨
      ∃ j, k = j + 1 ∧ (chance 0).fails = true ∧ Drawn attempts (fun k => chance (k + 1)) j := by
  obtain ⟨hlt, hok, hbefore⟩ := h
  cases k with
  | zero => exact .inl ⟨rfl, hok⟩
  | succ j => exact .inr ⟨j, rfl, hbefore 0 (by omega), by omega, hok, fun i hi => hbefore (i + 1) (by omega)⟩

/-- A port is returned just when there is such a draw, and comes from it. -/
theorem nat44EdAllocI2oPort_drawn (attempts : ℕ) (chance : ℕ → Chance) :
    ((c.nat44EdAllocI2oPort h t i a attempts chance s).ok → ∃ k, Drawn attempts chance k) ∧
    ∀ k, Drawn attempts chance k → (c.nat44EdAllocI2oPort h t i a attempts chance s).ok ∧
      (c.nat44EdAllocI2oPort h t i a attempts chance s).session.i2o = c.i2oOfDraw t a (chance k).rwide := by
  induction attempts generalizing chance s h with
  | zero => exact ⟨nofun, fun k hk => absurd hk.1 (Nat.not_lt_zero k)⟩
  | succ attempts ih =>
    cases hfails : (chance 0).fails with
    | true =>
      have hadd (s : SnatSession) : natEdSesI2oFlowHashAddDel h true t i s .add = (false, h) := by
        simp [natEdSesI2oFlowHashAddDel, FlowHash.addDel]
      simp only [nat44EdAllocI2oPort, hfails, hadd]
      obtain ⟨hsome, hdrawn⟩ := ih (fun k => chance (k + 1))
      refine ⟨fun hok => ?_, fun k hk => ?_⟩
      · obtain ⟨k, hlt, hok, hbefore⟩ := hsome hok
        exact ⟨k + 1, by omega, hok, Nat.forall_lt_succ_left.mpr ⟨hfails, hbefore⟩⟩
      · obtain ⟨-, hok⟩ | ⟨j, rfl, -, hj⟩ := drawn_succ hk
        · exact absurd (hfails.symm.trans hok) (by decide)
        · exact hdrawn j hj
    | false =>
      have hadd (s : SnatSession) : (natEdSesI2oFlowHashAddDel h false t i s .add).1 = true := by
        simp [natEdSesI2oFlowHashAddDel, FlowHash.addDel]
      rcases hres : natEdSesI2oFlowHashAddDel h false t i { s with i2o := c.i2oOfDraw t a (chance 0).rwide } .add
        with ⟨ok, h'⟩
      obtain rfl : ok = true := by simpa [hres] using hadd { s with i2o := c.i2oOfDraw t a (chance 0).rwide }
      simp only [nat44EdAllocI2oPort, hfails, hres]
      refine ⟨fun _ => ⟨0, by omega, hfails, fun j hj => absurd hj (Nat.not_lt_zero j)⟩, fun k hk => ?_⟩
      obtain ⟨rfl, -⟩ | ⟨j, -, hok, -⟩ := drawn_succ hk
      · exact ⟨trivial, rfl⟩
      · exact absurd (hfails.symm.trans hok) (by decide)

/-- The session has the address picked, which is permitted, and of its fib if there is any of it, and a port under
    which no session was found. -/
def Allocated (c : ForStaticMapping) (h : FlowHash) (t : ℕ) (s : SnatSession) : Prop :=
  ∃ a, c.twiceNatPick = some a ∧ c.Permitted a ∧ ((∃ b, c.Bound b) → c.Bound a) ∧
    (∃ k < edPortAllocAttempts, s.i2o = c.i2oOfDraw t a (c.chance k).rwide) ∧ Clear h s.i2o.edK

/-- An address that is picked is in the vector, and bound to the fib if any is. -/
theorem twiceNatPick_some (hpick : c.twiceNatPick = some a) :
    a ∈ c.sm.twiceNatAddresses ∧ ((∃ b, c.Bound b) → c.Bound a) := by
  obtain ⟨b, hpick', hb⟩ | ⟨hunbound, -, hpick'⟩ | ⟨-, hpick'⟩ := c.twiceNatPick_cases
  · cases hpick.symm.trans hpick'
    exact ⟨hb.1, fun _ => hb⟩
  · exact ⟨mem_searchOrder.mp (mem_of_getLast? (hpick'.symm.trans hpick)), fun ⟨b, hb⟩ =>
      absurd hb (hunbound b)⟩
  · cases hpick.symm.trans hpick'

/-- The same with an address of fib 5, which the loops look at last. -/
def otherFibCall : ForStaticMapping :=
  { twiceNatCall with sm := { twoThreadMain with twiceNatAddresses :=
      { addr := 9, net := 0, swIfIndex := 3, fibIndex := 5, addrLen := BitVec.allOnes 32 } ::
        twoThreadMain.twiceNatAddresses } }

def otherFibAlloc (h : FlowHash) (i : ℕ) : Filled := otherFibCall.nat44EdAllocI2oAddrAndPort h 2 i .zero

end Vpp.Nat.ForStaticMapping
