import Vpp.Ikev2.Payload

/-! What a payload chain holds after each step of writing a payload.

    `c.Holds pre body` says that the last header of the chain starts right after `pre`, announces
    exactly the bytes that follow it, and is followed by `body`. Every writer of `ikev2_payload.c` is a
    header (`addHdr_holds`), bytes set inside it (`Holds.setHdr`) and data appended (`Holds.addData`). -/

namespace Vpp.Ikev2
open Vpp.Schemes List

/-- A chain as the writers leave it: short enough for its 16-bit offset, which points inside. -/
structure PayloadChain.WF (c : PayloadChain) : Prop where
  short : c.data.length < 2 ^ 16
  off_lt : c.data ≠ [] → c.lastHdrOff < c.data.length

/-- The chain is `pre` and one more payload with the content `body`. -/
structure PayloadChain.Holds (c : PayloadChain) (pre body : Bytes) : Prop where
  off : c.lastHdrOff = pre.length
  data : c.data = pre ++ ([0, 0] ++ (toBe 2 (4 + body.length) ++ body))

variable {c : PayloadChain}

theorem PayloadChain.Holds.drop_data {pre body : Bytes} (h : c.Holds pre body) :
    c.data.drop pre.length = [0, 0] ++ (toBe 2 (4 + body.length) ++ body) := by
  rw [h.data, drop_left]

theorem writeAt_zero_header (m : ℕ) :
    writeAt (replicate (4 + m) 0) 2 (toBe 2 (4 + m)) =
      [0, 0] ++ (toBe 2 (4 + m) ++ replicate m 0) := by
  have hsplit : replicate (4 + m) (0 : Byte) = [0, 0] ++ ([0, 0] ++ replicate m 0) := by
    rw [replicate_add]; rfl
  rw [hsplit]
  exact writeAt_middle [0, 0] [0, 0] _ _ rfl (by simp)

/-- A fresh header of `4 + m` bytes holds `m` zero bytes after its length. -/
theorem addHdr_holds (hc : c.WF) (type : Byte) (m : ℕ) :
    ∃ pre, pre.length = c.data.length ∧
      (ikev2PayloadAddHdr c type (4 + m)).Holds pre (replicate m 0) := by
  have hpre : (if c.data = [] then [] else writeAt c.data c.lastHdrOff [type]).length =
      c.data.length := by
    split
    · next h => rw [h]
    · next h => exact length_writeAt (Nat.succ_le_of_lt (hc.off_lt h))
  refine ⟨_, hpre, ?_, ?_⟩
  · rw [hpre]; exact Nat.mod_eq_of_lt hc.short
  · simp only [ikev2PayloadAddHdr, writeAt_zero_header, length_replicate]

theorem PayloadChain.Holds.addData {pre body : Bytes} (h : c.Holds pre body) (d : Bytes)
    (hlen : 4 + body.length < 2 ^ 16) :
    (ikev2PayloadAddData c d).Holds pre (body ++ d) := by
  have hfield : fieldBe c.data (c.lastHdrOff + 2) 2 = 4 + body.length := by
    rw [h.data, h.off, fieldBe, ← append_assoc, drop_left' (by simp),
      take_left' (length_toBe _ _), ofBe_toBe (by omega)]
  refine ⟨h.off, ?_⟩
  simp only [ikev2PayloadAddData, hfield]
  rw [h.data, h.off]
  have hassoc : pre ++ ([0, 0] ++ (toBe 2 (4 + body.length) ++ body)) ++ d =
      pre ++ [0, 0] ++ (toBe 2 (4 + body.length) ++ (body ++ d)) := by simp
  rw [hassoc, writeAt_middle _ _ _ _ (by simp) (by simp), length_append]
  simp [add_assoc]

theorem writeAt_append_right (pre bs new : Bytes) {off k : ℕ} (hoff : off = pre.length + k) :
    writeAt (pre ++ bs) off new = pre ++ writeAt bs k new := by
  subst hoff
  simp only [writeAt, add_assoc, take_length_add_append, drop_length_add_append,
    append_assoc]

theorem PayloadChain.Holds.setHdr {pre body : Bytes} (h : c.Holds pre body) (k : ℕ) (bs : Bytes)
    (hk : k + bs.length ≤ body.length) :
    (c.setHdr (4 + k) bs).Holds pre (writeAt body k bs) := by
  refine ⟨h.off, ?_⟩
  simp only [PayloadChain.setHdr, h.data, h.off]
  have hassoc : pre ++ ([0, 0] ++ (toBe 2 (4 + body.length) ++ body)) =
      (pre ++ [0, 0] ++ toBe 2 (4 + body.length)) ++ body := by simp
  rw [hassoc, writeAt_append_right _ _ _ (k := k) (by simp [add_assoc]), length_writeAt hk]
  simp

end Vpp.Ikev2
