import Vpp.Ipsec.AntiReplay.FullNumber
import Vpp.Schemes.Run
import Vpp.Schemes.SlidingWindow

/-! No full sequence number is accepted twice, over whole runs of `esp_decrypt`.

    Decryption is batched: any number of other packets may pass between a packet's pre-decrypt check
    and its post-decrypt step, so a state is the SA together with the packets in flight, each carrying
    the high half its own pre-decrypt check chose. A post-decrypt step checks again, and records the
    packet if it passes.

        receive s ──▶ in flight (hi, s) ──▶ decrypted ──▶ accepted (hi, s), or dropped
                                       └──▶ failed

    The window stands for a `Schemes.Covers` filter on the 64-bit numbers `hi * 2 ^ 32 + seq`. The
    step lemma needs one assumption on each decrypted packet (`InReach`): if its high half is older
    than that of the SA, its full number is still inside the window. Without it a packet that was in
    flight while the low half wrapped around is accepted again. -/

namespace Vpp.Ipsec
open Vpp.Vppinfra Vpp.Schemes List

/-- An inbound SA, the packets being decrypted, and the packets accepted so far. -/
structure EspState where
  sa : IpsecSa
  inFlight : List Packet
  accepted : List Packet
  deriving DecidableEq

open EspState

inductive EspEvent where
  /-- a packet arrives (`esp_decrypt_inline`) -/
  | receive (seq : BitVec 32)
  /-- a packet in flight has been decrypted (`esp_decrypt_post_crypto`) -/
  | decrypted (i : ℕ)
  /-- a packet in flight does not decrypt -/
  | failed (i : ℕ)
  deriving DecidableEq

/-- The anti-replay part of `esp_decrypt_inline`: drop, or keep the high half to decrypt with. -/
def espReceive (st : EspState) (seq : BitVec 32) : EspState :=
  let r := ipsecSaAntiReplayAndSnAdvance st.sa seq (~~~0) false
  if r.1 then st else { st with inFlight := ⟨r.2, seq⟩ :: st.inFlight }

/-- The anti-replay part of `esp_decrypt_post_crypto`. -/
def espPostCrypto (bmi2 : Bool) (st : EspState) (p : Packet) : EspState :=
  if (ipsecSaAntiReplayAndSnAdvance st.sa p.seq p.hiSeq true).1 then st
  else
    { st with
      sa := (ipsecSaAntiReplayAdvance bmi2 st.sa p.seq p.hiSeq).1
      accepted := p :: st.accepted }

def espStep (bmi2 : Bool) (st : EspState) : EspEvent → EspState
  | .receive seq => espReceive st seq
  | .decrypted i =>
    match st.inFlight[i]? with
    | none => st
    | some p => espPostCrypto bmi2 { st with inFlight := st.inFlight.eraseIdx i } p
  | .failed i => { st with inFlight := st.inFlight.eraseIdx i }

def EspState.init (sa : IpsecSa) : EspState := ⟨sa, [], []⟩

/-- A decrypted packet whose high half is older than that of the SA is still inside the window. -/
def InReach (st : EspState) : EspEvent → Prop
  | .decrypted i =>
    ∀ p ∈ st.inFlight[i]?, st.sa.seqHi ≤ p.hiSeq ∨ st.sa.top < p.sn + st.sa.window.size.toNat
  | _ => True

instance (st : EspState) : ∀ ev, Decidable (InReach st ev)
  | .decrypted i => by unfold InReach; infer_instance
  | .receive _ => isTrue trivial
  | .failed _ => isTrue trivial

/-! ### The invariant of a run -/

/-- What holds of the SA and its packets in flight at every moment. -/
structure EspState.Inv (st : EspState) : Prop where
  antiReplay : st.sa.useAntiReplay = true
  window : st.sa.window.WF
  covers : Covers st.sa.window.width st.sa.top (fun d => st.sa.marked d = true)
    (st.accepted.map Packet.sn)
  hi_le : ∀ p ∈ st.inFlight, p.hiSeq.toNat ≤ st.sa.seqHi.toNat + 1
  no_esn : st.sa.useEsn = false → st.sa.seqHi = 0 ∧ ∀ p ∈ st.inFlight, p.hiSeq = 0

theorem addAndLock_inv (useEsn : Bool) {windowSize : BitVec 32} (hw : windowSize.toNat ≤ 2 ^ 31) :
    (init (ipsecSaAddAndLock useEsn true windowSize)).Inv := by
  obtain ⟨hwf, hmarks⟩ := addAndLock_window useEsn hw
  have htop : (ipsecSaAddAndLock useEsn true windowSize).top = 0 := by
    simp [IpsecSa.top, fullSn, ipsecSaAddAndLock]
  refine ⟨rfl, hwf, ?_, by simp [init], fun _ => ⟨rfl, by simp [init]⟩⟩
  simp only [init, htop]
  exact Covers.init hmarks

variable {st : EspState}

theorem espReceive_inv (h : st.Inv) (seq : BitVec 32) : (espReceive st seq).Inv := by
  unfold espReceive
  simp only
  split
  · exact h
  · next hpass =>
    have hpass : (ipsecSaAntiReplayAndSnAdvance st.sa seq (~~~0) false).1 = false := by simpa using hpass
    refine ⟨h.antiReplay, h.window, h.covers, ?_, fun hoff => ⟨(h.no_esn hoff).1, ?_⟩⟩
    · exact forall_mem_cons.mpr
        ⟨receive_hi_le h.window h.antiReplay h.covers.below_zero hpass, h.hi_le⟩
    · exact forall_mem_cons.mpr
        ⟨(check_cases_no_esn h.window h.antiReplay hoff seq _ false).1, (h.no_esn hoff).2⟩

/-- Packets may leave the set in flight at any time. -/
theorem EspState.Inv.eraseIdx (h : st.Inv) (i : ℕ) :
    Inv { st with inFlight := st.inFlight.eraseIdx i } :=
  ⟨h.antiReplay, h.window, h.covers, fun p hp => h.hi_le p (mem_of_mem_eraseIdx hp),
    fun hoff => ⟨(h.no_esn hoff).1, fun p hp => (h.no_esn hoff).2 p (mem_of_mem_eraseIdx hp)⟩⟩

variable (bmi2 : Bool)

section
variable {sa : IpsecSa} {p : Packet} {accepted : List ℕ} (h : sa.window.WF)
  (hc : Covers sa.window.width sa.top (fun d => sa.marked d = true) accepted)
  (hesn : sa.useEsn = false → p.hiSeq = sa.seqHi)
include h hc hesn

/-- Recording a packet above the top slides the filter up to it. -/
theorem covers_advance_above (hhi : p.hiSeq.toNat ≤ sa.seqHi.toNat + 1) (habove : sa.top < p.sn) :
    let sa' := (ipsecSaAntiReplayAdvance bmi2 sa p.seq p.hiSeq).1
    Covers sa'.window.width sa'.top (fun d => sa'.marked d = true) (p.sn :: accepted) := by
  obtain ⟨-, hwidth, htop, hwin, hseq⟩ := advance_above_window bmi2 hesn h hhi habove
  obtain ⟨hnew, hold⟩ := shift_marked bmi2 h hwin hseq
  simp only [hwidth, htop]
  refine hc.slide habove hnew fun d hd hW hm => ?_
  have hinc : (p.seq - sa.seq).toNat = p.sn - sa.top := by
    have hb := h.width_bounds
    simp only [IpsecSa.top, Packet.sn, fullSn] at habove hd ⊢
    bv_omega
  rw [← hinc] at hd hm
  exact hold d hd hW hm

/-- Recording an unmarked packet inside the window fills its place. -/
theorem covers_advance_below (hle : p.sn ≤ sa.top)
    (hdist : (sa.seq - p.seq).toNat = sa.top - p.sn) (hW : sa.top - p.sn < sa.window.width)
    (hclear : sa.marked (sa.top - p.sn) = false) :
    let sa' := (ipsecSaAntiReplayAdvance bmi2 sa p.seq p.hiSeq).1
    Covers sa'.window.width sa'.top (fun d => sa'.marked d = true) (p.sn :: accepted) := by
  obtain ⟨-, hwidth, htop, hmark⟩ := advance_below_window bmi2 hesn h hle hdist hW
  simp only [hwidth, htop]
  refine hc.fill hle (by simp [hclear]) hW ?_ fun d hd hm => ?_
  · simp [hmark _ hW]
  · simp [hmark _ hd, hm]

end

theorem espPostCrypto_inv (h : st.Inv) {p : Packet} (hhi : p.hiSeq.toNat ≤ st.sa.seqHi.toNat + 1)
    (hoff : st.sa.useEsn = false → p.hiSeq = 0)
    (hreach : st.sa.seqHi ≤ p.hiSeq ∨ st.sa.top < p.sn + st.sa.window.width) :
    (espPostCrypto bmi2 st p).Inv := by
  have hesn : st.sa.useEsn = false → p.hiSeq = st.sa.seqHi := fun hf =>
    (hoff hf).trans (h.no_esn hf).1.symm
  unfold espPostCrypto
  split
  · exact h
  · next hpass =>
    have hpass : (ipsecSaAntiReplayAndSnAdvance st.sa p.seq p.hiSeq true).1 = false := by
      simpa using hpass
    rcases lt_or_ge st.sa.top p.sn with habove | hle
    · have hc := covers_advance_above bmi2 h.window h.covers hesn hhi habove
      obtain ⟨hwf, -⟩ := advance_above_window bmi2 hesn h.window hhi habove
      have heq := advance_above bmi2 hesn hhi habove
      have hup : st.sa.seqHi.toNat ≤ p.hiSeq.toNat := by
        simp only [IpsecSa.top, Packet.sn, fullSn] at habove; bv_omega
      refine ⟨by rw [heq]; exact h.antiReplay, hwf, hc, fun q hq => ?_, fun hf => ?_⟩
      · have := h.hi_le q hq
        rw [heq]; simp only; omega
      · rw [heq] at hf ⊢
        exact ⟨hoff hf, (h.no_esn hf).2⟩
    · obtain ⟨hdist, hW, hclear⟩ := postDecrypt_pass h.window h.antiReplay hesn hreach hle hpass
      have hc := covers_advance_below bmi2 h.window h.covers hesn hle hdist hW hclear
      obtain ⟨hwf, -⟩ := advance_below_window bmi2 hesn h.window hle hdist hW
      have heq := advance_below bmi2 hesn hle (by have := h.window.width_bounds; omega)
      refine ⟨by rw [heq]; exact h.antiReplay, hwf, hc, fun q hq => ?_, fun hf => ?_⟩
      · rw [heq]; exact h.hi_le q hq
      · rw [heq] at hf ⊢; exact h.no_esn hf

theorem espStep_inv (h : st.Inv) {ev : EspEvent} (hreach : InReach st ev) : (espStep bmi2 st ev).Inv := by
  cases ev with
  | receive seq => exact espReceive_inv h seq
  | failed i => exact h.eraseIdx i
  | decrypted i =>
    simp only [espStep]
    cases hp : st.inFlight[i]? with
    | none => exact h
    | some p =>
      have hmem : p ∈ st.inFlight := mem_of_getElem? hp
      refine espPostCrypto_inv bmi2 (h.eraseIdx i) (h.hi_le p hmem)
        (fun hoff => (h.no_esn hoff).2 p hmem) ?_
      rw [← h.window.size_toNat]
      exact hreach p hp

/-- In every run whose decrypted packets are all in reach, no full number is accepted twice. -/
theorem accepted_nodup (bmi2 useEsn : Bool) {windowSize : BitVec 32} (hw : windowSize.toNat ≤ 2 ^ 31)
    {evs : List EspEvent}
    (hreach : AllSteps InReach (espStep bmi2)
      (init (ipsecSaAddAndLock useEsn true windowSize)) evs) :
    (run (espStep bmi2) (init (ipsecSaAddAndLock useEsn true windowSize)) evs).accepted.Nodup := by
  have hinv := run_inv (fun _ _ hs hok => espStep_inv bmi2 hs hok) hreach (addAndLock_inv useEsn hw)
  exact hinv.covers.nodup.of_map

/-- A low half that wraps around while a packet from before the wrap is still being decrypted. -/
def wrapRun (last : BitVec 32) : List EspEvent :=
  [.receive 0x80000000, .decrypted 0, .receive 0xFFFFFFF0, .decrypted 0,
    .receive 0xFFFFFFF5, .receive last, .receive 0xFFFFFFF5,
    .decrypted 2, .decrypted 1, .decrypted 0]

theorem accepted_nodup_small_wrap :
    (run (espStep true) (init (ipsecSaAddAndLock true true 64)) (wrapRun 5)).accepted.Nodup :=
  accepted_nodup true true (by decide) (by decide)

/-- The low half wraps around by more than a window: the second copy of the packet from before the
    wrap is accepted again. -/
theorem replay_accepted_after_wrap :
    ¬ (run (espStep true) (init (ipsecSaAddAndLock true true 64)) (wrapRun 100)).accepted.Nodup := by
  decide

end Vpp.Ipsec
