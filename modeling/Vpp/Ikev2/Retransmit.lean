import Vpp.Schemes.Run
import Vpp.Ikev2.Frame

/-! The message-id window over whole runs of requests.

    `ikev2_retransmit_resp` should let every id through once, in increasing order, and answer a repeat
    of the last one with the stored response. Three things break this: the id `~0`, which is also the
    marker for "none yet"; an IKE_AUTH request to an initiator, which sets the marker again; and a
    request that is let through and not answered, which leaves an old response in store or none. In runs
    without them the law holds (`Session.Lawful`). -/

namespace Vpp.Ikev2
open Vpp.Schemes List

/-- A request of one of the three exchanges, and what it is handled with. -/
structure Request where
  env : Env
  km : Ikev2Main
  saIndex : BitVec 32
  rx : Rx
  isRequest : rx.hdr.isResponse = false
  exchange : rx.hdr.exchange = exchangeIkeAuth ∨ rx.hdr.exchange = exchangeInformational ∨
    rx.hdr.exchange = exchangeCreateChildSa

/-- An SA, until it is deleted, with the ids it let through, the latest first, and the reply to the
    latest. -/
structure Session where
  sa : Option Sa
  passed : List (BitVec 32) := []
  reply : Option Bytes := none

open Vpp.Ikev2.Session

/-- A request arrives. -/
def Session.receive (s : Session) (q : Request) : Except Fault Session :=
  match s.sa with
  | none => return s
  | some sa => do
    let (_, verdict) ← ikev2RetransmitResp sa q.rx.hdr
    let out ← receiveOnSa q.env q.km q.saIndex q.rx sa
    let sa' := if out.sa.isDead then none else some out.sa
    if verdict = .process then return ⟨sa', q.rx.hdr.msgid :: s.passed, out.reply⟩
    else return { s with sa := sa' }

/-- Ids were let through in increasing order, and a repeat of the last one is answered with the stored
    response, which is the reply to it. -/
structure Session.Lawful (s : Session) : Prop where
  increasing : s.passed.Pairwise (· > ·)
  repeated : ∀ sa ∈ s.sa, ∀ id rest, s.passed = id :: rest →
    sa.lastResPacketData ≠ [] ∧ s.reply = some sa.lastResPacketData ∧
      ∀ hdr : IkeHeader, hdr.isResponse = false → hdr.msgid = id →
        ikev2RetransmitResp sa hdr = .ok (sa, .resend sa.lastResPacketData)

/-- A request that is let through is answered, or its SA is deleted. -/
def Request.Answered (q : Request) (sa : Sa) : Prop :=
  Ensures (handleMessage q.env q.km q.saIndex q.rx (sa.advance q.rx.hdr)) fun out =>
    out.reply.isSome = true ∨ out.sa.isDead
deriving Decidable

/-- The runs that are considered: no new request has the id `~0`, is an IKE_AUTH request to an
    initiator, or remains unanswered. -/
def Session.Allows (s : Session) (q : Request) : Prop :=
  ∀ sa ∈ s.sa, sa.isNewReq q.rx.hdr.msgid →
    q.rx.hdr.msgid ≠ ~~~0 ∧ ¬(q.rx.hdr.exchange = exchangeIkeAuth ∧ sa.isInitiator = true) ∧ q.Answered sa
deriving Decidable

/-! ### The invariant -/

/-- The window stands at the last id let through, and its reply is in store. -/
structure Session.AtLast (s : Session) (sa : Sa) (id : BitVec 32) : Prop where
  lastMsgId : sa.lastMsgId = id
  notMarker : id ≠ ~~~0
  reply : s.reply = some sa.lastResPacketData
  valid : ValidPacket sa.lastResPacketData

structure Session.Inv (s : Session) : Prop where
  increasing : s.passed.Pairwise (· > ·)
  atLast : ∀ sa ∈ s.sa, ∀ id rest, s.passed = id :: rest → s.AtLast sa id

variable {s : Session}

theorem Session.Inv.lawful (h : s.Inv) : s.Lawful := by
  refine ⟨h.increasing, ?_⟩
  intro sa hsa id rest hpassed
  obtain ⟨hid, hmarker, hreply, hvalid⟩ := h.atLast sa hsa id rest hpassed
  refine ⟨?_, hreply, ?_⟩
  · obtain ⟨h, payload, hpacket, -⟩ := hvalid
    intro hnil
    have hlen := congrArg length (hpacket.symm.trans hnil)
    simp at hlen
  · intro hdr hreq hmsgid
    have hold : ¬ sa.isNewReq hdr.msgid := by
      rintro (hlt | heq)
      · rw [hid, hmsgid] at hlt
        exact absurd hlt (BitVec.lt_irrefl id)
      · exact hmarker (hid.symm.trans heq)
    rw [ikev2RetransmitResp, if_neg (by simp [hreq]), if_neg hold, if_pos (hmsgid.trans hid.symm),
      storedResponse_eq hvalid]
    rfl

/-- A request that is held back changes nothing the law speaks of. -/
theorem Session.Inv.stops (h : s.Inv) {sa : Sa} (hsa : s.sa = some sa) :
    Inv { s with sa := if sa.isDead then none else some sa } := by
  refine ⟨h.increasing, ?_⟩
  intro sa' hsa' id rest hpassed
  have hsa'' : sa' ∈ s.sa := by
    dsimp only at hsa'
    split at hsa'
    · cases hsa'
    · exact hsa ▸ hsa'
  obtain ⟨hid, hmarker, hreply, hvalid⟩ := h.atLast sa' hsa'' id rest hpassed
  exact ⟨hid, hmarker, hreply, hvalid⟩

/-- A new id is greater than all before it. -/
theorem Session.Inv.increasing_cons (h : s.Inv) {sa : Sa} (hsa : s.sa = some sa) {id : BitVec 32}
    (hnew : sa.isNewReq id) : (id :: s.passed).Pairwise (· > ·) := by
  cases hpassed : s.passed with
  | nil => simp
  | cons last rest =>
    have hlast := h.atLast sa hsa last rest hpassed
    have hinc := h.increasing
    rw [hpassed] at hinc
    have hlt : last < id := by
      rcases hnew with hlt | heq
      · exact hlast.lastMsgId ▸ hlt
      · exact absurd (hlast.lastMsgId.symm.trans heq) hlast.notMarker
    refine pairwise_cons.mpr ⟨forall_mem_cons.mpr ⟨hlt, fun b hb => ?_⟩, hinc⟩
    exact BitVec.lt_trans ((pairwise_cons.mp hinc).1 b hb) hlt

/-- After an answered request the window stands at its id, with the reply in store. -/
theorem Request.atLast {q : Request} {sa : Sa} {out : Outcome} (hnew : sa.isNewReq q.rx.hdr.msgid)
    (hmarker : q.rx.hdr.msgid ≠ ~~~0)
    (hrole : ¬(q.rx.hdr.exchange = exchangeIkeAuth ∧ sa.isInitiator = true))
    (hreply : out.reply.isSome = true)
    (hout : handleMessage q.env q.km q.saIndex q.rx (sa.advance q.rx.hdr) = .ok out) (passed : List (BitVec 32)) :
    AtLast ⟨some out.sa, passed, out.reply⟩ out.sa q.rx.hdr.msgid := by
  have hadv : sa.advance q.rx.hdr = { sa with lastMsgId := q.rx.hdr.msgid } := if_pos ⟨q.isRequest, hnew⟩
  rw [hadv] at hout
  obtain ⟨hwindow, hvalid⟩ := (handleMessage_handled _ out hout).answer
  obtain ⟨packet, hpacket⟩ := Option.isSome_iff_exists.mp hreply
  rw [hpacket] at hwindow
  have hres : out.sa.lastResPacketData = packet := congrArg Window.lastResPacketData hwindow
  have hmsgid := congrArg Window.lastMsgId hwindow
  dsimp only at hmsgid
  rw [if_neg hrole] at hmsgid
  exact ⟨hmsgid, hmarker, by rw [hres]; exact hpacket, by rw [hres]; exact hvalid packet hpacket⟩

/-- One allowed request keeps the invariant. -/
theorem Session.receive_inv {t : Session} {q : Request} (h : s.Inv) (hallow : s.Allows q)
    (hstep : s.receive q = .ok t) : t.Inv := by
  unfold receive at hstep
  cases hsa : s.sa with
  | none =>
    rw [hsa] at hstep
    cases hstep
    exact h
  | some sa =>
    rw [hsa] at hstep
    dsimp only at hstep
    by_cases hstop : sa.stops q.rx.hdr
    · obtain ⟨⟨sa0, verdict⟩, hverdict, hstep⟩ := bind_eq_ok.mp hstep
      obtain ⟨out, hout, hstep⟩ := bind_eq_ok.mp hstep
      obtain ⟨-, hne⟩ := ikev2RetransmitResp_stops hstop _ hverdict
      rw [(receiveOnSa_stops hstop out hout).1, if_neg hne] at hstep
      cases hstep
      exact h.stops hsa
    · have hnew : sa.isNewReq q.rx.hdr.msgid := by
        by_contra hnew
        exact hstop ⟨q.isRequest, hnew⟩
      obtain ⟨hmarker, hrole, hanswered⟩ := hallow sa hsa hnew
      rw [ikev2RetransmitResp_process hstop, bind_ok, receiveOnSa_process hstop] at hstep
      obtain ⟨out, hout, hstep⟩ := bind_eq_ok.mp hstep
      rw [if_pos rfl] at hstep
      cases hstep
      refine ⟨h.increasing_cons hsa hnew, ?_⟩
      intro sa' hsa' id rest hpassed
      cases hpassed
      dsimp only at hsa'
      split at hsa'
      · cases hsa'
      · next hdead =>
        cases hsa'
        have hreply := (hanswered out hout).resolve_right hdead
        have hat := q.atLast hnew hmarker hrole hreply hout (q.rx.hdr.msgid :: s.passed)
        exact ⟨hat.lastMsgId, hat.notMarker, hat.reply, hat.valid⟩

/-- Over every run of allowed requests, on every SA, the law of the window holds. -/
theorem retransmit_lawful {sa : Sa} {qs : List Request} {s : Session}
    (hallow : AllStepsM Allows receive { sa := some sa } qs)
    (hrun : runM receive { sa := some sa } qs = .ok s) : s.Lawful := by
  have hinit : Inv { sa := some sa } := ⟨List.Pairwise.nil, by simp⟩
  exact (runM_inv (P := Inv) (fun s q t hs hq => receive_inv hs hq) hallow hinit hrun).lawful

/-- An INFORMATIONAL request to the SA with SPI 9: one that can be opened, and one that cannot. -/
def emptyRequest (msgid : BitVec 32) : Request where
  env := Env.zero
  km := pskMain
  saIndex := 0
  rx := emptyMessage exchangeInformational hdrFlagInitiator msgid
  isRequest := (by decide : decide (hdrFlagInitiator &&& hdrFlagResponse ≠ 0) = false)
  exchange := Or.inr (Or.inl rfl)

def bareRequest (msgid : BitVec 32) : Request :=
  { emptyRequest msgid with rx := bareMessage exchangeInformational hdrFlagInitiator msgid }

theorem retransmit_lawful_of_answered : ∃ s,
    runM receive { sa := some (gcmSa 9) }
        [emptyRequest 1, emptyRequest 3, emptyRequest 3, emptyRequest 2] = .ok s ∧
      s.passed = [3, 1] ∧ s.Lawful := by
  have hallow : AllStepsM Allows receive { sa := some (gcmSa 9) }
      [emptyRequest 1, emptyRequest 3, emptyRequest 3, emptyRequest 2] := by decide +kernel
  obtain ⟨s, hrun, hpassed⟩ := exists_of_runM_map (show (runM receive { sa := some (gcmSa 9) }
    [emptyRequest 1, emptyRequest 3, emptyRequest 3, emptyRequest 2]).map (·.passed) = .ok [3, 1] by
      decide +kernel)
  exact ⟨s, hrun, hpassed, retransmit_lawful hallow hrun⟩

/-- A request that cannot be opened is let through and not answered, and its repeat follows a null
    pointer; the id `~0` is let through twice. -/
theorem unanswered_repeat_faults :
    (∃ s, runM receive { sa := some (gcmSa 9) } [bareRequest 1] = .ok s ∧ ¬ s.Lawful) ∧
      (runM receive { sa := some (gcmSa 9) } [bareRequest 1, bareRequest 1]).map (·.passed) =
        .error .nullDeref ∧
      ∃ s, runM receive { sa := some (gcmSa 9) } [emptyRequest (~~~0), emptyRequest (~~~0)] =
        .ok s ∧ ¬ s.Lawful := by
  refine ⟨?_, by decide +kernel, ?_⟩
  · obtain ⟨s, hrun, hobs⟩ := exists_of_runM_map (show (runM receive { sa := some (gcmSa 9) }
      [bareRequest 1]).map (fun s => (s.passed, s.sa.map (·.lastResPacketData))) = .ok ([1], some []) by
        decide +kernel)
    refine ⟨s, hrun, ?_⟩
    intro hlaw
    obtain ⟨hpassed, hstored⟩ := Prod.mk.inj hobs
    obtain ⟨sa, hsa, hnil⟩ := Option.map_eq_some_iff.mp hstored
    exact (hlaw.repeated sa hsa 1 [] hpassed).1 hnil
  · obtain ⟨s, hrun, hpassed⟩ := exists_of_runM_map (show (runM receive { sa := some (gcmSa 9) }
      [emptyRequest (~~~0), emptyRequest (~~~0)]).map (·.passed) = .ok [~~~0, ~~~0] by decide +kernel)
    refine ⟨s, hrun, ?_⟩
    intro hlaw
    have hinc := hlaw.increasing
    rw [hpassed] at hinc
    exact absurd hinc (by decide)

end Vpp.Ikev2
