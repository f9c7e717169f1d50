import Vpp.Ikev2.Frame
import Vpp.Ikev2.Node

/-! Messages whose SK payload does not verify.

    Nothing in such a message is authentic, so it should leave the SA it names as it was. Several
    writes come before the check or follow its failure:

      message-id window   last_msg_id moves to the id of the message
      INFORMATIONAL       liveness_retries is set to 0
      IKE_AUTH            the keys are derived anew, and the SA is deleted

    The messages that do leave the SA alone are those of `Harmless`. -/

namespace Vpp.Ikev2
open Vpp.Schemes

/-- The SA on which each exchange tries to open the SK payload. -/
def Sa.beforeSk (cr : Crypto) (rx : Rx) (sa : Sa) : Except Fault Sa :=
  if rx.hdr.exchange = exchangeIkeAuth then ikev2CalcKeys cr { sa with dstPort := rx.srcPort }
  else if rx.hdr.exchange = exchangeInformational then return { sa with livenessRetries := 0 }
  else return sa

/-- `ikev2_decrypt_sk_payload` returns 0 for the message. -/
def SkFails (cr : Crypto) (rx : Rx) (sa : Sa) : Prop :=
  ∃ sa1 sa2, (sa.advance rx.hdr).beforeSk cr rx = .ok sa1 ∧ ikev2DecryptSkPayload cr sa1 rx = .ok (sa2, none)

/-- A well-formed message of one of the three exchanges, for the SA at index `i`. -/
structure Addressed (s : NodeState) (rx : Rx) (i : ℕ) (sa : Sa) : Prop where
  length_eq : rx.hdr.length.toNat = rx.message.length
  version_eq : rx.hdr.version = ikeVersion2
  exchange : rx.hdr.exchange = exchangeIkeAuth ∨ rx.hdr.exchange = exchangeInformational ∨
    rx.hdr.exchange = exchangeCreateChildSa
  found : s.worker.saByRspi rx.hdr.rspi = some i
  live : s.worker.sas.get? i = some sa
  rspi_eq : sa.rspi = rx.hdr.rspi

/-- The keys of an SA. -/
def Sa.keys (sa : Sa) : List Bytes := [sa.skD, sa.skAi, sa.skAr, sa.skEi, sa.skEr, sa.skPi, sa.skPr]

/-- State, window, liveness counter, keys and child SAs are the same. -/
structure SameSa (sa sa' : Sa) : Prop where
  state : sa'.state = sa.state
  lastMsgId : sa'.lastMsgId = sa.lastMsgId
  livenessRetries : sa'.livenessRetries = sa.livenessRetries
  keys : sa'.keys = sa.keys
  childs : sa'.childs = sa.childs

/-- The SA is still in the pool and in the hash, and is the same. -/
structure SaKept (w : Worker) (i : ℕ) (sa : Sa) : Prop where
  found : w.saByRspi sa.rspi = some i
  live : ∃ sa', w.sas.get? i = some sa' ∧ SameSa sa sa'

/-- The messages that leave the SA alone: those the window holds back; and responses, or requests with
    the id the window is at, of CREATE_CHILD_SA, or of INFORMATIONAL while no liveness check is open. -/
def Harmless (sa : Sa) (rx : Rx) : Prop :=
  sa.stops rx.hdr ∨
    rx.hdr.exchange ≠ exchangeIkeAuth ∧ (rx.hdr.isResponse = true ∨ rx.hdr.msgid = sa.lastMsgId) ∧
      (rx.hdr.exchange = exchangeInformational → sa.livenessRetries = 0)

/-! ### The SA after the failure -/

section
variable {env : Env} {km : Ikev2Main} {saIndex : BitVec 32} {rx : Rx} {sa sa1 sa2 : Sa}

theorem authenticate_failedSk (hkeys : ikev2CalcKeys env.cr { sa with dstPort := rx.srcPort } = .ok sa1)
    (hsk : ikev2DecryptSkPayload env.cr sa1 rx = .ok (sa2, none)) :
    Ensures (authenticate env km rx sa) fun sa' => sa'.isDead := by
  unfold authenticate ikev2ProcessAuthReq
  rw [hkeys, bind_ok, hsk, bind_ok]
  dsimp only
  split
  · exact .pure (.inr rfl)
  · exact .pure (.inl rfl)

theorem generateIkeAuth_dead {hdr : IkeHeader} (hdead : sa.isDead) :
    Ensures (generateIkeAuth env rx hdr sa) fun r => r.1.isDead := by
  unfold generateIkeAuth authChain
  rcases hdead with hstate | hstate <;> rw [hstate]
  · exact .pure (.inl rfl)
  · refine (sealMessage_answer sa).mono ?_
    rintro r ⟨-, -, hr⟩
    exact .inr (hr.trans hstate)

/-- After IKE_AUTH has failed the SA is in one of the states in which it is deleted. -/
theorem handleIkeAuth_failedSk (hkeys : ikev2CalcKeys env.cr { sa with dstPort := rx.srcPort } = .ok sa1)
    (hsk : ikev2DecryptSkPayload env.cr sa1 rx = .ok (sa2, none)) :
    Ensures (handleIkeAuth env km saIndex rx sa) fun out =>
      out.sa.isDead ∧ out.initialContact = false ∧ out.rekeyed = none := by
  refine .bind (authenticate_failedSk hkeys hsk) fun sa' hdead => ?_
  have hstate : sa'.state ≠ .authenticated := by
    rcases hdead with h | h <;> simp [h]
  rw [authenticated, if_pos hstate]
  refine .ite (fun _ => .pure ⟨hdead, by simp [hstate], rfl⟩) fun _ => ?_
  refine .bind (generateIkeAuth_dead hdead) fun r hr => ?_
  exact .pure ⟨hr, by simp [hstate], rfl⟩

/-- The other exchanges stop at the failure. -/
theorem handleMessage_failedSk (hbefore : sa.beforeSk env.cr rx = .ok sa1)
    (hsk : ikev2DecryptSkPayload env.cr sa1 rx = .ok (sa2, none)) :
    Ensures (handleMessage env km saIndex rx sa) fun out =>
      (if rx.hdr.exchange = exchangeIkeAuth then out.sa.isDead else out.sa = sa2) ∧
        out.initialContact = false ∧ out.rekeyed = none := by
  unfold Sa.beforeSk at hbefore
  unfold handleMessage
  by_cases hauth : rx.hdr.exchange = exchangeIkeAuth
  · simp only [hauth, if_true] at hbefore ⊢
    exact handleIkeAuth_failedSk hbefore hsk
  · simp only [hauth, if_false] at hbefore ⊢
    by_cases hinfo : rx.hdr.exchange = exchangeInformational
    · rw [if_pos hinfo] at hbefore ⊢
      cases hbefore
      rw [handleInformational, ikev2ProcessInformationalReq, hsk]
      exact .pure ⟨rfl, rfl, rfl⟩
    · rw [if_neg hinfo] at hbefore ⊢
      cases hbefore
      rw [handleCreateChild, ikev2ProcessCreateChildSaReq, hsk]
      exact .pure ⟨rfl, rfl, rfl⟩

theorem Sa.advance_lastMsgId_iff {hdr : IkeHeader} (h : ¬ sa.stops hdr) :
    (sa.advance hdr).lastMsgId = sa.lastMsgId ↔ hdr.isResponse = true ∨ hdr.msgid = sa.lastMsgId := by
  unfold Sa.advance
  cases hresp : hdr.isResponse with
  | true => simp
  | false =>
    have hnew : sa.isNewReq hdr.msgid := by
      by_contra hnew
      exact h ⟨hresp, hnew⟩
    simp [hnew]

/-- Of the exchanges other than IKE_AUTH, what an unopened message changes. -/
theorem sameSa_iff_of_failedSk (hstop : ¬ sa.stops rx.hdr) (hauth : rx.hdr.exchange ≠ exchangeIkeAuth)
    (hbefore : (sa.advance rx.hdr).beforeSk env.cr rx = .ok sa1)
    (hsk : ikev2DecryptSkPayload env.cr sa1 rx = .ok (sa2, none)) :
    sa2.state = sa.state ∧ (SameSa sa sa2 ↔
      (rx.hdr.isResponse = true ∨ rx.hdr.msgid = sa.lastMsgId) ∧
        (rx.hdr.exchange = exchangeInformational → sa.livenessRetries = 0)) := by
  obtain ⟨cp, rfl⟩ := ikev2DecryptSkPayload_frame hsk
  rw [← Sa.advance_lastMsgId_iff hstop]
  rw [Sa.beforeSk, if_neg hauth, Sa.advance_eq] at hbefore
  by_cases hinfo : rx.hdr.exchange = exchangeInformational
  · rw [if_pos hinfo] at hbefore
    cases hbefore
    refine ⟨rfl, ?_⟩
    constructor
    · intro h
      exact ⟨h.lastMsgId, fun _ => h.livenessRetries.symm⟩
    · rintro ⟨hid, hlive⟩
      exact ⟨rfl, hid, (hlive hinfo).symm, rfl, rfl⟩
  · rw [if_neg hinfo] at hbefore
    cases hbefore
    refine ⟨rfl, ?_⟩
    constructor
    · intro h
      exact ⟨h.lastMsgId, fun h' => absurd h' hinfo⟩
    · rintro ⟨hid, -⟩
      exact ⟨rfl, hid, rfl, rfl, rfl⟩

end

/-! ### The worker after the failure -/

section
variable {env : Env} {rx : Rx} {s : NodeState} {i : ℕ} {sa : Sa}

/-- A message that starts no clean-up and no rekey only writes its SA back, or deletes it. -/
theorem ikev2NodeInternal_worker (haddr : Addressed s rx i sa) {Q : Sa → Prop}
    (hsa : Ensures (receiveOnSa env s.km (BitVec.ofNat 32 i) rx sa) fun o =>
      Q o.sa ∧ o.initialContact = false ∧ o.rekeyed = none) :
    Ensures (ikev2NodeInternal env rx s) fun out => ∃ sa', Q sa' ∧
      out.state.worker = (deleteDead { s.worker with sas := s.worker.sas.set i sa' } i sa').1 := by
  have hinit : rx.hdr.exchange ≠ exchangeSaInit := by
    rcases haddr.exchange with h | h | h <;> rw [h] <;> decide
  have hvalid : ¬ (rx.hdr.length.toNat ≠ rx.message.length ∨ rx.hdr.version ≠ ikeVersion2) := by
    rintro (h | h)
    · exact h haddr.length_eq
    · exact h haddr.version_eq
  rw [ikev2NodeInternal, if_neg hvalid, if_neg hinit, if_pos haddr.exchange]
  rw [receiveOnWorker, haddr.found]
  dsimp only
  rw [haddr.live, deref_some, bind_ok]
  refine .bind hsa fun o ⟨hQ, hcontact, hrekeyed⟩ => ?_
  refine .pure ⟨o.sa, hQ, ?_⟩
  simp [finishMessage, hcontact, hrekeyed]

/-- The SA is kept exactly if its successor is alive and the same. -/
theorem saKept_deleteDead_iff {w : Worker} {sa' : Sa} (hfound : w.saByRspi sa.rspi = some i)
    (hlive : w.sas.get? i = some sa) (hrspi : sa'.rspi = sa.rspi) :
    SaKept (deleteDead { w with sas := w.sas.set i sa' } i sa').1 i sa ↔ ¬ sa'.isDead ∧ SameSa sa sa' := by
  have hget : (w.sas.set i sa').get? i = some sa' := by rw [Pool.get?_set hlive, if_pos rfl]
  unfold deleteDead
  by_cases hdead : sa'.isDead
  · simp only [hdead, if_true, not_true_eq_false, false_and, iff_false]
    intro hkept
    have hhash : (w.saByRspi sa'.rspi).isSome := by rw [hrspi, hfound]; rfl
    have hfound' := hkept.found
    rw [Worker.ikev2DeleteSa, if_pos hhash, hrspi] at hfound'
    simp at hfound'
  · simp only [hdead, if_false, not_false_eq_true, true_and]
    constructor
    · rintro ⟨-, sa'', hsa'', hsame⟩
      rw [hget] at hsa''
      cases hsa''
      exact hsame
    · intro hsame
      exact ⟨hfound, sa', hget, hsame⟩

end

section
variable {env : Env} {rx : Rx} {s : NodeState} {out : NodeOutcome} {i : ℕ} {sa : Sa}

/-- A message that cannot be opened leaves its SA as it was exactly if the SA was not due for deletion
    and the message is harmless. -/
theorem failedSk_saKept_iff (haddr : Addressed s rx i sa) (hsk : SkFails env.cr rx sa)
    (hout : ikev2NodeInternal env rx s = .ok out) :
    SaKept out.state.worker i sa ↔ ¬ sa.isDead ∧ Harmless sa rx := by
  obtain ⟨sa1, sa2, hbefore, hsk⟩ := hsk
  have hfound : s.worker.saByRspi sa.rspi = some i := haddr.rspi_eq ▸ haddr.found
  have hreceived := @receiveOnSa_received env s.km (BitVec.ofNat 32 i) rx sa
  by_cases hstop : sa.stops rx.hdr
  · obtain ⟨sa', rfl, hw⟩ := ikev2NodeInternal_worker (Q := fun sa' => sa' = sa) haddr
      (receiveOnSa_stops hstop) out hout
    rw [hw, saKept_deleteDead_iff hfound haddr.live rfl]
    exact and_congr_right fun _ => ⟨fun _ => .inl hstop, fun _ => ⟨rfl, rfl, rfl, rfl, rfl⟩⟩
  · have hmsg := @handleMessage_failedSk env s.km (BitVec.ofNat 32 i) rx _ _ _ hbefore hsk
    rw [← receiveOnSa_process hstop] at hmsg
    obtain ⟨sa', ⟨hsa', hrspi'⟩, hw⟩ := ikev2NodeInternal_worker
      (Q := fun sa' => (if rx.hdr.exchange = exchangeIkeAuth then sa'.isDead else sa' = sa2) ∧
        sa'.rspi = sa.rspi) haddr
      ((hmsg.and hreceived).mono fun o ho => ⟨⟨ho.1.1, ho.2.rspi⟩, ho.1.2⟩) out hout
    rw [hw, saKept_deleteDead_iff hfound haddr.live hrspi']
    by_cases hauth : rx.hdr.exchange = exchangeIkeAuth
    · rw [if_pos hauth] at hsa'
      simp [Harmless, hstop, hauth, hsa']
    · rw [if_neg hauth] at hsa'
      obtain ⟨hstate, hsame⟩ := sameSa_iff_of_failedSk hstop hauth hbefore hsk
      rw [hsa', hsame, Sa.isDead, hstate]
      simp only [Harmless, hstop, Sa.isDead, false_or, ne_eq, hauth, not_false_eq_true, true_and]

/-- A CREATE_CHILD_SA response that cannot be opened is without effect. -/
theorem failedSk_response_kept : ∃ out,
    ikev2NodeInternal Env.zero (bareMessage exchangeCreateChildSa hdrFlagResponse 7)
        (.ofSa pskMain (gcmSa 9)) = .ok out ∧
      SaKept out.state.worker 0 (gcmSa 9) := by
  have haddr : Addressed (.ofSa pskMain (gcmSa 9)) (bareMessage exchangeCreateChildSa hdrFlagResponse 7)
      0 (gcmSa 9) := ⟨rfl, rfl, by decide, rfl, rfl, rfl⟩
  have hsk : SkFails Env.zero.cr (bareMessage exchangeCreateChildSa hdrFlagResponse 7) (gcmSa 9) :=
    ⟨_, _, rfl, rfl⟩
  exact ⟨_, rfl, (failedSk_saKept_iff haddr hsk rfl).mpr ⟨by decide, .inr (by decide)⟩⟩

/-- An IKE_AUTH request without an SK payload deletes the established SA it names. -/
theorem bare_ikeAuth_deletes :
    let rx := bareMessage exchangeIkeAuth hdrFlagInitiator 1
    Addressed (.ofSa pskMain (gcmSa 9)) rx 0 (gcmSa 9) ∧ SkFails Env.zero.cr rx (gcmSa 9) ∧
      ∃ out, ikev2NodeInternal Env.zero rx (.ofSa pskMain (gcmSa 9)) = .ok out ∧
        ¬ SaKept out.state.worker 0 (gcmSa 9) := by
  refine ⟨⟨rfl, rfl, by decide, rfl, rfl, rfl⟩, ⟨_, _, rfl, rfl⟩, _, rfl, ?_⟩
  intro hkept
  exact absurd hkept.found (by decide)

end

end Vpp.Ikev2
