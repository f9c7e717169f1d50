import Vpp.Ikev2.Frame
import Vpp.Ikev2.Node

/-! What holds of every SA in every reachable state of a worker.

    An SA enters the pool at the end of IKE_SA_INIT or by a rekey, and changes when a message on it is
    handled. A property that new SAs have and handled messages keep holds of all SAs of the pool at all
    times (`reachable_all`). -/

namespace Vpp.Ikev2
open Vpp.Schemes

/-! ### New SAs -/

section
variable {cr : Crypto} {env : Env} {km : Ikev2Main} {rx : Rx} (sa : Sa)

theorem Sa.natDetected_core (mismatch : Bool) : (sa.natDetected mismatch).core = sa.core := by
  unfold Sa.natDetected
  split <;> rfl

theorem saInitReqPayload_core (core : Core) : PayloadKeeps (·.core = core) (saInitReqPayload cr rx) := by
  intro sa payload mem rlen hs
  have hnat := fun mismatch => (sa.natDetected_core mismatch).trans hs
  unfold saInitReqPayload
  repeat' first
    | exact .pure hs
    | exact .pure (hnat _)
    | refine .ite (fun _ => ?_) fun _ => ?_
    | refine .bind_any fun r => ?_
    | cases r

theorem ikev2ProcessSaInitReq_core :
    Ensures (ikev2ProcessSaInitReq cr rx sa) fun r => r.1.core = sa.core := by
  refine .bind (Q := fun r => r.1.core = sa.core) ?_ fun ⟨sa1, res⟩ h1 => ?_
  · exact payloadLoop_inv (saInitReqPayload_core sa.core) (fun s hs => hs) _ _ _ _ _ rfl
  · cases res with
    | false => exact .pure h1
    | true => exact .pure h1

theorem saInitRespPayload_core (core : Core) : PayloadKeeps (·.1.core = core) (saInitRespPayload cr rx) := by
  rintro ⟨sa, msgid⟩ payload mem rlen hs
  have hnat := fun mismatch => (sa.natDetected_core mismatch).trans hs
  unfold saInitRespPayload
  repeat' first
    | exact .pure hs
    | exact .pure (hnat _)
    | refine .ite (fun _ => ?_) fun _ => ?_
    | refine .bind_any fun r => ?_
    | cases r

theorem ikev2ProcessSaInitResp_core :
    Ensures (ikev2ProcessSaInitResp cr rx sa) fun sa' => sa'.core = Sa.core { sa with rspi := rx.hdr.rspi } := by
  refine .bind (Q := fun r => r.1.1.core = Sa.core { sa with rspi := rx.hdr.rspi }) ?_
    fun r hr => .pure hr
  exact payloadLoop_inv (saInitRespPayload_core _) (fun s hs => hs) _ _ _ _ _ rfl

/-- A responder's SA gets the random SPI, unless no group was found. -/
theorem ikev2GenerateSaInitData_frame (cr : Crypto) (rnd : Rand) {sa : Sa} (hresp : sa.isInitiator = false) :
    (ikev2GenerateSaInitData cr rnd sa).1.pending = sa.pending ∧
      ((ikev2GenerateSaInitData cr rnd sa).1.dhGroup = dhTypeNone ∧
          (ikev2GenerateSaInitData cr rnd sa).1.rspi = sa.rspi ∨
        (ikev2GenerateSaInitData cr rnd sa).1.rspi = rnd.spi) := by
  unfold ikev2GenerateSaInitData
  split
  · next hgroup => exact ⟨rfl, .inl ⟨hgroup, rfl⟩⟩
  · split
    · exact ⟨rfl, .inl ⟨rfl, rfl⟩⟩
    · next t _ =>
      simp only [hresp, Bool.false_eq_true, if_false]
      have hcore := ikev2GenerateDh_core cr rnd { sa with rspi := rnd.spi, rNonce := rnd.nonce sa.iNonce.length } t
      rw [hresp] at hcore
      exact ⟨congrArg Core.pending hcore, .inr (congrArg (fun core => core.window.rspi) hcore)⟩

/-- The answer to IKE_SA_INIT changes the state only, and only if there is no group or proposal. -/
theorem generateSaInit_frame {hdr : IkeHeader} :
    Ensures (generateSaInit env rx hdr sa) fun r => r.1.pending = sa.pending ∧ r.1.rspi = sa.rspi ∧
      (r.1.state = .saInit → sa.state = .saInit ∧ sa.dhGroup ≠ dhTypeNone) := by
  refine .bind (Q := fun r => r.1.pending = sa.pending ∧ r.1.rspi = sa.rspi ∧
    (r.1.state = .saInit → sa.state = .saInit ∧ sa.dhGroup ≠ dhTypeNone)) ?_ fun ⟨sa1, c, setRspi⟩ h1 => ?_
  · unfold saInitChain
    refine .ite (fun _ => .pure ⟨rfl, rfl, nofun⟩) fun _ => ?_
    refine .ite (fun _ => ?_) fun hgroup => ?_
    · exact .bind_any fun c => .pure ⟨rfl, rfl, nofun⟩
    · exact .ite (fun _ => .pure ⟨rfl, rfl, fun h => ⟨h, hgroup⟩⟩) fun _ =>
        .pure ⟨rfl, rfl, fun h => ⟨h, hgroup⟩⟩
  · exact .ite (fun _ => .pure h1) fun _ => .pure h1

/-- A new SA has no negotiations. It has the random SPI, or none if it is given up. -/
theorem receiveSaInitReq_frame :
    Ensures (receiveSaInitReq env rx) fun r => r.1.pending = ⟨[], [], []⟩ ∧
      (r.1.state ≠ .saInit ∧ r.1.rspi = 0 ∨ r.1.rspi = env.rnd.spi) := by
  refine .bind (ikev2ProcessSaInitReq_core _) fun ⟨sa1, res⟩ h1 => ?_
  have hp : sa1.pending = ⟨[], [], []⟩ := congrArg Core.pending h1
  have hrole : sa1.isInitiator = false := congrArg (fun core => core.window.isInitiator) h1
  have hrspi : sa1.rspi = 0 := congrArg (fun core => core.window.rspi) h1
  refine .ite (fun _ => ?_) fun hstate => .ite (fun _ => ?_) fun _ => ?_
  · have hgen := @ikev2GenerateSaInitData_frame env.cr env.rnd { sa1 with
      rProposals := ikev2SelectProposal supportedTransforms env.rnd.proposalSpi sa1.iProposals protocolIke }
      hrole
    refine (generateSaInit_frame _).mono fun r hr => ⟨(hr.1.trans hgen.1).trans hp, ?_⟩
    rcases hgen.2 with ⟨hgroup, hzero⟩ | hspi
    · refine .inl ⟨fun h => (hr.2.2 h).2 hgroup, ?_⟩
      exact (hr.2.1.trans hzero).trans hrspi
    · exact .inr (hr.2.1.trans hspi)
  · refine (generateSaInit_frame sa1).mono fun r hr => ⟨hr.1.trans hp, .inl ⟨?_, hr.2.1.trans hrspi⟩⟩
    intro h
    exact hstate (hr.2.2 h).1
  · exact .pure ⟨hp, .inl ⟨hstate, hrspi⟩⟩

theorem ikev2CompleteSaData_frame (sai : Sa) :
    (ikev2CompleteSaData env sa sai).pending = sa.pending ∧ (ikev2CompleteSaData env sa sai).rspi = sa.rspi := by
  unfold ikev2CompleteSaData
  dsimp only
  split
  · exact ⟨rfl, rfl⟩
  · split <;> exact ⟨rfl, rfl⟩

theorem ikev2SaAuthInit_core : Ensures (ikev2SaAuthInit env km sa) fun sa' => sa'.core = sa.core := by
  refine .ite (fun _ => .pure rfl) fun _ => ?_
  exact .bind_any fun trPrf => .pure rfl

theorem completeInitiated_frame (sai : Sa) :
    Ensures (completeInitiated env km rx sa sai) fun r =>
      r.1.pending = sa.pending ∧ r.1.rspi = sa.rspi := by
  obtain ⟨hp, hrspi⟩ := @ikev2CompleteSaData_frame env sa sai
  refine .bind (ikev2CalcKeys_core _) fun sa1 ⟨h1, _⟩ => ?_
  refine .bind (ikev2SaAuthInit_core sa1) fun sa2 h2 => ?_
  have hcore := h2.trans h1
  refine (generateIkeAuth_answer _).mono fun r hr => ⟨?_, ?_⟩
  · exact (hr.2.trans (congrArg Core.pending hcore)).trans hp
  · have hw : r.1.rspi = sa2.rspi := congrArg Window.rspi hr.1.window_eq
    exact (hw.trans (congrArg (fun core => core.window.rspi) hcore)).trans hrspi

/-- The SA of a response has no negotiations, and the SPI of the response. -/
theorem receiveSaInitResp_frame :
    Ensures (receiveSaInitResp env km rx) fun r => r.1.pending = ⟨[], [], []⟩ ∧ r.1.rspi = rx.hdr.rspi := by
  refine .bind (ikev2ProcessSaInitResp_core _) fun sa1 h1 => ?_
  have hp : sa1.pending = ⟨[], [], []⟩ := congrArg Core.pending h1
  have hrspi : sa1.rspi = rx.hdr.rspi := congrArg (fun core => core.window.rspi) h1
  refine .ite (fun _ => .pure ⟨hp, hrspi⟩) fun _ => ?_
  split
  · exact .pure ⟨hp, hrspi⟩
  · refine .ite (fun _ => .pure ⟨hp, hrspi⟩) fun _ => ?_
    refine .bind (completeInitiated_frame sa1 _) fun r hr => ?_
    exact .pure ⟨hr.1.trans hp, hr.2.trans hrspi⟩

end

/-! ### The pool -/

section
variable {P : Sa → Prop} {w : Worker}

section

variable (h : w.sas.All P)
include h

theorem Worker.ikev2DeleteSa_all (i : ℕ) (sa : Sa) : (w.ikev2DeleteSa i sa).sas.All P := by
  unfold Worker.ikev2DeleteSa
  split
  · exact h.put i
  · exact h

theorem Worker.ikev2InitialContactCleanup_all (sa : Sa) :
    (w.ikev2InitialContactCleanup sa).sas.All P := by
  unfold Worker.ikev2InitialContactCleanup
  generalize w.sameIdentities sa = others
  induction others generalizing w with
  | nil => exact h
  | cons is others ih => exact ih (w.ikev2DeleteSa_all h is.1 is.2)

theorem deleteDead_all (i : ℕ) (sa : Sa) : (deleteDead w i sa).1.sas.All P := by
  unfold deleteDead
  split
  · exact w.ikev2DeleteSa_all h i sa
  · exact h

theorem finishMessage_all (i : ℕ) {out : Outcome} (hsa : P out.sa)
    (hnew : ∀ new, out.rekeyed = some new → P new) : (finishMessage w i out).1.sas.All P := by
  have hset : (w.sas.set i out.sa).All P := h.set i hsa
  have hclean : (if out.initialContact = true then
      Worker.ikev2InitialContactCleanup { w with sas := w.sas.set i out.sa } out.sa
      else { w with sas := w.sas.set i out.sa }).sas.All P := by
    split
    · exact Worker.ikev2InitialContactCleanup_all hset out.sa
    · exact hset
  unfold finishMessage
  dsimp only
  split
  · exact deleteDead_all hclean i out.sa
  · next saNew hrekeyed =>
    refine deleteDead_all ?_ _ out.sa
    exact (hclean.alloc hsa).set i (hnew saNew hrekeyed)

theorem finishSaInit_all (sa : Sa) {kept : Sa} (hkept : P kept) :
    Ensures (finishSaInit w sa kept) fun w' => w'.sas.All P := by
  refine .ite (fun _ => .pure (h.alloc hkept)) fun _ => ?_
  refine .ite (fun _ => ?_) fun _ => .pure h
  exact .ite (fun _ => .throw _) fun _ => .pure h

end

end

section
variable {P : Sa → Prop}
  (hmsg : ∀ env km i rx sa, P sa → Ensures (receiveOnSa env km i rx sa) fun out =>
    P out.sa ∧ ∀ new, out.rekeyed = some new → P new)
  (hreq : ∀ env rx, Ensures (receiveSaInitReq env rx) fun r => P { r.1 with profileIndex := ~~~0 })
  (hresp : ∀ env km rx, Ensures (receiveSaInitResp env km rx) fun r => P r.1)
include hmsg hreq hresp

theorem ikev2NodeInternal_all (env : Env) (rx : Rx) {s : NodeState} (h : s.worker.sas.All P) :
    Ensures (ikev2NodeInternal env rx s) fun out => out.state.worker.sas.All P := by
  refine .ite (fun _ => .pure h) fun _ => ?_
  refine .ite (fun _ => .ite (fun _ => ?_) fun _ => ?_) fun _ => ?_
  · refine .ite (fun _ => .pure h) fun _ => ?_
    refine .bind_any fun verdict => ?_
    cases verdict with
    | resend packet => exact .pure h
    | ignore => exact .pure h
    | process =>
      refine .bind (hreq env rx) fun r hr => ?_
      refine .bind (finishSaInit_all h r.1 hr) fun w hw => ?_
      exact .pure hw
  · refine .bind (hresp env s.km rx) fun r hr => ?_
    refine .bind (finishSaInit_all h r.1 hr) fun w hw => ?_
    exact .pure hw
  · refine .ite (fun _ => ?_) fun _ => .pure h
    unfold receiveOnWorker
    split
    · exact .pure h
    · next i _ =>
      refine .bind (.deref _) fun sa hsa => ?_
      refine .bind (hmsg env s.km _ rx sa (h i sa hsa)) fun out hout => ?_
      exact .pure (finishMessage_all h i hout.1 hout.2)

/-- What new SAs have and handled messages keep, every SA of a reachable state has. -/
theorem reachable_all {km : Ikev2Main} {es : List Event} {s : NodeState}
    (hrun : runM nodeStep (NodeState.init km) es = .ok s) : s.worker.sas.All P := by
  have hstep : ∀ s e t, s.worker.sas.All P → True → nodeStep s e = .ok t → t.worker.sas.All P := by
    intro s e t hs _ hstep
    cases e with
    | message env rx =>
      obtain ⟨out, hout, heq⟩ := bind_eq_ok.mp hstep
      cases heq
      exact ikev2NodeInternal_all hmsg hreq hresp env rx hs out hout
    | main km => cases hstep; exact hs
  exact runM_inv hstep (AllStepsM.of_forall (fun _ _ => trivial) es _) Pool.All.empty hrun

end

end Vpp.Ikev2
