import Vpp.Ikev2.Reach

/-! The pool of SAs and the hash over their SPIs, in every reachable state.

      sa_by_rspi   rspi ↦ index      ptd->sas   [ … | sa | … ]
                          └──────────────────────────┘   sa->rspi = rspi

    Five paths write to the two: an SA enters by an IKE_SA_INIT request or response, leaves by
    `ikev2_delete_sa` or by the clean-up after INITIAL_CONTACT, and is swapped by a rekey. None of them
    looks whether the SPI of a new SA is taken, and a response is not compared with what was asked for.
    Under the conditions of `TableSafe` the two stay in step. -/

namespace Vpp.Ikev2
open Vpp.Schemes Indexed Worker
open NodeState (init)

/-- No pending SA was initiated with the SPI of this response. -/
def Unsolicited (s : NodeState) (rx : Rx) : Prop := ∀ sai ∈ s.km.sais, sai.ispi ≠ rx.hdr.ispi
deriving Decidable

/-- The messages that keep pool and hash in step.
    IKE_SA_INIT request: the random SPI is new, and no SA is known under the SPI 0.
    IKE_SA_INIT response: the peer's SPI is new, and a response nobody asked for brings no proposals.
    Other messages: the SPIs of the rekeys that are due are new. -/
def TableSafe (s : NodeState) : Event → Prop
  | .main _ => True
  | .message env rx =>
    if rx.hdr.exchange = exchangeSaInit then
      if rx.hdr.isInitiator = true then
        s.worker.saByRspi env.rnd.spi = none ∧ s.worker.saByRspi 0 = none
      else
        s.worker.saByRspi rx.hdr.rspi = none ∧
          (Unsolicited s rx →
            Ensures (ikev2ProcessSaInitResp env.cr rx { iaddr := rx.dst, raddr := rx.src })
              fun sa => sa.state ≠ .saInit)
    else
      ∀ i ∈ s.worker.saByRspi rx.hdr.rspi, ∀ sa ∈ s.worker.sas.get? i,
        s.worker.saByRspi env.rnd.proposalSpi = none ∧
          ∀ e ∈ sa.saRekey, e.notifyType = 0 → s.worker.saByRspi e.rspi = none

instance (s : NodeState) (e : Event) : Decidable (TableSafe s e) := by
  cases e <;> unfold TableSafe <;> infer_instance

/-! ### The operations on the tables -/

/-- Pool and hash are in step. -/
abbrev Worker.InStep (w : Worker) : Prop := Indexed Sa.rspi w.sas w.saByRspi

section
variable {w : Worker} {i : ℕ} {sa : Sa}

theorem Worker.InStep.delete (h : w.InStep) (hsa : w.sas.get? i = some sa) :
    (w.ikev2DeleteSa i sa).InStep := by
  unfold ikev2DeleteSa
  split
  · exact remove h hsa
  · exact h

theorem Worker.InStep.deleteDead (h : w.InStep) (hsa : w.sas.get? i = some sa) :
    (Ikev2.deleteDead w i sa).1.InStep := by
  unfold Ikev2.deleteDead
  split
  · exact h.delete hsa
  · exact h

/-- What the clean-up keeps while it deletes: pool and hash are in step, an SA on the list is still
    there or already gone, the SA that asked for the clean-up stays, and no SPI comes into use. -/
structure CleanUp (w0 w : Worker) (i : ℕ) (sa : Sa) (others : List (ℕ × Sa)) : Prop where
  inStep : w.InStep
  others : ∀ is ∈ others, w.sas.get? is.1 = some is.2 ∨ w.saByRspi is.2.rspi = none
  live : w.sas.get? i = some sa
  unused : ∀ rspi, w0.saByRspi rspi = none → w.saByRspi rspi = none

theorem CleanUp.step {w0 : Worker} {is : ℕ × Sa} {others : List (ℕ × Sa)}
    (h : CleanUp w0 w i sa (is :: others)) (hne : sa.rspi ≠ is.2.rspi) :
    CleanUp w0 (w.ikev2DeleteSa is.1 is.2) i sa others := by
  have hrest := fun is' his' => h.others is' (List.mem_cons_of_mem _ his')
  unfold ikev2DeleteSa
  split
  · next hsome =>
    have hlive : w.sas.get? is.1 = some is.2 := by
      rcases h.others is List.mem_cons_self with hlive | hnone
      · exact hlive
      · rw [hnone] at hsome; cases hsome
    have hput := Pool.get?_put hlive
    have hi : i ≠ is.1 := by
      rintro rfl
      have hsa := h.live.symm.trans hlive
      exact hne (congrArg Sa.rspi (Option.some.inj hsa))
    refine ⟨remove h.inStep hlive, ?_, ?_, ?_⟩
    · intro is' his'
      rcases hrest is' his' with hlive' | hnone
      · by_cases heq : is'.1 = is.1
        · refine .inr ?_
          rw [heq, hlive] at hlive'
          rw [← Option.some.inj hlive']
          exact Function.update_self ..
        · refine .inl ?_
          rw [hput, if_neg heq]
          exact hlive'
      · refine .inr ?_
        by_cases heq : is'.2.rspi = is.2.rspi
        · rw [heq]; exact Function.update_self ..
        · exact (Function.update_of_ne heq _ _).trans hnone
    · show (w.sas.put is.1).get? i = some sa
      rw [hput, if_neg hi]
      exact h.live
    · intro rspi hrspi
      by_cases heq : rspi = is.2.rspi
      · rw [heq]; exact Function.update_self ..
      · exact (Function.update_of_ne heq _ _).trans (h.unused rspi hrspi)
  · exact ⟨h.inStep, hrest, h.live, h.unused⟩

theorem Worker.InStep.cleanUp (h : w.InStep) (hsa : w.sas.get? i = some sa) :
    CleanUp w (w.ikev2InitialContactCleanup sa) i sa [] := by
  have hfold : ∀ (others : List (ℕ × Sa)) (v : Worker), (∀ is ∈ others, sa.rspi ≠ is.2.rspi) →
      CleanUp w v i sa others →
      CleanUp w (others.foldl (fun v is => v.ikev2DeleteSa is.1 is.2) v) i sa [] := by
    intro others
    induction others with
    | nil => intro v _ hv; exact hv
    | cons is others ih =>
      intro v hne hv
      exact ih _ (fun is' his' => hne is' (List.mem_cons_of_mem _ his')) (hv.step (hne is List.mem_cons_self))
  refine hfold _ w ?_ ⟨h, ?_, hsa, fun _ h => h⟩
  · intro is his
    have hpred := (List.mem_filter.mp his).2
    simp only [Bool.and_eq_true, decide_eq_true_eq] at hpred
    exact hpred.2
  · intro is his
    exact .inl (Pool.mem_toList.mp (List.mem_filter.mp his).1)

/-- A handled message keeps pool and hash in step if it leaves the SPI of its SA alone and a rekeyed SA
    has a new one. -/
theorem finishMessage_inStep (h : w.InStep) (hsa : w.sas.get? i = some sa) {out : Outcome}
    (hrspi : out.sa.rspi = sa.rspi) (hnew : ∀ new, out.rekeyed = some new → w.saByRspi new.rspi = none) :
    (finishMessage w i out).1.InStep := by
  have hset : InStep { w with sas := w.sas.set i out.sa } := modify h hsa hrspi
  have hget : (w.sas.set i out.sa).get? i = some out.sa := by
    rw [Pool.get?_set hsa, if_pos rfl]
  have hclean : CleanUp { w with sas := w.sas.set i out.sa } (if out.initialContact = true then
      ikev2InitialContactCleanup { w with sas := w.sas.set i out.sa } out.sa
      else { w with sas := w.sas.set i out.sa }) i out.sa [] := by
    split
    · exact hset.cleanUp hget
    · exact ⟨hset, by simp, hget, fun _ h => h⟩
  unfold finishMessage
  dsimp only
  generalize (if out.initialContact = true then
    ikev2InitialContactCleanup { w with sas := w.sas.set i out.sa } out.sa
    else { w with sas := w.sas.set i out.sa }) = v at hclean ⊢
  split
  · exact hclean.inStep.deleteDead hclean.live
  · next new hrekeyed =>
    have hunused := hclean.unused new.rspi (hnew new hrekeyed)
    have hswap : (v.swapRekeyed i out.sa new).InStep := swap hclean.inStep hclean.live hunused
    refine hswap.deleteDead ?_
    have hji : (v.sas.alloc out.sa).2 ≠ i := by
      intro heq
      have hfree := v.sas.get?_alloc_index out.sa
      rw [heq, hclean.live] at hfree
      cases hfree
    have hlive : (v.sas.alloc out.sa).1.get? i = some out.sa := by
      rw [Pool.get?_alloc, if_neg hji.symm, hclean.live]
    show ((v.sas.alloc out.sa).1.set i new).get? (v.sas.alloc out.sa).2 = some out.sa
    rw [Pool.get?_set hlive, if_neg hji, Pool.get?_alloc, if_pos rfl]

end

/-! ### The messages -/

section
variable {w : Worker} {sa kept : Sa}

/-- The SA of IKE_SA_INIT is kept under a new SPI, or its SPI is not that of another SA. -/
theorem finishSaInit_inStep (h : w.InStep) (hkept : sa.state = .saInit → w.saByRspi kept.rspi = none)
    (hdead : sa.isDead → w.saByRspi sa.rspi = none) :
    ∃ w', finishSaInit w sa kept = .ok w' ∧ w'.InStep ∧ (sa.state ≠ .saInit → w' = w) := by
  unfold finishSaInit
  by_cases hstate : sa.state = .saInit
  · rw [if_pos hstate]
    exact ⟨w.add kept, rfl, insert h (hkept hstate), fun hne => absurd hstate hne⟩
  · rw [if_neg hstate]
    by_cases hd : sa.isDead
    · rw [if_pos hd, ikev2DeleteStackSa, if_neg (by rw [hdead hd]; decide)]
      exact ⟨w, rfl, h, fun _ => rfl⟩
    · rw [if_neg hd]
      exact ⟨w, rfl, h, fun _ => rfl⟩

end

section
variable {env : Env} {rx : Rx} {s : NodeState}

theorem saInitReq_inStep (h : s.worker.InStep) (hspi : s.worker.saByRspi env.rnd.spi = none)
    (hzero : s.worker.saByRspi 0 = none) :
    Ensures (receiveSaInitReq env rx) fun r =>
      ∃ w, finishSaInit s.worker r.1 { r.1 with profileIndex := ~~~0 } = .ok w ∧ w.InStep := by
  refine receiveSaInitReq_frame.mono fun r hr => ?_
  obtain ⟨w, hw, hin, -⟩ := @finishSaInit_inStep s.worker r.1 { r.1 with profileIndex := ~~~0 } h
    (fun hstate => by
      rcases hr.2 with ⟨hne, -⟩ | hrspi
      · exact absurd hstate hne
      · exact (congrArg _ hrspi).trans hspi)
    (fun _ => by
      rcases hr.2 with ⟨-, hrspi⟩ | hrspi
      · rw [hrspi]; exact hzero
      · rw [hrspi]; exact hspi)
  exact ⟨w, hw, hin⟩

theorem saInitResp_inStep (h : s.worker.InStep) (hspi : s.worker.saByRspi rx.hdr.rspi = none) :
    Ensures (receiveSaInitResp env s.km rx) fun r =>
      ∃ w, finishSaInit s.worker r.1 r.1 = .ok w ∧ w.InStep ∧ (r.1.state ≠ .saInit → w = s.worker) := by
  refine receiveSaInitResp_frame.mono fun r hr => ?_
  have hrspi : s.worker.saByRspi r.1.rspi = none := by rw [hr.2]; exact hspi
  exact finishSaInit_inStep h (fun _ => hrspi) fun _ => hrspi

/-- A message that meets the conditions keeps pool and hash in step. -/
theorem ikev2NodeInternal_inStep (h : s.worker.InStep) (hsafe : TableSafe s (.message env rx)) :
    Ensures (ikev2NodeInternal env rx s) fun out => out.state.worker.InStep := by
  refine .ite (fun _ => .pure h) fun _ => ?_
  refine .ite (fun hinit => ?_) fun hinit => ?_
  · rw [TableSafe, if_pos hinit] at hsafe
    refine .ite (fun hreq => ?_) fun hreq => ?_
    · rw [if_pos hreq] at hsafe
      refine .ite (fun _ => .pure h) fun _ => ?_
      refine .bind_any fun verdict => ?_
      cases verdict with
      | resend packet => exact .pure h
      | ignore => exact .pure h
      | process =>
        refine .bind (saInitReq_inStep h hsafe.1 hsafe.2) fun r ⟨w, hw, hin⟩ => ?_
        dsimp only
        rw [hw]
        exact .pure hin
    · rw [if_neg hreq] at hsafe
      refine .bind (saInitResp_inStep h hsafe.1) fun r ⟨w, hw, hin, _⟩ => ?_
      dsimp only
      rw [hw]
      exact .pure hin
  · rw [TableSafe, if_neg hinit] at hsafe
    refine .ite (fun _ => ?_) fun _ => .pure h
    unfold receiveOnWorker
    split
    · exact .pure h
    · next i hfound =>
      refine .bind (.deref _) fun sa hlive => ?_
      obtain ⟨hspi, hpending⟩ := hsafe i hfound sa hlive
      refine .bind (receiveOnSa_received sa) fun out hout => ?_
      refine .pure (finishMessage_inStep h hlive hout.rspi ?_)
      intro new hnew
      rcases (hout.rekeyed new hnew).rspi with hrspi | ⟨e, he, hok, hrspi⟩
      · rw [hrspi]; exact hspi
      · rw [hrspi]; exact hpending e he hok

theorem receiveSaInitResp_state (h : Ensures
    (ikev2ProcessSaInitResp env.cr rx { iaddr := rx.dst, raddr := rx.src }) fun sa => sa.state ≠ .saInit) :
    Ensures (receiveSaInitResp env s.km rx) fun r => r.1.state ≠ .saInit := by
  refine .bind h fun sa hsa => ?_
  rw [if_pos hsa]
  exact .pure hsa

end

/-- A state of the worker, and what an allowed message does in it: pool and hash are in step; a response
    that nobody asked for changes neither; no SA on the stack is released to the pool. -/
structure TableOk (s : NodeState) : Prop where
  inStep : s.worker.InStep
  unsolicited : ∀ env rx out, TableSafe s (.message env rx) → rx.hdr.exchange = exchangeSaInit →
    rx.hdr.isInitiator = false → Unsolicited s rx → ikev2NodeInternal env rx s = .ok out →
      out.state.worker = s.worker
  request : ∀ env rx sa reply, TableSafe s (.message env rx) → rx.hdr.exchange = exchangeSaInit →
    rx.hdr.isInitiator = true → receiveSaInitReq env rx = .ok (sa, reply) →
      ∃ w, finishSaInit s.worker sa { sa with profileIndex := ~~~0 } = .ok w
  response : ∀ env rx sa r, TableSafe s (.message env rx) → rx.hdr.exchange = exchangeSaInit →
    rx.hdr.isInitiator = false → receiveSaInitResp env s.km rx = .ok (sa, r) →
      ∃ w, finishSaInit s.worker sa sa = .ok w

theorem Worker.InStep.tableOk {s : NodeState} (h : s.worker.InStep) : TableOk s where
  inStep := h
  unsolicited := by
    intro env rx out hsafe hinit hresp hunsol hout
    have hresp' : ¬ rx.hdr.isInitiator = true := by rw [hresp]; decide
    rw [TableSafe, if_pos hinit, if_neg hresp'] at hsafe
    have hstate := @receiveSaInitResp_state env rx s (hsafe.2 hunsol)
    have hkeep : Ensures (receiveSaInitRespOnWorker env rx s) fun out => out.state.worker = s.worker := by
      refine .bind ((saInitResp_inStep h hsafe.1).and hstate) fun r hr => ?_
      obtain ⟨⟨w, hw, -, hsame⟩, hne⟩ := hr
      dsimp only
      rw [hw]
      exact .pure (hsame hne)
    have hnode : Ensures (ikev2NodeInternal env rx s) fun out => out.state.worker = s.worker := by
      rw [ikev2NodeInternal, if_pos hinit, if_neg hresp']
      exact .ite (fun _ => .pure rfl) fun _ => hkeep
    exact hnode out hout
  request := by
    intro env rx sa reply hsafe hinit hreq hsa
    rw [TableSafe, if_pos hinit, if_pos hreq] at hsafe
    obtain ⟨w, hw, -⟩ := saInitReq_inStep h hsafe.1 hsafe.2 _ hsa
    exact ⟨w, hw⟩
  response := by
    intro env rx sa r hsafe hinit hresp hsa
    rw [TableSafe, if_pos hinit, if_neg (by rw [hresp]; decide)] at hsafe
    obtain ⟨w, hw, -⟩ := saInitResp_inStep h hsafe.1 _ hsa
    exact ⟨w, hw⟩

/-- In every state that allowed messages lead to, pool and hash are in step. -/
theorem saTable_inStep {km : Ikev2Main} {es : List Event} {s : NodeState}
    (hsafe : AllStepsM TableSafe nodeStep (init km) es)
    (hrun : runM nodeStep (init km) es = .ok s) : TableOk s := by
  have hstep : ∀ s e t, s.worker.InStep → TableSafe s e → nodeStep s e = .ok t → t.worker.InStep := by
    intro s e t hs hsafe hstep
    cases e with
    | message env rx =>
      obtain ⟨out, hout, heq⟩ := bind_eq_ok.mp hstep
      cases heq
      exact ikev2NodeInternal_inStep hs hsafe out hout
    | main km => cases hstep; exact hs
  exact (runM_inv hstep hsafe empty hrun).tableOk

/-- A new SA and a message on it. -/
theorem saTable_inStep_handshake : ∃ s,
    runM nodeStep (init pskMain) [.message (spiEnv 9) (saInitMessage hdrFlagInitiator),
      .message Env.zero (emptyMessage exchangeInformational hdrFlagInitiator 1)] = .ok s ∧ TableOk s := by
  have hsafe : AllStepsM TableSafe nodeStep (init pskMain)
      [.message (spiEnv 9) (saInitMessage hdrFlagInitiator),
        .message Env.zero (emptyMessage exchangeInformational hdrFlagInitiator 1)] := by decide +kernel
  obtain ⟨s, hrun, -⟩ := exists_of_runM_map (show (runM nodeStep (init pskMain)
    [.message (spiEnv 9) (saInitMessage hdrFlagInitiator),
      .message Env.zero (emptyMessage exchangeInformational hdrFlagInitiator 1)]).map
        (fun s => s.worker.saByRspi 9) = .ok (some 0) by decide +kernel)
  exact ⟨s, hrun, saTable_inStep hsafe hrun⟩

/-- A response that nobody asked for, with the SPI of a live SA: it is entered as an SA of its own, and
    the live one is no longer found. -/
theorem unsolicited_response_takes_spi : ∃ s,
    runM nodeStep (init pskMain) [.message (spiEnv 9) (saInitMessage hdrFlagInitiator),
      .message Env.zero ((saInitMessage hdrFlagResponse).withIds 9 0)] = .ok s ∧
    Unsolicited (init pskMain) ((saInitMessage hdrFlagResponse).withIds 9 0) ∧
    (s.worker.sas.get? 1).isSome ∧ ¬ s.worker.InStep := by
  obtain ⟨s, hrun, hobs⟩ := exists_of_runM_map (show (runM nodeStep (init pskMain)
    [.message (spiEnv 9) (saInitMessage hdrFlagInitiator),
      .message Env.zero ((saInitMessage hdrFlagResponse).withIds 9 0)]).map (fun s =>
        (s.worker.saByRspi 9, (s.worker.sas.get? 0).map (·.rspi), (s.worker.sas.get? 1).isSome)) =
      .ok (some 1, some 9, true) by decide +kernel)
  obtain ⟨hhash, hrest⟩ := Prod.mk.inj hobs
  obtain ⟨hold, hnew⟩ := Prod.mk.inj hrest
  refine ⟨s, hrun, by decide, hnew, ?_⟩
  intro hin
  obtain ⟨sa, hlive, hrspi⟩ := Option.map_eq_some_iff.mp hold
  have hfound := hin.found 0 sa hlive
  rw [hrspi, hhash] at hfound
  cases hfound

end Vpp.Ikev2
