import Vpp.Ikev2.Installed
import Vpp.Ikev2.Reach

/-! Every child SA that a responder installs, in every reachable state.

    The child SA of IKE_AUTH is read from the message and answered at once. The one of CREATE_CHILD_SA
    waits in `rekey` or `new_child`, from where the oldest entry is taken; an entry stays as it was put
    there (`Sa.Negotiated`). Both reach `ikev2_create_tunnel_interface` as `Offered`. -/

namespace Vpp.Ikev2
open Vpp.Schemes Rpc List
open NodeState (init)

/-- A request to install a child SA is one of `Installed`. -/
def Rpc.Sound : Rpc → Prop
  | .addTunnel child a => Installed child a
  | .delTunnel _ => True
  | .delSaInit _ => True

/-- Of a responder's SA: what is under negotiation was chosen from its offer. -/
def Sa.Negotiated (sa : Sa) : Prop :=
  sa.isInitiator = false → ∀ e, e ∈ sa.rekey ∨ e ∈ sa.newChild → e.Selected

def Sa.FirstOffered (sa : Sa) : Prop := ∀ child, sa.childs[0]? = some child → Offered child

section
variable {env : Env} {km : Ikev2Main} {saIndex : BitVec 32} {rx : Rx} {sa : Sa}

theorem createTunnelAt_sound (hresp : sa.isInitiator = false) (i : ℕ) (isRekey kex : Bool)
    (hchild : ∀ child, sa.childs[i]? = some child → Offered child) :
    Ensures (createTunnelAt env saIndex sa i isRekey kex) fun r => ∀ rpc ∈ r.2, rpc.Sound := by
  refine .bind (.deref _) fun child hget => ?_
  refine .bind (ikev2CreateTunnelInterface_readFromOffer hresp child)
    fun ⟨sa', child', a⟩ hinst => ?_
  refine .pure ?_
  intro rpc hrpc
  obtain ⟨a', ha', rfl⟩ := Option.map_eq_some_iff.mp (Option.mem_toList.mp hrpc)
  obtain ⟨hne, hkeys, hread⟩ := hinst a' ha'
  exact hread.installed hkeys (hchild child hget) hne

/-! ### IKE_AUTH -/

/-- The first child SA while the payloads of IKE_AUTH are read. -/
def Unanswered (s : Sa × ChildSa) : Prop :=
  s.1.isInitiator = false ∧ s.2.rProposals = [] ∧ s.2.skAi = [] ∧ s.2.skAr = []

theorem authPayload_unanswered (s : Sa × ChildSa) (payload : Byte) (mem : Bytes) (rlen : ℕ)
    (hs : Unanswered s) :
    Ensures (authPayload s payload mem rlen) (Flow.Holds Unanswered fun s => s.1.isDead) := by
  obtain ⟨sa, child⟩ := s
  have hrole : ¬ sa.isInitiator = true := by rw [hs.1]; decide
  repeat' first
    | exact .pure hs
    | exact .pure (.inl rfl)
    | exact .pure (.inr rfl)
    | refine .ite (fun h => ?_) fun _ => ?_
    | exact absurd h hrole
    | refine .bind_any fun r => ?_
    | cases r

/-- IKE_AUTH either fails for good or leaves the offered child SA. -/
theorem ikev2ProcessAuthReq_offered (hresp : sa.isInitiator = false) :
    Ensures (ikev2ProcessAuthReq env.cr rx sa) fun r =>
      if r.2 = true then r.1.FirstOffered else r.1.isDead := by
  refine .bind (ikev2CalcKeys_core sa) fun sa1 ⟨h1, _⟩ => ?_
  refine .bind (ikev2DecryptSkPayload_core sa1) fun ⟨sa2, opened⟩ h2 => ?_
  have hrole : sa2.isInitiator = false :=
    (congrArg (fun core => core.window.isInitiator) (h2.trans h1)).trans hresp
  cases opened with
  | none => exact .ite (fun _ => .pure (.inr rfl)) fun _ => .pure (.inl rfl)
  | some inner =>
    have hfirst : firstChildSa sa2 = .ok ({}, []) := if_neg (by rw [hrole]; decide)
    dsimp only
    rw [hfirst, bind_ok]
    refine .bind (Q := fun r => if r.2 = true then Unanswered r.1 else r.1.1.isDead) ?_ ?_
    · refine payloadLoop_rule authPayload_unanswered ?_ _ _ _ _ _ ⟨hrole, rfl, rfl, rfl⟩
      intro s _
      exact .inl rfl
    · rintro ⟨⟨sa3, child⟩, res⟩ h3
      refine .pure ?_
      cases res with
      | false => exact h3
      | true =>
        rintro child' ⟨⟩
        exact ⟨.inl h3.2.1, h3.2.2.1, h3.2.2.2⟩

theorem ikev2SaAuthRespond_offered (h : sa.FirstOffered) (trPrf : TransformData) (selP : Profile) :
    Ensures (ikev2SaAuthRespond env km sa trPrf selP) Sa.FirstOffered := by
  unfold ikev2SaAuthRespond
  dsimp only
  split
  · exact .throw _
  · next child rest hchilds =>
    refine .pure ?_
    rintro child' ⟨⟩
    have hoffer := h child (by rw [hchilds]; rfl)
    exact ⟨.inr ⟨_, rfl⟩, hoffer.skAi, hoffer.skAr⟩

theorem ikev2SaAuth_offered (h : sa.FirstOffered) : Ensures (ikev2SaAuth env km sa) Sa.FirstOffered := by
  refine .ite (fun _ => .pure h) fun _ => ?_
  refine .bind_any fun trPrf => ?_
  unfold ikev2SelectProfile
  split
  · next heq => split at heq <;> cases heq; exact .pure h
  · next sa' selP heq =>
    split at heq <;> cases heq
    refine .ite (fun _ => .pure h) fun _ => ?_
    refine ikev2SaAuthRespond_offered ?_ trPrf selP
    exact h

theorem authenticate_offered (hresp : sa.isInitiator = false) :
    Ensures (authenticate env km rx sa) fun sa' => sa'.state = .authenticated → sa'.FirstOffered := by
  refine .bind (ikev2ProcessAuthReq_offered hresp) fun ⟨sa1, res⟩ h1 => ?_
  cases res with
  | true => exact (ikev2SaAuth_offered h1).mono fun _ h2 _ => h2
  | false =>
    refine .pure ?_
    intro hstate
    rcases h1 with h | h <;> rw [hstate] at h <;> cases h

theorem ikev2SaMatchTs_offered (h : sa.FirstOffered) : Ensures (ikev2SaMatchTs km sa) Sa.FirstOffered := by
  unfold ikev2SaMatchTs
  split
  · exact .pure h
  · dsimp only
    split
    · exact .throw _
    · next child rest hchilds =>
      have hoffer := h child (by rw [hchilds]; rfl)
      split
      · refine .pure ?_
        rintro child' ⟨⟩
        exact ⟨hoffer.chosen, hoffer.skAi, hoffer.skAr⟩
      · exact .pure h

theorem authenticated_sound (hresp : sa.isInitiator = false)
    (h : sa.state = .authenticated → sa.FirstOffered) :
    Ensures (authenticated env km saIndex sa) fun r => ∀ rpc ∈ r.2, rpc.Sound := by
  refine .ite (fun _ => .pure (by simp)) fun hstate => ?_
  have hmatch := (@ikev2SaMatchTs_offered km { sa with initialContact := false } (h (not_not.mp hstate))).and
    (ikev2SaMatchTs_core _)
  refine .bind hmatch fun sa1 ⟨hoffer, hcore⟩ => ?_
  have hrole : sa1.isInitiator = false :=
    (congrArg (fun core => core.window.isInitiator) hcore).trans hresp
  exact .ite (fun _ => .pure (by simp)) fun _ => createTunnelAt_sound hrole 0 false false hoffer

theorem handleIkeAuth_sound (hresp : sa.isInitiator = false) :
    Ensures (handleIkeAuth env km saIndex rx sa) fun out => ∀ rpc ∈ out.rpcs, rpc.Sound := by
  refine .bind ((authenticate_offered hresp).and (authenticate_core sa)) fun sa1 ⟨hoffer, h1⟩ => ?_
  have hrole : sa1.isInitiator = false := (congrArg (fun core => core.window.isInitiator) h1).trans hresp
  refine .bind ((authenticated_sound hrole hoffer).and (authenticated_core sa1))
    fun ⟨sa2, rpcs⟩ ⟨hsound, h2⟩ => ?_
  refine .ite (fun hini => ?_) fun _ => ?_
  · have hrole2 : sa2.isInitiator = false := (congrArg (fun core => core.window.isInitiator) h2).trans hrole
    rw [hrole2] at hini
    cases hini
  · refine .bind_any fun r => ?_
    exact .pure hsound

/-! ### INFORMATIONAL -/

theorem deleteChilds_sound : ∀ (ds : List Delete) (sa : Sa),
    Ensures (deleteChilds ds sa) fun r => ∀ rpc ∈ r.2.2, rpc.Sound
  | [], sa => .pure (by simp)
  | d :: ds, sa => by
    rw [deleteChilds]
    split
    · exact deleteChilds_sound ds sa
    · refine .bind_any fun child => .bind_any fun spi => ?_
      refine .bind (deleteChilds_sound ds _) fun r hr => ?_
      exact .pure (forall_mem_cons.mpr ⟨trivial, hr⟩)

theorem handleInformational_sound :
    Ensures (handleInformational env rx sa) fun out => ∀ rpc ∈ out.rpcs, rpc.Sound := by
  refine .bind_any fun ⟨sa1, res⟩ => ?_
  cases res with
  | false => exact .pure (by simp)
  | true =>
    refine .bind (Q := fun r => ∀ rpc ∈ r.2, rpc.Sound) ?_ fun r hr => ?_
    · unfold handleDelete
      split
      · exact .pure (by simp)
      · refine .ite (fun _ => .pure (by simp)) fun _ => ?_
        exact .bind (deleteChilds_sound _ sa1) fun r hr => .pure hr
    · refine .ite (fun _ => .pure hr) fun _ => ?_
      exact .bind_any fun _ => .pure hr

/-! ### CREATE_CHILD_SA -/

theorem Rekey.Selected.offered {e : Rekey} (h : e.Selected) :
    Offered { rProposals := e.rProposal, iProposals := e.iProposal, tsi := e.tsi, tsr := e.tsr } :=
  ⟨h, rfl, rfl⟩

theorem rekeyChild_sound (hresp : sa.isInitiator = false) {e : Rekey} (he : e.Selected) :
    Ensures (rekeyChild env saIndex sa e) fun r => ∀ rpc ∈ r.2, rpc.Sound := by
  refine .ite (fun _ => .pure (by simp)) fun _ => ?_
  refine createTunnelAt_sound ?_ 0 true e.kex ?_
  · exact hresp
  · rintro child ⟨⟩
    exact he.offered

theorem addChild_sound (hresp : sa.isInitiator = false) {e : Rekey} (he : e.Selected) :
    Ensures (addChild env saIndex sa e) fun r => ∀ rpc ∈ r.2, rpc.Sound := by
  refine createTunnelAt_sound ?_ _ false e.kex ?_
  · exact hresp
  · intro child hchild
    rw [getElem?_concat_length] at hchild
    cases hchild
    exact he.offered

theorem Sa.Negotiated.of_grown {sa' : Sa} {rnd : Rand} (h : sa.Negotiated)
    (hrole : sa'.isInitiator = sa.isInitiator) (hgrown : Grown rnd sa.isInitiator sa.pending sa'.pending) :
    sa'.Negotiated := by
  intro hresp e he
  rw [hrole] at hresp
  exact (hgrown.child hresp e he).elim (h hresp e) id

theorem answerCreateChild_rpcs (rpcs : List Rpc) (rekeyed : Option Sa) :
    Ensures (answerCreateChild env rx sa rpcs rekeyed) fun out => out.rpcs = rpcs :=
  .bind_any fun _ => .pure rfl

theorem handleCreateChild_sound (hresp : sa.isInitiator = false) (h : sa.Negotiated) :
    Ensures (handleCreateChild env saIndex rx sa) fun out => ∀ rpc ∈ out.rpcs, rpc.Sound := by
  refine .bind (ikev2ProcessCreateChildSaReq_frame sa) fun ⟨sa1, res⟩ ⟨hw1, hgrown1⟩ => ?_
  have hrole : sa1.isInitiator = sa.isInitiator := congrArg Window.isInitiator hw1
  have hsel := h.of_grown hrole hgrown1 (hrole.trans hresp)
  cases res with
  | false => exact .pure (by simp)
  | true =>
    dsimp only
    split
    · next e rest heq =>
      have he := hsel e (.inl (heq ▸ mem_cons_self))
      refine .bind (rekeyChild_sound (hrole.trans hresp) he) fun r hr => ?_
      exact .ite (fun _ => .pure hr) fun _ =>
        (answerCreateChild_rpcs _ _).mono fun out hout => hout ▸ hr
    · next e rest _ heq =>
      have he := hsel e (.inr (heq ▸ mem_cons_self))
      refine .bind (addChild_sound (hrole.trans hresp) he) fun r hr => ?_
      exact .ite (fun _ => .pure hr) fun _ =>
        (answerCreateChild_rpcs _ _).mono fun out hout => hout ▸ hr
    · refine .bind_any fun r => ?_
      exact .ite (fun _ => .pure (by simp)) fun _ =>
        (answerCreateChild_rpcs _ _).mono fun out hout => hout ▸ (by simp)
    · exact .pure (by simp)

/-! ### Every message -/

theorem receiveOnSa_sound (hresp : sa.isInitiator = false) (h : sa.Negotiated) :
    Ensures (receiveOnSa env km saIndex rx sa) fun out => ∀ rpc ∈ out.rpcs, rpc.Sound := by
  by_cases hstop : sa.stops rx.hdr
  · refine .bind (ikev2RetransmitResp_stops hstop) fun ⟨sa', verdict⟩ ⟨_, hverdict⟩ => ?_
    cases verdict with
    | process => exact absurd rfl hverdict
    | resend packet => exact .pure (by simp)
    | ignore => exact .pure (by simp)
  · rw [receiveOnSa_process hstop, Sa.advance_eq]
    refine .ite (fun _ => ?_) fun _ => .ite (fun _ => ?_) fun _ => ?_
    · exact handleIkeAuth_sound hresp
    · exact handleInformational_sound
    · exact handleCreateChild_sound hresp h

theorem Sa.Negotiated.of_empty (h : sa.pending = ⟨[], [], []⟩) : sa.Negotiated := by
  intro _ e he
  have hrekey : sa.rekey = [] := congrArg Pending.rekey h
  have hnewChild : sa.newChild = [] := congrArg Pending.newChild h
  rw [hrekey, hnewChild] at he
  simp at he

theorem receiveOnSa_negotiated (h : sa.Negotiated) :
    Ensures (receiveOnSa env km saIndex rx sa) fun out =>
      out.sa.Negotiated ∧ ∀ new, out.rekeyed = some new → new.Negotiated := by
  refine (receiveOnSa_received sa).mono fun out hout => ⟨h.of_grown hout.isInitiator hout.grown, ?_⟩
  intro new hnew
  exact .of_empty (hout.rekeyed new hnew).pending_eq

end

theorem reachable_negotiated {km : Ikev2Main} {es : List Event} {s : NodeState}
    (hrun : runM nodeStep (init km) es = .ok s) : s.worker.sas.All Sa.Negotiated := by
  refine reachable_all ?_ ?_ ?_ hrun
  · intro env km i rx sa h
    exact receiveOnSa_negotiated h
  · intro env rx
    exact receiveSaInitReq_frame.mono fun r hr => Sa.Negotiated.of_empty hr.1
  · intro env km rx
    exact receiveSaInitResp_frame.mono fun r hr => Sa.Negotiated.of_empty hr.1

variable {a : AddTunnelArgs}

theorem addTunnel_not_mem_deleteTunnels {child : ChildSa} (sa : Sa) :
    addTunnel child a ∉ deleteTunnels sa := by
  simp [deleteTunnels]

theorem finishMessage_addTunnel {w : Worker} {i : ℕ} {o : Outcome} {child : ChildSa}
    (h : addTunnel child a ∈ (finishMessage w i o).2) : addTunnel child a ∈ o.rpcs := by
  have hdead : ∀ w j sa, addTunnel child a ∉ (deleteDead w j sa).2 := by
    intro w j sa
    unfold deleteDead
    split
    · exact addTunnel_not_mem_deleteTunnels sa
    · simp
  rcases mem_append.mp h with h | h
  · rcases mem_append.mp h with h | h
    · obtain ⟨is, -, his⟩ := mem_flatMap.mp h
      exact absurd his (addTunnel_not_mem_deleteTunnels is.2)
    · exact h
  · split at h
    · exact absurd h (hdead _ _ _)
    · exact absurd h (hdead _ _ _)

/-- A child SA is only installed by a message on its SA. -/
theorem ikev2NodeInternal_addTunnel {env : Env} {rx : Rx} {s : NodeState} {child : ChildSa} :
    Ensures (ikev2NodeInternal env rx s) fun out => addTunnel child a ∈ out.rpcs →
      ∀ i sa, s.worker.saByRspi rx.hdr.rspi = some i → s.worker.sas.get? i = some sa →
        ∃ o, receiveOnSa env s.km (BitVec.ofNat 32 i) rx sa = .ok o ∧ addTunnel child a ∈ o.rpcs := by
  refine .ite (fun _ => .pure (by simp)) fun _ => ?_
  refine .ite (fun _ => .ite (fun _ => ?_) fun _ => ?_) fun _ => ?_
  · refine .ite (fun _ => .pure (by simp)) fun _ => ?_
    refine .bind_any fun verdict => ?_
    cases verdict with
    | resend packet => exact .pure (by simp)
    | ignore => exact .pure (by simp)
    | process => exact .bind_any fun r => .bind_any fun w => .pure (by simp)
  · exact .bind_any fun r => .bind_any fun w => .pure (by simp)
  · refine .ite (fun _ => ?_) fun _ => .pure (by simp)
    unfold receiveOnWorker
    split
    · exact .pure (by simp)
    · next i hi =>
      refine .bind (.deref _) fun sa hsa => ?_
      refine .bind (Q := fun o => receiveOnSa env s.km (BitVec.ofNat 32 i) rx sa = .ok o)
        (fun _ h => h) fun o ho => ?_
      refine .pure ?_
      intro hmem i' sa' hi' hsa'
      cases hi.symm.trans hi'
      cases hsa.symm.trans hsa'
      exact ⟨o, ho, finishMessage_addTunnel hmem⟩

section
variable {km : Ikev2Main} {es : List Event} {s : NodeState} {env : Env} {rx : Rx} {out : NodeOutcome} {i : ℕ}
  {sa : Sa} {child : ChildSa} {a : AddTunnelArgs}

/-- Whatever a responder installs in a reachable state was chosen from the offer, and is installed as it
    was chosen exactly if the first offered proposal agrees with the chosen one. -/
theorem responder_installs_chosen_iff (hreach : runM nodeStep (init km) es = .ok s)
    (hfound : s.worker.saByRspi rx.hdr.rspi = some i) (hlive : s.worker.sas.get? i = some sa)
    (hresp : sa.isInitiator = false) (hout : ikev2NodeInternal env rx s = .ok out)
    (hrpc : addTunnel child a ∈ out.rpcs) :
    Chosen child.iProposals child.rProposals ∧ (InstallMatches child a ↔ OfferAgrees child.iProposals) := by
  have hneg := reachable_negotiated hreach i sa hlive
  obtain ⟨o, ho, hmem⟩ := ikev2NodeInternal_addTunnel out hout hrpc i sa hfound hlive
  have hinst : Installed child a := receiveOnSa_sound hresp hneg o ho _ hmem
  exact ⟨hinst.chosen, hinst.matches_iff⟩

/-! ### A handshake -/

def cbc256 : SaTransform := ⟨transformTypeEncr, encrTypeAesCbc, [0x80, 14, 1, 0]⟩

/-- Two proposals for a child SA, of which the first lacks the mandatory ESN transform. -/
def espGcm : SaProposal := ⟨1, protocolEsp, 77, [gcm128, ⟨transformTypeEsn, 0, []⟩]⟩
def espCbcNoEsn : SaProposal :=
  ⟨2, protocolEsp, 66, [cbc256, ⟨transformTypeInteg, integTypeHmacSha196, []⟩]⟩

/-- The body of an SA payload with these proposals. -/
def offerData : List SaProposal → Bytes
  | [] => []
  | p :: ps =>
    let d := proposalData p false (if ps = [] then 0 else 2)
    d.1 ++ d.2 ++ offerData ps

/-- The IKE_AUTH request that follows, with an offer for the child SA. -/
def authMessage (offer : List SaProposal) : Rx :=
  let c := ikev2PayloadAddAuth (ikev2PayloadAddId {} ⟨2, [7]⟩ payloadIdi) ⟨2, replicate 20 0, 0⟩
  let c := ikev2PayloadAddData (ikev2PayloadAddHdr c payloadSa 4) (offerData offer)
  let ts : Ts := ⟨tsIpv4AddrRange, 0, 0, 0xffff, .ip4 0, .ip4 0xffffffff⟩
  let c := ikev2PayloadAddTs (ikev2PayloadAddTs c [ts] payloadTsi) [ts] payloadTsr
  let sk := [c.firstPayloadType, 0] ++ toBe 2 (c.data.length + 29) ++ replicate 8 0 ++ c.data ++ [0] ++
    replicate 16 0
  (Rx.ofBody exchangeIkeAuth hdrFlagInitiator payloadSk sk).withIds 9 1

/-- A message makes the worker install a child SA for its SA at 0, as a responder, and `check` holds. -/
def installs (rx : Rx) (check : ChildSa → AddTunnelArgs → Bool) (s : NodeState) : Bool :=
  decide (s.worker.saByRspi rx.hdr.rspi = some 0) &&
    ((s.worker.sas.get? 0).any fun sa => !sa.isInitiator) &&
      match ikev2NodeInternal Env.zero rx s with
      | .error _ => false
      | .ok out => out.rpcs.any fun
        | .addTunnel child a => check child a
        | _ => false

theorem installs_eq_true {rx : Rx} {check : ChildSa → AddTunnelArgs → Bool} {s : NodeState}
    (h : installs rx check s = true) : ∃ sa out child a,
      s.worker.saByRspi rx.hdr.rspi = some 0 ∧ s.worker.sas.get? 0 = some sa ∧ sa.isInitiator = false ∧
      ikev2NodeInternal Env.zero rx s = .ok out ∧ addTunnel child a ∈ out.rpcs ∧ check child a = true := by
  unfold installs at h
  simp only [Bool.and_eq_true, decide_eq_true_eq, Option.any_eq_true] at h
  obtain ⟨⟨hfound, sa, hlive, hrole⟩, hrest⟩ := h
  split at hrest
  · cases hrest
  · next out hout =>
    obtain ⟨rpc, hmem, hrpc⟩ := any_eq_true.mp hrest
    split at hrpc
    · next child a => exact ⟨sa, out, child, a, hfound, hlive, by simpa using hrole, hout, hmem, hrpc⟩
    · cases hrpc

/-- A single proposal is installed as it was chosen. -/
theorem responder_installs_single : ∃ s out child a,
    runM nodeStep (init pskMain) [.message (spiEnv 9) (saInitMessage hdrFlagInitiator)] = .ok s ∧
      ikev2NodeInternal Env.zero (authMessage [espGcm]) s = .ok out ∧ addTunnel child a ∈ out.rpcs ∧
      InstallMatches child a := by
  obtain ⟨s, hrun, hobs⟩ := exists_of_runM_map (show (runM nodeStep (init pskMain)
    [.message (spiEnv 9) (saInitMessage hdrFlagInitiator)]).map
      (installs (authMessage [espGcm]) fun child _ => decide (child.iProposals = [espGcm])) = .ok true by
        decide +kernel)
  obtain ⟨sa, out, child, a, hfound, hlive, hrole, hout, hrpc, hcheck⟩ := installs_eq_true hobs
  have hagree : OfferAgrees child.iProposals := by
    rw [of_decide_eq_true hcheck]
    exact ⟨by decide, by decide, by decide⟩
  exact ⟨s, out, child, a, hrun, hout, hrpc,
    (responder_installs_chosen_iff hrun hfound hlive hrole hout hrpc).2.mpr hagree⟩

/-- Of two proposals the second is chosen, and the first installed. -/
theorem responder_installs_unchosen : ∃ s out child a,
    runM nodeStep (init pskMain) [.message (spiEnv 9) (saInitMessage hdrFlagInitiator)] = .ok s ∧
      ikev2NodeInternal Env.zero (authMessage [espCbcNoEsn, espGcm]) s = .ok out ∧
      addTunnel child a ∈ out.rpcs ∧ ¬ InstallMatches child a := by
  obtain ⟨s, hrun, hobs⟩ := exists_of_runM_map (show (runM nodeStep (init pskMain)
    [.message (spiEnv 9) (saInitMessage hdrFlagInitiator)]).map
      (installs (authMessage [espCbcNoEsn, espGcm]) fun child a =>
        decide (chosenAlgs child.rProposals = some (.aesGcm128, .none)) && decide (a.encrType = .aesCbc256)) =
      .ok true by decide +kernel)
  obtain ⟨sa, out, child, a, -, -, -, hout, hrpc, hcheck⟩ := installs_eq_true hobs
  refine ⟨s, out, child, a, hrun, hout, hrpc, ?_⟩
  intro hmatch
  simp only [Bool.and_eq_true, decide_eq_true_eq] at hcheck
  have halgs := hmatch.algs
  rw [hcheck.1, hcheck.2] at halgs
  cases halgs

end

end Vpp.Ikev2
