import Vpp.Ikev2.Exchange

/-! What handling a message leaves alone.

    The run properties of an SA speak of a few fields only: its SPI and role, the message-id window with
    the stored response (`Sa.window`), and the child SAs and rekeys being negotiated (`Sa.pending`).
    Each function of the exchange has one lemma that says what it does to them; most do nothing. The
    result is `handleMessage_handled`. -/

namespace Vpp.Ikev2
open Vpp.Schemes Vpp.Vppinfra List

/-- The identity of an SA and its message-id window. -/
structure Window where
  rspi : BitVec 64
  isInitiator : Bool
  lastMsgId : BitVec 32
  lastResPacketData : Bytes

/-- What is being negotiated on an SA. -/
structure Pending where
  rekey : List Rekey
  newChild : List Rekey
  saRekey : List SaRekey

def Sa.window (sa : Sa) : Window := ⟨sa.rspi, sa.isInitiator, sa.lastMsgId, sa.lastResPacketData⟩
def Sa.pending (sa : Sa) : Pending := ⟨sa.rekey, sa.newChild, sa.saRekey⟩

structure Core where
  window : Window
  pending : Pending

def Sa.core (sa : Sa) : Core := ⟨sa.window, sa.pending⟩

theorem core_eq {sa sa' : Sa} (h : sa'.core = sa.core) : sa'.window = sa.window ∧ sa'.pending = sa.pending :=
  Core.mk.inj h

/-! ### Keys and payload loops -/

section
variable {cr : Crypto} {rx : Rx}

theorem ikev2CalcKeysInternal_core (sa : Sa) (skeyseed : Bytes) :
    Ensures (ikev2CalcKeysInternal cr sa skeyseed) fun sa' => sa'.core = sa.core ∧ sa'.state = sa.state := by
  repeat refine .bind_any fun _ => ?_
  exact .pure ⟨rfl, rfl⟩

theorem ikev2CalcKeys_core (sa : Sa) :
    Ensures (ikev2CalcKeys cr sa) fun sa' => sa'.core = sa.core ∧ sa'.state = sa.state :=
  .bind_any fun _ => ikev2CalcKeysInternal_core sa _

theorem ikev2DecryptSkPayload_core (sa : Sa) :
    Ensures (ikev2DecryptSkPayload cr sa rx) fun r => r.1.core = sa.core := by
  rintro ⟨sa', r⟩ h
  obtain ⟨cp, rfl⟩ := ikev2DecryptSkPayload_frame h
  rfl

/-- The state a step of a payload loop goes on with satisfies `P`, the one it leaves with `Q`. -/
def Flow.Holds {σ : Type} (P Q : σ → Prop) : Flow σ → Prop
  | .next s => P s
  | .exit s => Q s

section
variable {σ : Type} {P Q : σ → Prop} {untilEnd : Bool} {malformed : σ → σ}
    {handle : σ → Byte → Bytes → ℕ → Except Fault (Flow σ)}

/-- The invariant rule of a payload loop: `P` is kept from payload to payload, and holds at the end; if
    the loop is left early, `Q` holds. -/
theorem payloadLoop_rule
    (hbody : ∀ s payload mem rlen, P s → Ensures (handle s payload mem rlen) (Flow.Holds P Q))
    (hmal : ∀ s, P s → Q (malformed s)) : ∀ fuel payload mem rlen s, P s →
    Ensures (payloadLoop untilEnd malformed handle fuel payload mem rlen s) fun r =>
      if r.2 = true then P r.1 else Q r.1
  | 0, _, _, _, _, _ => .throw _
  | fuel + 1, payload, mem, rlen, s, hs => by
    rw [payloadLoop]
    refine .ite (fun _ => .pure hs) fun _ => ?_
    refine .bind_any fun check => ?_
    cases check with
    | none => exact .pure (hmal s hs)
    | some plen =>
      refine .bind (hbody s payload mem _ hs) fun flow hflow => ?_
      cases flow with
      | exit s' => exact .pure hflow
      | next s' =>
        exact .bind_any fun _ => payloadLoop_rule hbody hmal fuel _ _ _ s' hflow

/-- Whatever the payload is, `P` is kept. -/
def PayloadKeeps (P : σ → Prop) (handle : σ → Byte → Bytes → ℕ → Except Fault (Flow σ)) : Prop :=
  ∀ s payload mem rlen, P s → Ensures (handle s payload mem rlen) (Flow.Holds P P)

/-- Whatever the body of a payload loop and its error exit keep, the loop keeps. -/
theorem payloadLoop_inv (hbody : PayloadKeeps P handle) (hmal : ∀ s, P s → P (malformed s)) (fuel : ℕ)
    (payload : Byte) (mem : Bytes) (rlen : ℤ) (s : σ) (hs : P s) :
    Ensures (payloadLoop untilEnd malformed handle fuel payload mem rlen s) fun r => P r.1 :=
  (payloadLoop_rule hbody hmal fuel payload mem rlen s hs).mono fun r hr => by
    split at hr <;> exact hr

end

theorem authPayload_core (core : Core) : PayloadKeeps (·.1.core = core) authPayload := by
  rintro ⟨sa, child⟩ payload mem rlen hs
  repeat' first
    | exact .pure hs
    | refine .ite (fun _ => ?_) fun _ => ?_
    | refine .bind_any fun r => ?_
    | cases r

theorem ikev2ProcessAuthReq_core (sa : Sa) :
    Ensures (ikev2ProcessAuthReq cr rx sa) fun r => r.1.core = sa.core := by
  refine .bind (ikev2CalcKeys_core sa) fun sa1 h1 => ?_
  refine .bind (ikev2DecryptSkPayload_core sa1) fun ⟨sa2, opened⟩ h2 => ?_
  have hcore : sa2.core = sa.core := h2.trans h1.1
  cases opened with
  | none => exact .ite (fun _ => .pure hcore) fun _ => .pure hcore
  | some inner =>
    refine .bind_any fun ⟨child, rest⟩ => ?_
    refine .bind (Q := fun r => r.1.1.core = sa.core) ?_ fun r hr => .pure hr
    refine payloadLoop_inv (authPayload_core sa.core) ?_ _ _ _ _ (sa2, child) hcore
    exact fun s hs => hs

theorem informationalPayload_core (core : Core) : PayloadKeeps (·.core = core) informationalPayload := by
  intro sa payload mem rlen hs
  repeat' first
    | exact .pure hs
    | refine .ite (fun _ => ?_) fun _ => ?_
    | refine .bind_any fun r => ?_
    | cases r

theorem ikev2ProcessInformationalReq_core (sa : Sa) :
    Ensures (ikev2ProcessInformationalReq cr rx sa) fun r => r.1.core = sa.core := by
  refine .bind (ikev2DecryptSkPayload_core _) fun ⟨sa2, opened⟩ hcore => ?_
  cases opened with
  | none => exact .pure hcore
  | some inner =>
    exact payloadLoop_inv (informationalPayload_core sa.core) (fun s hs => hs) _ _ _ _ _ hcore

theorem createChildPayload_core (core : Core) : PayloadKeeps (·.sa.core = core) createChildPayload := by
  intro s payload mem rlen hs
  repeat' first
    | exact .pure hs
    | refine .ite (fun _ => ?_) fun _ => ?_
    | refine .bind_any fun r => ?_
    | cases r

end

/-! ### Authentication and tunnels -/

section
variable {env : Env} {km : Ikev2Main} {saIndex : BitVec 32} {rx : Rx} {sa : Sa} {hdr : IkeHeader}

theorem ikev2SelectProfile_core (sa : Sa) (trPrf : TransformData) :
    (ikev2SelectProfile env km sa trPrf).1.core = sa.core := by
  unfold ikev2SelectProfile
  split <;> rfl

theorem ikev2SaAuthRespond_core (sa : Sa) (trPrf : TransformData) (selP : Profile) :
    Ensures (ikev2SaAuthRespond env km sa trPrf selP) fun sa' => sa'.core = sa.core := by
  unfold ikev2SaAuthRespond
  dsimp only
  split
  · exact .throw _
  · exact .pure rfl

theorem ikev2SaAuth_core (sa : Sa) : Ensures (ikev2SaAuth env km sa) fun sa' => sa'.core = sa.core := by
  refine .ite (fun _ => .pure rfl) fun _ => ?_
  refine .bind_any fun trPrf => ?_
  have hsel := @ikev2SelectProfile_core env km sa trPrf
  rcases hres : ikev2SelectProfile env km sa trPrf with ⟨sa', _ | selP⟩ <;> rw [hres] at hsel
  · exact .pure hsel
  · refine .ite (fun _ => .pure hsel) fun _ => ?_
    exact (ikev2SaAuthRespond_core _ trPrf selP).mono fun sa'' h => h.trans hsel

theorem ikev2SaMatchTs_core (sa : Sa) : Ensures (ikev2SaMatchTs km sa) fun sa' => sa'.core = sa.core := by
  unfold ikev2SaMatchTs
  split
  · exact .pure rfl
  · dsimp only
    split
    · exact .throw _
    · split <;> exact .pure rfl

theorem rekeyRemoteSaId_core (sa : Sa) (remoteSaId : BitVec 32) (isRekey : Bool) :
    (rekeyRemoteSaId sa remoteSaId isRekey).1.core = sa.core := by
  unfold rekeyRemoteSaId
  split_ifs <;> rfl

theorem ikev2CreateTunnelInterface_core (sa : Sa) (child : ChildSa) (childIndex : BitVec 32)
    (isRekey kex : Bool) :
    Ensures (ikev2CreateTunnelInterface env sa child saIndex childIndex isRekey kex)
      fun r => r.1.core = sa.core := by
  unfold ikev2CreateTunnelInterface
  split
  · exact .pure rfl
  · refine .bind_any fun ip => ?_
    dsimp only
    split
    · exact .pure rfl
    · refine .bind_any fun child => ?_
      exact .pure (rekeyRemoteSaId_core _ _ _)

theorem createTunnelAt_core (sa : Sa) (i : ℕ) (isRekey kex : Bool) :
    Ensures (createTunnelAt env saIndex sa i isRekey kex) fun r => r.1.core = sa.core := by
  refine .bind_any fun child => ?_
  refine .bind (ikev2CreateTunnelInterface_core sa child _ isRekey kex) fun r hr => ?_
  exact .pure hr

theorem authenticated_core (sa : Sa) :
    Ensures (authenticated env km saIndex sa) fun r => r.1.core = sa.core := by
  refine .ite (fun _ => .pure rfl) fun _ => ?_
  refine .bind (ikev2SaMatchTs_core _) fun sa1 h1 => ?_
  refine .ite (fun _ => .pure h1) fun _ => ?_
  exact (createTunnelAt_core sa1 0 false false).mono fun r hr => hr.trans h1

theorem authenticate_core (sa : Sa) :
    Ensures (authenticate env km rx sa) fun sa' => sa'.core = sa.core := by
  refine .bind (ikev2ProcessAuthReq_core _) fun ⟨sa1, res⟩ h1 => ?_
  cases res with
  | true => exact (ikev2SaAuth_core sa1).mono fun sa2 h2 => h2.trans h1
  | false => exact .pure h1

/-! ### The reply -/

/-- A complete IKE message: the header says how long it is. -/
def ValidPacket (packet : Bytes) : Prop :=
  ∃ (h : IkeHeader) (payload : Bytes), packet = h.bytes ++ payload ∧ h.length.toNat = 28 + payload.length

theorem storedResponse_eq {packet : Bytes} (h : ValidPacket packet) : storedResponse packet = .ok packet := by
  obtain ⟨hdr, payload, rfl, hlen⟩ := h
  have hne : hdr.bytes ++ payload ≠ [] := by
    intro hnil
    have := congrArg length hnil
    simp at this
  have hhdr : slice (hdr.bytes ++ payload) 0 28 = .ok hdr.bytes :=
    slice_of_drop (by rw [drop_zero]) (by simp) (by omega)
  have hread : IkeHeader.ofBytes hdr.bytes = hdr := by
    have := IkeHeader.ofBytes_bytes hdr []
    rwa [append_nil] at this
  have hsub : lengthSub hdr.length.toNat 28 = .ok payload.length :=
    lengthSub_eq_ok.mpr ⟨by omega, by omega⟩
  have hpay : slice (hdr.bytes ++ payload) 28 payload.length = .ok payload :=
    @slice_of_drop _ _ [] _ _ (by rw [drop_left' (by simp), append_nil]) rfl (by simp)
  rw [storedResponse, if_neg hne, hhdr, bind_ok, hread]
  dsimp only
  rw [hsub, bind_ok, hpay]
  rfl

/-- A message is built and stored, or there is none; `w` is the window before. -/
structure Answer (w : Window) (sa : Sa) (reply : Option Bytes) : Prop where
  window_eq : sa.window = { w with lastResPacketData := reply.getD w.lastResPacketData }
  valid : ∀ packet, reply = some packet → ValidPacket packet

theorem Answer.none {w : Window} (h : sa.window = w) : Answer w sa none := ⟨h, by simp⟩

theorem length_le_writeAt (bs : Bytes) (off : ℕ) (new : Bytes) : bs.length ≤ (writeAt bs off new).length := by
  simp only [writeAt, length_append, length_take, length_drop]
  omega

/-- Writing the SK payload into the buffer does not make it shorter. -/
theorem sealSk_length {trEncr : TransformData} {trInteg : Option TransformData} {c : PayloadChain}
    {plen : ℕ} (room : Bytes) :
    Ensures (sealSk env sa hdr trEncr trInteg c plen room)
      fun r => ∀ room', r = some room' → room.length ≤ room'.length := by
  have hwrite : ∀ (off1 off2 off3 : ℕ) (new1 new2 new3 : Bytes),
      room.length ≤ (writeAt (writeAt (writeAt room off1 new1) off2 new2) off3 new3).length := by
    intro off1 off2 off3 new1 new2 new3
    exact ((length_le_writeAt room off1 new1).trans (length_le_writeAt _ off2 new2)).trans
      (length_le_writeAt _ off3 new3)
  refine .ite (fun _ => .pure (by simp)) fun _ => ?_
  refine .ite (fun _ => .pure ?_) fun _ => .bind_any fun tr => .pure ?_
  all_goals
    rintro room' hroom'
    cases hroom'
    exact hwrite _ _ _ _ _ _

theorem sealMessage_answer {c : PayloadChain} (sa : Sa) :
    Ensures (sealMessage env rx hdr sa c) fun r =>
      Answer sa.window r.1 r.2 ∧ r.1.pending = sa.pending ∧ r.1.state = sa.state := by
  refine .bind_any fun trEncr => ?_
  refine .ite (fun _ => .pure ⟨Answer.none rfl, rfl, rfl⟩) fun hroom => ?_
  refine .bind (sealSk_length rx.room) fun r hr => ?_
  cases r with
  | none => exact .pure ⟨Answer.none rfl, rfl, rfl⟩
  | some room =>
    refine .pure ⟨⟨rfl, ?_⟩, rfl, rfl⟩
    rintro packet ⟨⟩
    refine ⟨_, _, rfl, ?_⟩
    have hlen := hr room rfl
    rw [length_take, min_eq_left (by omega)]
    simp only [IkeHeader.finish, BitVec.toNat_ofNat]
    omega

theorem authChain_core (sa : Sa) : Ensures (authChain sa) fun r => r.1.core = sa.core := by
  unfold authChain
  split
  all_goals first
    | exact .pure rfl
    | exact .bind_any fun child => .pure rfl

theorem informationalChain_core (isRequest : Bool) (sa : Sa) :
    (informationalChain isRequest sa).1.core = sa.core := by
  unfold informationalChain
  repeat' split
  all_goals rfl

/-- What is left of the negotiations once the first one is answered. -/
structure Pending.Within (p q : Pending) : Prop where
  rekey : p.rekey ⊆ q.rekey
  newChild : p.newChild ⊆ q.newChild
  saRekey : p.saRekey ⊆ q.saRekey

theorem Pending.Within.refl (p : Pending) : p.Within p := ⟨fun _ h => h, fun _ h => h, fun _ h => h⟩

theorem createChildChain_frame (sa : Sa) : Ensures (createChildChain sa) fun r =>
    r.1.window = sa.window ∧ r.1.pending.Within sa.pending := by
  repeat' first
    | exact .pure ⟨rfl, Pending.Within.refl _⟩
    | refine .ite (fun _ => ?_) fun _ => ?_
    | refine .bind_any fun r => ?_
    | split
  · exact .pure ⟨rfl, vecDel1_subset _ _, fun _ h => h, fun _ h => h⟩
  · exact .pure ⟨rfl, fun _ h => h, vecDel1_subset _ _, fun _ h => h⟩
  · exact .pure ⟨rfl, fun _ h => h, fun _ h => h, vecDel1_subset _ _⟩
  · exact .pure ⟨rfl, fun _ h => h, fun _ h => h, vecDel1_subset _ _⟩

theorem generateIkeAuth_answer (sa : Sa) :
    Ensures (generateIkeAuth env rx hdr sa) fun r =>
      Answer sa.window r.1 r.2 ∧ r.1.pending = sa.pending := by
  refine .bind (authChain_core sa) fun ⟨sa1, c⟩ h1 => ?_
  obtain ⟨hw, hp⟩ := core_eq h1
  cases c with
  | none => exact .pure ⟨Answer.none hw, hp⟩
  | some c => exact (sealMessage_answer sa1).mono fun r hr => ⟨hw ▸ hr.1, hr.2.1.trans hp⟩

theorem generateInformational_answer (sa : Sa) :
    Ensures (generateInformational env rx hdr sa) fun r =>
      Answer sa.window r.1 r.2 ∧ r.1.pending = sa.pending := by
  unfold generateInformational
  have h1 := informationalChain_core hdr.isRequest sa
  rcases hres : informationalChain hdr.isRequest sa with ⟨sa1, _ | c⟩ <;> rw [hres] at h1
  · exact .pure ⟨Answer.none (core_eq h1).1, (core_eq h1).2⟩
  · obtain ⟨hw, hp⟩ := core_eq h1
    exact (sealMessage_answer sa1).mono fun r hr => ⟨hw ▸ hr.1, hr.2.1.trans hp⟩

theorem generateCreateChild_answer (sa : Sa) :
    Ensures (generateCreateChild env rx hdr sa) fun r =>
      Answer sa.window r.1 r.2 ∧ r.1.pending.Within sa.pending := by
  refine .bind (createChildChain_frame sa) fun ⟨sa1, c⟩ ⟨hw, hp⟩ => ?_
  exact (sealMessage_answer sa1).mono fun r hr => ⟨hw ▸ hr.1, hr.2.1 ▸ hp⟩

/-! ### The exchanges -/

theorem handleIkeAuth_answer (sa : Sa) :
    Ensures (handleIkeAuth env km saIndex rx sa) fun out =>
      Answer { sa.window with lastMsgId := if sa.isInitiator then ~~~0 else sa.lastMsgId }
        out.sa out.reply ∧ out.sa.pending = sa.pending ∧ out.rekeyed = none := by
  refine .bind (authenticate_core sa) fun sa1 h1 => ?_
  refine .bind (authenticated_core sa1) fun ⟨sa2, rpcs⟩ h2 => ?_
  obtain ⟨hw, hp⟩ := core_eq (h2.trans h1)
  have hini : sa2.isInitiator = sa.isInitiator := congrArg Window.isInitiator hw
  refine .ite (fun h => ?_) fun h => ?_
  · rw [if_pos (hini ▸ h), ← hw]
    exact .pure ⟨Answer.none rfl, hp, rfl⟩
  · have hmsgid : sa2.lastMsgId = sa.lastMsgId := congrArg Window.lastMsgId hw
    rw [if_neg (hini ▸ h), ← hmsgid, ← hw]
    refine .bind (generateIkeAuth_answer sa2) fun r hr => ?_
    exact .pure ⟨hr.1, hr.2.trans hp, rfl⟩

theorem deleteChilds_core : ∀ (ds : List Delete) (sa : Sa),
    Ensures (deleteChilds ds sa) fun r => r.1.core = sa.core
  | [], sa => .pure rfl
  | d :: ds, sa => by
    rw [deleteChilds]
    split
    · exact deleteChilds_core ds sa
    · refine .bind_any fun child => .bind_any fun spi => ?_
      refine .bind (deleteChilds_core ds _) fun r hr => ?_
      exact .pure hr

theorem handleDelete_core (sa : Sa) : Ensures (handleDelete sa) fun r => r.1.core = sa.core := by
  unfold handleDelete
  split
  · exact .pure rfl
  · refine .ite (fun _ => .pure rfl) fun _ => ?_
    refine .bind (deleteChilds_core _ sa) fun r hr => ?_
    exact .pure hr

theorem handleInformational_answer (sa : Sa) :
    Ensures (handleInformational env rx sa) fun out =>
      Answer sa.window out.sa out.reply ∧ out.sa.pending = sa.pending ∧ out.rekeyed = none := by
  refine .bind (ikev2ProcessInformationalReq_core sa) fun ⟨sa1, res⟩ h1 => ?_
  cases res with
  | false => exact .pure ⟨Answer.none (core_eq h1).1, (core_eq h1).2, rfl⟩
  | true =>
    refine .bind (handleDelete_core sa1) fun ⟨sa2, rpcs⟩ h2 => ?_
    obtain ⟨hw, hp⟩ := core_eq (h2.trans h1)
    refine .ite (fun _ => .pure ⟨Answer.none hw, hp, rfl⟩) fun _ => ?_
    refine .bind (generateInformational_answer sa2) fun r hr => ?_
    exact .pure ⟨hw ▸ hr.1, hr.2.trans hp, rfl⟩

/-! ### Negotiations -/

/-- A child SA under negotiation: what was chosen comes from the offer, or nothing was chosen. -/
def Rekey.Selected (e : Rekey) : Prop := e.rProposal = [] ∨ Chosen e.iProposal e.rProposal

/-- How negotiations come about. On the responder a new entry is chosen from its offer; a rekey of the
    IKE SA that goes through has the random SPI of the message that asked for it. -/
structure Grown (rnd : Rand) (isInitiator : Bool) (p q : Pending) : Prop where
  child : isInitiator = false → ∀ e, e ∈ q.rekey ∨ e ∈ q.newChild →
    (e ∈ p.rekey ∨ e ∈ p.newChild) ∨ e.Selected
  saRekey : ∀ e ∈ q.saRekey, e ∈ p.saRekey ∨ e.notifyType ≠ 0 ∨ e.rspi = rnd.proposalSpi

section
variable {rnd : Rand} {isInitiator : Bool} {p q r : Pending}

theorem Grown.of_within (h : q.Within p) : Grown rnd isInitiator p q where
  child _ _ he := .inl (he.imp (fun he => h.rekey he) fun he => h.newChild he)
  saRekey _ he := .inl (h.saRekey he)

theorem Grown.of_eq (h : q = p) : Grown rnd isInitiator p q := .of_within (h ▸ .refl p)

theorem Grown.addRekey {e : Rekey} (hq : q = p) (he : e.Selected) :
    Grown rnd isInitiator p { q with rekey := q.rekey ++ [e] } := by
  subst hq
  refine ⟨fun _ e' hmem => ?_, fun _ h => .inl h⟩
  simp only [mem_append, mem_singleton] at hmem
  rcases hmem with (hmem | rfl) | hmem
  · exact .inl (.inl hmem)
  · exact .inr he
  · exact .inl (.inr hmem)

theorem Grown.addNewChild {e : Rekey} (hq : q = p) (he : e.Selected) :
    Grown rnd isInitiator p { q with newChild := q.newChild ++ [e] } := by
  subst hq
  refine ⟨fun _ e' hmem => ?_, fun _ h => .inl h⟩
  simp only [mem_append, mem_singleton] at hmem
  rcases hmem with hmem | hmem | rfl
  · exact .inl (.inl hmem)
  · exact .inl (.inr hmem)
  · exact .inr he

theorem Grown.trans (h : Grown rnd isInitiator p q) (h' : Grown rnd isInitiator q r) :
    Grown rnd isInitiator p r where
  child hini e he := (h'.child hini e he).elim (h.child hini e) .inr
  saRekey e he := (h'.saRekey e he).elim (h.saRekey e) .inr

end

variable (cr : Crypto)

theorem ikev2GenerateDh_core (rnd : Rand) (sa : Sa) (t : TransformData) :
    (ikev2GenerateDh cr rnd sa t).core = sa.core := by
  unfold ikev2GenerateDh
  split <;> rfl

/-- Negotiating a child SA touches only nonces and Diffie-Hellman data of the SA. -/
theorem ikev2ProcessCreateChildSaRekey_frame (rnd : Rand) (sa : Sa) (s : CreateChild)
    (nonce : Bytes) (rekey : Rekey) :
    (ikev2ProcessCreateChildSaRekey cr rnd sa s nonce rekey).1.core = sa.core ∧
      (ikev2ProcessCreateChildSaRekey cr rnd sa s nonce rekey).2.Selected := by
  unfold ikev2ProcessCreateChildSaRekey
  dsimp only
  split
  · exact ⟨rfl, .inr ⟨_, rfl⟩⟩
  · split
    · exact ⟨rfl, .inl rfl⟩
    · split
      · exact ⟨rfl, .inl rfl⟩
      · exact ⟨ikev2GenerateDh_core .., .inr ⟨_, rfl⟩⟩

theorem ikev2ProcessSaRekey_rspi (rnd : Rand) (s : CreateChild) (nonce : Bytes) :
    (ikev2ProcessSaRekey cr rnd s nonce).notifyType ≠ 0 ∨
      (ikev2ProcessSaRekey cr rnd s nonce).rspi = rnd.proposalSpi := by
  unfold ikev2ProcessSaRekey
  dsimp only
  split
  · exact .inl (by decide)
  · split
    · next hsel =>
      split
      · exact .inl (by decide)
      · exact .inr (spi_of_mem_select_ike (hsel ▸ mem_cons_self))
    · exact .inl (by decide)

theorem createChildInitiator_frame (rnd : Rand) (s : CreateChild) (proposal : SaProposal) (nonce : Bytes) :
    Ensures (createChildInitiator rnd s proposal nonce) fun r =>
      r.1.window = s.sa.window ∧ Grown rnd true s.sa.pending r.1.pending := by
  unfold createChildInitiator
  split
  · exact .pure ⟨rfl, .of_eq rfl⟩
  · split
    · exact .throw _
    · exact .pure ⟨rfl, nofun, fun _ he => .inl he⟩

theorem createChildResponder_frame (rnd : Rand) (s : CreateChild) (proposal : SaProposal)
    (nonce : Bytes) :
    Ensures (createChildResponder cr rnd s proposal nonce) fun r =>
      r.1.window = s.sa.window ∧ Grown rnd s.sa.isInitiator s.sa.pending r.1.pending := by
  have hframe := fun rekey => ikev2ProcessCreateChildSaRekey_frame cr rnd s.sa s nonce rekey
  unfold createChildResponder
  split
  · split
    · exact .pure ⟨rfl, .of_eq rfl⟩
    · refine .ite (fun _ => ?_) fun _ => ?_
      · exact .pure ⟨rfl, .addRekey rfl (.inl rfl)⟩
      · refine .pure ⟨(core_eq (hframe _).1).1, ?_⟩
        exact .addRekey (core_eq (hframe _).1).2 (hframe _).2
  · refine .ite (fun _ => ?_) fun _ => ?_
    · refine .ite (fun _ => .pure ⟨rfl, .of_eq rfl⟩) fun _ => ?_
      refine .pure ⟨rfl, fun _ _ he => .inl he, ?_⟩
      intro e he
      rcases mem_append.mp he with he | he
      · exact .inl he
      · rw [mem_singleton.mp he]
        exact .inr (ikev2ProcessSaRekey_rspi cr rnd s nonce)
    · refine .pure ⟨(core_eq (hframe _).1).1, ?_⟩
      exact .addNewChild (core_eq (hframe _).1).2 (hframe _).2

theorem ikev2ProcessCreateChildSaReq_frame {cr : Crypto} {rnd : Rand} (sa : Sa) :
    Ensures (ikev2ProcessCreateChildSaReq cr rnd rx sa) fun r =>
      r.1.window = sa.window ∧ Grown rnd sa.isInitiator sa.pending r.1.pending := by
  refine .bind (ikev2DecryptSkPayload_core sa) fun ⟨sa1, opened⟩ h1 => ?_
  cases opened with
  | none => exact .pure ⟨(core_eq h1).1, .of_eq (core_eq h1).2⟩
  | some inner =>
    refine .bind (Q := fun r => r.1.sa.core = sa.core) ?_ fun ⟨s, res⟩ hs => ?_
    · exact payloadLoop_inv (createChildPayload_core sa.core) (fun s hs => hs) _ _ _ _ _ h1
    · obtain ⟨hw, hp⟩ := core_eq hs
      have hrole : s.sa.isInitiator = sa.isInitiator := congrArg Window.isInitiator hw
      cases res with
      | false => exact .pure ⟨hw, .of_eq hp⟩
      | true =>
        dsimp only
        split
        · refine .ite (fun _ => .pure ⟨hw, .of_eq hp⟩) fun _ => ?_
          refine .ite (fun hini => ?_) fun _ => ?_
          · rw [← hrole, hini, ← hp]
            exact (createChildInitiator_frame rnd s _ _).mono fun r hr => ⟨hr.1.trans hw, hr.2⟩
          · rw [← hrole, ← hp]
            exact (createChildResponder_frame cr rnd s _ _).mono fun r hr => ⟨hr.1.trans hw, hr.2⟩
        · exact .pure ⟨hw, .of_eq hp⟩

theorem rekeyChild_core (sa : Sa) (rekey : Rekey) :
    Ensures (rekeyChild env saIndex sa rekey) fun r => r.1.core = sa.core := by
  refine .ite (fun _ => .pure rfl) fun _ => ?_
  exact createTunnelAt_core _ 0 true rekey.kex

theorem addChild_core (sa : Sa) (rekey : Rekey) :
    Ensures (addChild env saIndex sa rekey) fun r => r.1.core = sa.core :=
  createTunnelAt_core _ _ false rekey.kex

/-- The SA that a rekey creates starts without negotiations, under an SPI chosen when the rekey was
    asked for. -/
structure Rekeyed (rnd : Rand) (pending : Pending) (new : Sa) : Prop where
  pending_eq : new.pending = ⟨[], [], []⟩
  rspi : new.rspi = rnd.proposalSpi ∨ ∃ e ∈ pending.saRekey, e.notifyType = 0 ∧ new.rspi = e.rspi

theorem ikev2CompleteSaRekey_frame (sa : Sa) (saRekey : SaRekey) :
    Ensures (ikev2CompleteSaRekey env sa saRekey) fun r =>
      (r.1.pending = ⟨[], [], []⟩ ∧ r.1.rspi = saRekey.rspi) ∧ r.2.core = sa.core := by
  refine .bind (Q := fun new => new.pending = ⟨[], [], []⟩ ∧ new.rspi = saRekey.rspi) ?_
    fun new hnew => .pure ⟨hnew, rfl⟩
  refine .bind_any fun trPrf => ?_
  exact (ikev2CalcKeysInternal_core _ _).mono fun new hnew =>
    ⟨congrArg Core.pending hnew.1, congrArg (fun core => core.window.rspi) hnew.1⟩

theorem rekeySa_frame (sa : Sa) (saRekey : SaRekey) :
    Ensures (rekeySa env sa saRekey) fun r => r.1.core = sa.core ∧
      ∀ new, r.2 = some new →
        saRekey.notifyType = 0 ∧ new.pending = ⟨[], [], []⟩ ∧ new.rspi = saRekey.rspi := by
  refine .ite (fun _ => .pure ⟨rfl, by simp⟩) fun hok => ?_
  refine .bind (ikev2CompleteSaRekey_frame sa saRekey) fun r hr => ?_
  refine .pure ⟨hr.2, ?_⟩
  rintro new ⟨⟩
  exact ⟨not_not.mp hok, hr.1⟩

/-- What a handled message does to its SA; `w` is the window with the changes of the exchange. -/
structure Handled (rnd : Rand) (w : Window) (sa : Sa) (out : Outcome) : Prop where
  answer : Answer w out.sa out.reply
  grown : Grown rnd sa.isInitiator sa.pending out.sa.pending
  rekeyed : ∀ new, out.rekeyed = some new → Rekeyed rnd sa.pending new

theorem Handled.of_frame {rnd : Rand} {w : Window} {out : Outcome}
    (h : Answer w out.sa out.reply ∧ out.sa.pending = sa.pending ∧ out.rekeyed = none) :
    Handled rnd w sa out :=
  ⟨h.1, .of_eq h.2.1, by rw [h.2.2]; simp⟩

theorem answerCreateChild_handled {rnd : Rand} {sa' : Sa} (hw : sa'.window = sa.window)
    (hgrown : Grown rnd sa.isInitiator sa.pending sa'.pending) (rpcs : List Rpc)
    {rekeyed : Option Sa} (hrekeyed : ∀ new, rekeyed = some new → Rekeyed rnd sa.pending new) :
    Ensures (answerCreateChild env rx sa' rpcs rekeyed) (Handled rnd sa.window sa) := by
  refine .bind (generateCreateChild_answer sa') fun r hr => ?_
  exact .pure ⟨hw ▸ hr.1, hgrown.trans (.of_within hr.2), hrekeyed⟩

theorem handleCreateChild_handled (sa : Sa) :
    Ensures (handleCreateChild env saIndex rx sa) (Handled env.rnd sa.window sa) := by
  refine .bind (ikev2ProcessCreateChildSaReq_frame sa) fun ⟨sa1, res⟩ ⟨hw1, hgrown1⟩ => ?_
  cases res with
  | false => exact .pure ⟨Answer.none hw1, hgrown1, by simp⟩
  | true =>
    dsimp only at hw1 hgrown1 ⊢
    split
    · refine .bind (rekeyChild_core sa1 _) fun ⟨sa2, rpcs⟩ h2 => ?_
      have hw : sa2.window = sa.window := (core_eq h2).1.trans hw1
      have hgrown := hgrown1.trans (.of_eq (core_eq h2).2)
      refine .ite (fun _ => .pure ⟨Answer.none hw, ?_, by simp⟩) fun _ =>
        answerCreateChild_handled hw hgrown rpcs (by simp)
      exact hgrown.trans (.of_within ⟨nil_subset _, fun _ h => h, fun _ h => h⟩)
    · refine .bind (addChild_core sa1 _) fun ⟨sa2, rpcs⟩ h2 => ?_
      have hw : sa2.window = sa.window := (core_eq h2).1.trans hw1
      have hgrown := hgrown1.trans (.of_eq (core_eq h2).2)
      exact .ite (fun _ => .pure ⟨Answer.none hw, hgrown, by simp⟩) fun _ =>
        answerCreateChild_handled hw hgrown rpcs (by simp)
    · next saRekey rest _ _ hsaRekey =>
      refine .bind (rekeySa_frame sa1 saRekey) fun ⟨sa2, rekeyed⟩ ⟨h2, hnew⟩ => ?_
      have hw : sa2.window = sa.window := (core_eq h2).1.trans hw1
      have hgrown := hgrown1.trans (.of_eq (core_eq h2).2)
      have hrekeyed : ∀ new, rekeyed = some new → Rekeyed env.rnd sa.pending new := by
        intro new hsome
        obtain ⟨hok, hpending, hrspi⟩ := hnew new hsome
        refine ⟨hpending, ?_⟩
        have hmem : saRekey ∈ sa1.pending.saRekey := by
          show saRekey ∈ sa1.saRekey
          rw [hsaRekey]
          exact mem_cons_self
        rcases hgrown1.saRekey saRekey hmem with hold | hnotify | hspi
        · exact .inr ⟨saRekey, hold, hok, hrspi⟩
        · exact absurd hok hnotify
        · exact .inl (hrspi.trans hspi)
      refine .ite (fun _ => .pure ⟨Answer.none hw, ?_, hrekeyed⟩) fun _ =>
        answerCreateChild_handled hw hgrown [] hrekeyed
      exact hgrown.trans (.of_within ⟨fun _ h => h, fun _ h => h, nil_subset _⟩)
    · exact .pure ⟨Answer.none hw1, hgrown1, by simp⟩

/-- Whatever the message, the SA keeps its SPI and role, and the reply is stored; `last_msg_id` changes
    only when an initiator takes up an IKE_AUTH message. -/
theorem handleMessage_handled (sa : Sa) :
    Ensures (handleMessage env km saIndex rx sa) (Handled env.rnd
      { sa.window with lastMsgId :=
          if rx.hdr.exchange = exchangeIkeAuth ∧ sa.isInitiator then ~~~0 else sa.lastMsgId } sa) := by
  refine .ite (fun h => ?_) fun h => ?_
  · simp only [h, true_and]
    exact (handleIkeAuth_answer sa).mono fun _ => Handled.of_frame
  · simp only [h, false_and, if_false]
    refine .ite (fun _ => ?_) fun _ => handleCreateChild_handled sa
    exact (handleInformational_answer sa).mono fun _ => Handled.of_frame

/-! ### The message-id window -/

/-- The SA after a message got through the window. -/
def Sa.advance (sa : Sa) (hdr : IkeHeader) : Sa :=
  if hdr.isResponse = false ∧ sa.isNewReq hdr.msgid then { sa with lastMsgId := hdr.msgid } else sa

/-- Apart from `last_msg_id`, the window changes nothing. -/
theorem Sa.advance_eq (sa : Sa) (hdr : IkeHeader) :
    sa.advance hdr = { sa with lastMsgId := (sa.advance hdr).lastMsgId } := by
  unfold Sa.advance
  split <;> rfl

/-- The window holds a message back: a request that is not new. -/
def Sa.stops (sa : Sa) (hdr : IkeHeader) : Prop := hdr.isResponse = false ∧ ¬ sa.isNewReq hdr.msgid
deriving Decidable

theorem ikev2RetransmitResp_process (h : ¬ sa.stops hdr) :
    ikev2RetransmitResp sa hdr = .ok (sa.advance hdr, .process) := by
  unfold ikev2RetransmitResp Sa.advance
  cases hresp : hdr.isResponse with
  | true => simp; rfl
  | false =>
    have hnew : sa.isNewReq hdr.msgid := by
      by_contra hnew
      exact h ⟨hresp, hnew⟩
    simp [hnew]; rfl

theorem ikev2RetransmitResp_stops (h : sa.stops hdr) :
    Ensures (ikev2RetransmitResp sa hdr) fun r => r.1 = sa ∧ r.2 ≠ .process := by
  obtain ⟨hresp, hnew⟩ := h
  unfold ikev2RetransmitResp
  rw [if_neg (by simp [hresp]), if_neg hnew]
  refine .ite (fun _ => ?_) fun _ => .pure ⟨rfl, by simp⟩
  exact .bind_any fun packet => .pure ⟨rfl, by simp⟩

theorem receiveOnSa_process (h : ¬ sa.stops rx.hdr) :
    receiveOnSa env km saIndex rx sa = handleMessage env km saIndex rx (sa.advance rx.hdr) := by
  rw [receiveOnSa, ikev2RetransmitResp_process h]
  rfl

/-- A message held back leaves the SA as it is. -/
theorem receiveOnSa_stops (h : sa.stops rx.hdr) :
    Ensures (receiveOnSa env km saIndex rx sa) fun out =>
      out.sa = sa ∧ out.initialContact = false ∧ out.rekeyed = none := by
  refine .bind (ikev2RetransmitResp_stops h) fun ⟨sa', verdict⟩ ⟨hsa, hverdict⟩ => ?_
  cases verdict with
  | process => exact absurd rfl hverdict
  | resend packet => exact .pure ⟨hsa, rfl, rfl⟩
  | ignore => exact .pure ⟨hsa, rfl, rfl⟩

/-- What any message does to its SA: SPI and role stay, negotiations grow, a rekey brings a new SA. -/
structure Received (rnd : Rand) (sa : Sa) (out : Outcome) : Prop where
  rspi : out.sa.rspi = sa.rspi
  isInitiator : out.sa.isInitiator = sa.isInitiator
  grown : Grown rnd sa.isInitiator sa.pending out.sa.pending
  rekeyed : ∀ new, out.rekeyed = some new → Rekeyed rnd sa.pending new

theorem receiveOnSa_received (sa : Sa) :
    Ensures (receiveOnSa env km saIndex rx sa) (Received env.rnd sa) := by
  by_cases h : sa.stops rx.hdr
  · refine (receiveOnSa_stops h).mono fun out hout => ?_
    obtain ⟨hsa, -, hrekeyed⟩ := hout
    exact ⟨by rw [hsa], by rw [hsa], .of_eq (by rw [hsa]), by rw [hrekeyed]; simp⟩
  · rw [receiveOnSa_process h, Sa.advance_eq]
    refine (handleMessage_handled _).mono fun out hout => ?_
    exact ⟨congrArg Window.rspi hout.answer.window_eq, congrArg Window.isInitiator hout.answer.window_eq,
      hout.grown, hout.rekeyed⟩

end

end Vpp.Ikev2
