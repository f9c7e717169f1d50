import Vpp.Schemes.Pool
import Vpp.Schemes.Run
import Vpp.Ikev2.Exchange

/-! `ikev2_node_internal`: a worker's table of IKE SAs under a sequence of received messages.

    A worker keeps its SAs in the pool `ptd->sas` and finds them by the responder SPI through the hash
    `sa_by_rspi`. An SA of IKE_SA_INIT is built on the stack and copied into the pool at the end. -/

namespace Vpp.Ikev2
open Vpp.Schemes Function

/-- `ikev2_main_per_thread_data_t`. -/
structure Worker where
  sas : Pool Sa
  saByRspi : BitVec 64 → Option ℕ

/-- The worker and what it shares with the main thread. -/
structure NodeState where
  worker : Worker
  km : Ikev2Main

/-- A message arrives, or the main thread changes what it shares with the worker (profiles, SAs
    initiated or given up). -/
inductive Event where
  | message (env : Env) (rx : Rx)
  | main (km : Ikev2Main)

/-- The state after a message, the message sent and the requests to the main thread. -/
structure NodeOutcome where
  state : NodeState
  reply : Option Bytes := none
  rpcs : List Rpc := []

namespace Worker

/-- `pool_get`, the copy into the pool and `hash_set`. -/
def add (w : Worker) (sa : Sa) : Worker where
  sas := (w.sas.alloc sa).1
  saByRspi := update w.saByRspi sa.rspi (some (w.sas.alloc sa).2)

/-- `ikev2_delete_sa` on an SA of the pool. -/
def ikev2DeleteSa (w : Worker) (i : ℕ) (sa : Sa) : Worker :=
  if (w.saByRspi sa.rspi).isSome then
    { sas := w.sas.put i, saByRspi := update w.saByRspi sa.rspi none }
  else w

/-- `ikev2_delete_sa` on an SA on the stack, which must not be found in the hash: `pool_put` would
    free a slot for an object that is not in the pool. -/
def ikev2DeleteStackSa (w : Worker) (sa : Sa) : Except Fault Worker :=
  if (w.saByRspi sa.rspi).isSome then throw .wildFree else return w

/-- `ikev2_initial_contact_cleanup`: the other SAs with the same identities. -/
def sameIdentities (w : Worker) (sa : Sa) : List (ℕ × Sa) :=
  w.sas.toList.filter fun is =>
    ikev2IsIdEqual is.2.iId sa.iId && ikev2IsIdEqual is.2.rId sa.rId && decide (sa.rspi ≠ is.2.rspi)

def ikev2InitialContactCleanup (w : Worker) (sa : Sa) : Worker :=
  (w.sameIdentities sa).foldl (fun w is => w.ikev2DeleteSa is.1 is.2) w

/-- The rekeyed SA takes the slot, the old SA a new one. -/
def swapRekeyed (w : Worker) (i : ℕ) (saOld saNew : Sa) : Worker where
  sas := (w.sas.alloc saOld).1.set i saNew
  saByRspi := update
    (update w.saByRspi saOld.rspi (some (w.sas.alloc saOld).2)) saNew.rspi (some i)

end Worker

/-- The tunnels of an SA that is deleted. -/
def deleteTunnels (sa : Sa) : List Rpc :=
  sa.childs.map fun c => .delTunnel (ikev2DeleteTunnelInterface sa c)

/-! ### Messages on an existing SA -/

/-- The end of `ikev2_node_internal`: an SA in one of the two final states is deleted. -/
def deleteDead (w : Worker) (i : ℕ) (sa : Sa) : Worker × List Rpc :=
  if sa.isDead then (w.ikev2DeleteSa i sa, deleteTunnels sa) else (w, [])

/-- What handling a message on the SA at `i` does to the worker: the SA is written back, SAs with the
    same identities are deleted, a rekeyed SA is swapped in, the SA itself may be deleted. -/
def finishMessage (w : Worker) (i : ℕ) (out : Outcome) : Worker × List Rpc :=
  let w := { w with sas := w.sas.set i out.sa }
  let others := if out.initialContact then w.sameIdentities out.sa else []
  let w := if out.initialContact then w.ikev2InitialContactCleanup out.sa else w
  let (w, dels) :=
    match out.rekeyed with
    | none => deleteDead w i out.sa
    | some saNew => deleteDead (w.swapRekeyed i out.sa saNew) (w.sas.alloc out.sa).2 out.sa
  (w, others.flatMap (fun is => deleteTunnels is.2) ++ out.rpcs ++ dels)

/-- IKE_AUTH, INFORMATIONAL and CREATE_CHILD_SA. -/
def receiveOnWorker (env : Env) (rx : Rx) (s : NodeState) : Except Fault NodeOutcome :=
  match s.worker.saByRspi rx.hdr.rspi with
  | none => return { state := s }
  | some i => do
    let sa ← deref (s.worker.sas.get? i)
    let out ← receiveOnSa env s.km (BitVec.ofNat 32 i) rx sa
    let (w, rpcs) := finishMessage s.worker i out
    return { state := { s with worker := w }, reply := out.reply, rpcs := rpcs }

/-! ### IKE_SA_INIT -/

/-- The buffer behind the IKE header: the body, and what lies behind the message. -/
def Rx.buffer (rx : Rx) : Bytes := rx.body ++ rx.room.drop rx.body.length

/-- The walk of `ikev2_retransmit_sa_init_one`: not a repeat, ignore, or resend. The bound of the walk
    is the length of the whole message, header included. -/
def retransmitSaInitWalk (env : Env) (rx : Rx) (sa : Sa) : ℕ → Byte → ℕ → Except Fault Retransmit
  | 0, _, _ => throw .divergence
  | fuel + 1, payload, p => do
    if p ≥ rx.message.length ∨ payload = payloadNone then return .process
    let ikep ← slice rx.buffer p 4
    let plen := fieldBe ikep 2 2
    if plen < 4 then return .ignore
    if payload = payloadNonce then
      let nonce ← slice rx.buffer (p + 4) (plen - 4)
      if !clibMemcmp (readFrom sa.iNonce (env.following 0) (plen - 4)) nonce (plen - 4) then
        if sa.state = .saInit then return .resend (← storedResponse sa.lastSaInitResPacketData)
        return .ignore
    retransmitSaInitWalk env rx sa fuel (field8 ikep 0) (p + plen)

def ikev2RetransmitSaInitOne (env : Env) (rx : Rx) (sa : Sa) : Except Fault Retransmit :=
  if sa.ispi ≠ rx.hdr.ispi ∨ sa.iaddr ≠ rx.src ∨ sa.raddr ≠ rx.dst then return .process
  else retransmitSaInitWalk env rx sa (rx.message.length + 1) rx.hdr.nextpayload 0

/-- `ikev2_retransmit_sa_init`: the first SA of the pool that knows the request. -/
def ikev2RetransmitSaInit (env : Env) (rx : Rx) : List (ℕ × Sa) → Except Fault Retransmit
  | [] => return .process
  | (_, sa) :: rest => do
    match ← ikev2RetransmitSaInitOne env rx sa with
    | .process => ikev2RetransmitSaInit env rx rest
    | r => return r

/-- The stack SA at the end of IKE_SA_INIT: kept, dropped, or deleted. -/
def finishSaInit (w : Worker) (sa : Sa) (kept : Sa) : Except Fault Worker :=
  if sa.state = .saInit then return w.add kept
  else if sa.isDead then w.ikev2DeleteStackSa sa
  else return w

/-- An IKE_SA_INIT request. -/
def receiveSaInitReqOnWorker (env : Env) (rx : Rx) (s : NodeState) : Except Fault NodeOutcome := do
  if rx.hdr.rspi ≠ 0 then return { state := s }
  match ← ikev2RetransmitSaInit env rx s.worker.sas.toList with
  | .resend packet => return { state := s, reply := some packet }
  | .ignore => return { state := s }
  | .process =>
    let (sa, reply) ← receiveSaInitReq env rx
    let w ← finishSaInit s.worker sa { sa with profileIndex := ~~~0 }
    return { state := { s with worker := w }, reply := reply }

/-- The pending SA after its response was taken up: what the new SA took over is gone. -/
def Sa.responseReceived (sai : Sa) : Sa :=
  { sai with
    initResponseReceived := true, iNonce := [], iDhData := [], dhPrivateKey := []
    iId := { sai.iId with data := [] }, rId := { sai.rId with data := [] }
    iAuth := { sai.iAuth with data := [], key := 0 }, lastSaInitReqPacketData := [], childs := [] }

/-- Mark the first pending SA with an SPI. -/
def markReceived (ispi : BitVec 64) : List Sa → List Sa
  | [] => []
  | sai :: rest => if sai.ispi = ispi then sai.responseReceived :: rest else sai :: markReceived ispi rest

/-- An IKE_SA_INIT response. -/
def receiveSaInitRespOnWorker (env : Env) (rx : Rx) (s : NodeState) : Except Fault NodeOutcome := do
  let (sa, request, received) ← receiveSaInitResp env s.km rx
  let km := if received then { s.km with sais := markReceived sa.ispi s.km.sais } else s.km
  let w ← finishSaInit s.worker sa sa
  return { state := ⟨w, km⟩, reply := request }

/-- `ikev2_node_internal` on one message. -/
def ikev2NodeInternal (env : Env) (rx : Rx) (s : NodeState) : Except Fault NodeOutcome :=
  if rx.hdr.length.toNat ≠ rx.message.length ∨ rx.hdr.version ≠ ikeVersion2 then return { state := s }
  else if rx.hdr.exchange = exchangeSaInit then
    if rx.hdr.isInitiator then receiveSaInitReqOnWorker env rx s else receiveSaInitRespOnWorker env rx s
  else if rx.hdr.exchange = exchangeIkeAuth ∨ rx.hdr.exchange = exchangeInformational ∨
      rx.hdr.exchange = exchangeCreateChildSa then receiveOnWorker env rx s
  else return { state := s }

/-- One step of the worker. -/
def nodeStep (s : NodeState) : Event → Except Fault NodeState
  | .message env rx => do return (← ikev2NodeInternal env rx s).state
  | .main km => return { s with km := km }

/-- A worker without SAs. -/
def NodeState.init (km : Ikev2Main) : NodeState := ⟨⟨Pool.empty, fun _ => none⟩, km⟩

/-- A worker with one SA. -/
def NodeState.ofSa (km : Ikev2Main) (sa : Sa) : NodeState := ⟨(NodeState.init km).worker.add sa, km⟩

def spiEnv (spi : BitVec 64) : Env := { Env.zero with rnd := { Rand.zero with spi := spi } }

/-- An IKE_SA_INIT message. -/
def saInitMessage (flags : Byte) : Rx :=
  let c := ikev2PayloadAddKe (ikev2PayloadAddSa {} [ikeGcm] false) 1 [1, 2, 3, 4]
  let c := ikev2PayloadAddNonce c (List.replicate 16 5)
  .ofBody exchangeSaInit flags c.firstPayloadType c.data

end Vpp.Ikev2
