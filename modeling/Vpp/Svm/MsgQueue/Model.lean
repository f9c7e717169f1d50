import Mathlib

/-! The shared-memory message queue (`svm/message_queue.c`).

    Message contents are in rings of elements; a queue of (ring, element) pairs says in which order they are to be
    taken. Queue and rings have the same three numbers, each in shared memory and each written on its own:

        producers (one at a time, by the lock)              consumer (no lock)
          cursize < nitems ?                                  cursize > 0 ?
          tail := tail + 1                                    read from head on
          cursize := cursize + 1                              head := head + k
                                                              cursize := cursize - k

    A step is one access to shared memory, by one of the producers or by the consumer. Any number of producers and the
    one consumer take their steps in any order; a step that has to wait leaves the state as it is. -/

namespace Vpp.Svm
open List
open Function (update)

/-- Arithmetic of `u32`. -/
def u32 (x : ℕ) : ℕ := x % 2 ^ 32

def u32Sub (x y : ℕ) : ℕ := (x + 2 ^ 32 - y) % 2 ^ 32

/-- `svm_msg_q_msg_t` -/
structure SvmMsg (n : ℕ) where
  ringIndex : Fin n
  eltIndex : ℕ
deriving DecidableEq

/-- `svm_msg_q_cfg_t`: the queue, 8 bytes a message, and the rings are given sizes of 32 bits by `svm_msg_q_init`.
    Whether an eventfd is used is set later (`svm_msg_q_set_eventfd`). -/
structure SvmMsgQCfg (n : ℕ) where
  qNitems : ℕ
  ringNitems : Fin n → ℕ
  evtfd : Bool
  q_fits : 8 * qNitems < 2 ^ 32
  ring_fits : ∀ r, ringNitems r < 2 ^ 32

/-- `svm_msg_q_shared_queue_t` and `svm_msg_q_ring_shared_t`; the number of items is in the configuration -/
structure SharedRing (α : Type) where
  head : ℕ
  tail : ℕ
  cursize : ℕ
  data : ℕ → α

/-- `svm_msg_q_t`, and what has happened to it: the messages that were added with the contents that their producer
    wrote, those that the consumer obtained, the elements that were allocated and not yet freed, and the messages that
    the consumer holds, each with its number among those obtained. -/
structure SvmMsgQ (n : ℕ) (β : Type) where
  q : SharedRing (SvmMsg n)
  rings : Fin n → SharedRing β
  added : List (SvmMsg n × β)
  obtained : List (SvmMsg n)
  live : Fin n → List ℕ
  held : Fin n → List (SvmMsg n × ℕ)

variable {n : ℕ} {β : Type}

namespace SvmMsgQ

def setRing (mq : SvmMsgQ n β) (r : Fin n) (ring : SharedRing β) : SvmMsgQ n β :=
  { mq with rings := update mq.rings r ring }

/-! The writes to a ring. -/

def writeTail (cfg : SvmMsgQCfg n) (mq : SvmMsgQ n β) (r : Fin n) : SvmMsgQ n β :=
  mq.setRing r { mq.rings r with tail := u32 ((mq.rings r).tail + 1) % cfg.ringNitems r }

def addCursize (mq : SvmMsgQ n β) (r : Fin n) : SvmMsgQ n β :=
  mq.setRing r { mq.rings r with cursize := u32 ((mq.rings r).cursize + 1) }

def writeElt (mq : SvmMsgQ n β) (msg : SvmMsg n) (v : β) : SvmMsgQ n β :=
  mq.setRing msg.ringIndex
    { mq.rings msg.ringIndex with data := update (mq.rings msg.ringIndex).data msg.eltIndex v }

def writeHead (cfg : SvmMsgQCfg n) (mq : SvmMsgQ n β) (r : Fin n) : SvmMsgQ n β :=
  mq.setRing r { mq.rings r with head := u32 ((mq.rings r).head + 1) % cfg.ringNitems r }

def subCursize (mq : SvmMsgQ n β) (r : Fin n) : SvmMsgQ n β :=
  mq.setRing r { mq.rings r with cursize := u32Sub (mq.rings r).cursize 1 }

/-! What has happened. -/

/-- An element is in use. -/
def allocElt (mq : SvmMsgQ n β) (msg : SvmMsg n) : SvmMsgQ n β :=
  { mq with live := update mq.live msg.ringIndex (mq.live msg.ringIndex ++ [msg.eltIndex]) }

/-- And no longer in use, nor held by the consumer. -/
def freeElt (mq : SvmMsgQ n β) (msg : SvmMsg n) : SvmMsgQ n β :=
  { mq with
    live := update mq.live msg.ringIndex ((mq.live msg.ringIndex).erase msg.eltIndex)
    held := update mq.held msg.ringIndex (mq.held msg.ringIndex).tail }

/-- Messages go to the consumer. -/
def obtain (mq : SvmMsgQ n β) (got : List (SvmMsg n)) : SvmMsgQ n β :=
  { mq with
    obtained := mq.obtained ++ got
    held := fun r => mq.held r ++ (got.zipIdx mq.obtained.length).filter (·.1.ringIndex = r) }

/-- `svm_msg_q_is_full` -/
def isFull (cfg : SvmMsgQCfg n) (mq : SvmMsgQ n β) : Bool := mq.q.cursize = cfg.qNitems

/-- `svm_msg_q_ring_is_full` -/
def ringIsFull (cfg : SvmMsgQCfg n) (mq : SvmMsgQ n β) (r : Fin n) : Bool := (mq.rings r).cursize ≥ cfg.ringNitems r

/-- `svm_msg_q_is_empty` -/
def isEmpty (mq : SvmMsgQ n β) : Bool := mq.q.cursize = 0

end SvmMsgQ

/-! ### Producers -/

/-- What a producer does next. -/
inductive ProducerPc (n : ℕ) (β : Type) where
  | idle
  /-- the lock is held, `svm_msg_q_is_full` is next -/
  | checkQueue (r : Fin n) (noblock : Bool)
  /-- `svm_msg_q_ring_is_full` is next -/
  | checkRing (r : Fin n) (noblock : Bool)
  /-- no room: give up, or wait -/
  | full (r : Fin n) (noblock : Bool)
  /-- in `pthread_cond_wait`, without the lock -/
  | waiting (r : Fin n)
  /-- `svm_msg_q_alloc_msg_w_ring`: read the tail, write it, count -/
  | readTail (r : Fin n)
  | writeTail (r : Fin n) (eltIndex : ℕ)
  | addCursize (msg : SvmMsg n)
  /-- the message is returned to the caller, who writes the element -/
  | allocated (msg : SvmMsg n)
  | written (msg : SvmMsg n) (v : β)
  /-- `svm_msg_q_add_raw`: write the message at the tail, write the tail, count -/
  | putMsg (msg : SvmMsg n) (v : β)
  | putTail (msg : SvmMsg n) (v : β)
  | putCursize (msg : SvmMsg n) (v : β)
  | unlock

/-- What a producer wants, where it has a choice. -/
inductive ProducerCmd (n : ℕ) (β : Type) where
  | call (r : Fin n) (noblock : Bool)
  | write (v : β)
  | add
  | go

/-- The steps of a producer that holds the lock and keeps it. -/
def ProducerPc.exec (cfg : SvmMsgQCfg n) (mq : SvmMsgQ n β) :
    ProducerPc n β → ProducerCmd n β → SvmMsgQ n β × ProducerPc n β
  | .checkQueue r noblock, _ => (mq, if mq.isFull cfg then .full r noblock else .checkRing r noblock)
  | .checkRing r noblock, _ => (mq, if mq.ringIsFull cfg r then .full r noblock else .readTail r)
  | .readTail r, _ => (mq, .writeTail r (mq.rings r).tail)
  | .writeTail r eltIndex, _ =>
    ((mq.writeTail cfg r).allocElt ⟨r, eltIndex⟩, .addCursize ⟨r, eltIndex⟩)
  | .addCursize msg, _ => (mq.addCursize msg.ringIndex, .allocated msg)
  | .allocated msg, .write v | .written msg _, .write v => (mq.writeElt msg v, .written msg v)
  | .written msg v, .add => (mq, .putMsg msg v)
  | .putMsg msg v, _ => ({ mq with q := { mq.q with data := update mq.q.data mq.q.tail msg } }, .putTail msg v)
  | .putTail msg v, _ => ({ mq with q := { mq.q with tail := u32 (mq.q.tail + 1) % cfg.qNitems } }, .putCursize msg v)
  | .putCursize msg v, _ =>
    ({ mq with q := { mq.q with cursize := u32 (mq.q.cursize + 1) }, added := mq.added ++ [(msg, v)] }, .unlock)
  | pc, _ => (mq, pc)

/-! ### The consumer -/

/-- `svm_msg_q_sub_raw`, or `svm_msg_q_sub_raw_batch` with the size that it read at first -/
inductive TakeFn where
  | sub
  | batch (sz : ℕ)

/-- What the consumer does next. -/
inductive ConsumerPc (n : ℕ) where
  | idle
  /-- copy the messages at `slots`, then write the head -/
  | read (fn : TakeFn) (slots : List ℕ) (got : List (SvmMsg n))
  /-- subtract from the count and return -/
  | subCursize (fn : TakeFn) (got : List (SvmMsg n))
  /-- `svm_msg_q_free_msg`: write the head, load the count, subtract from it -/
  | free (msg : SvmMsg n)
  | freeLoad (msg : SvmMsg n)
  | freeCursize (msg : SvmMsg n) (needSignal : Bool)
  /-- `svm_msg_q_send_signal` -/
  | signal
  | signalUnlock

inductive ConsumerCmd (n : ℕ) where
  | sub
  | batch (nMsgs : ℕ)
  | free (r : Fin n)
  | go

/-- The slots that `svm_msg_q_sub_raw_batch` copies, in one part or in two. -/
def batchSlots (cfg : SvmMsgQCfg n) (head toDeq : ℕ) : List ℕ :=
  if u32 (head + toDeq) < cfg.qNitems then (range toDeq).map (head + ·)
  else
    let firstBatch := cfg.qNitems - head
    (range firstBatch).map (head + ·) ++ range (toDeq - firstBatch)

/-- The head after `toDeq` messages. -/
def TakeFn.nextHead (cfg : SvmMsgQCfg n) (head toDeq : ℕ) : TakeFn → ℕ
  | .sub => u32 (head + 1) % cfg.qNitems
  | .batch _ =>
    if u32 (head + toDeq) < cfg.qNitems then u32 (head + toDeq) else u32 (head + toDeq) % cfg.qNitems

/-- Whether the queue was full. -/
def TakeFn.needSignal (cfg : SvmMsgQCfg n) (cursize : ℕ) : TakeFn → Bool
  | .sub => cursize = cfg.qNitems
  | .batch sz => sz = cfg.qNitems

/-- The steps of the consumer, but for the signal. The queue is asked for messages when it is not empty, and the
    messages of a ring are freed in the order in which they were taken. -/
def ConsumerPc.exec (cfg : SvmMsgQCfg n) (mq : SvmMsgQ n β) :
    ConsumerPc n → ConsumerCmd n → SvmMsgQ n β × ConsumerPc n
  | .idle, .sub => (mq, if mq.isEmpty then .idle else .read .sub [mq.q.head] [])
  | .idle, .batch nMsgs =>
    let sz := mq.q.cursize
    (mq, if sz = 0 then .idle else .read (.batch sz) (batchSlots cfg mq.q.head (min sz nMsgs)) [])
  | .idle, .free r =>
    (mq, match mq.held r with
      | [] => .idle
      | e :: _ => .free e.1)
  | .read fn (slot :: slots) got, _ => (mq, .read fn slots (got ++ [mq.q.data slot]))
  | .read fn [] got, _ =>
    ({ mq with q := { mq.q with head := fn.nextHead cfg mq.q.head got.length } }, .subCursize fn got)
  | .subCursize fn got, _ =>
    let sz := mq.q.cursize
    (({ mq with q := { mq.q with cursize := u32Sub sz got.length } } : SvmMsgQ n β).obtain got,
      if fn.needSignal cfg sz then .signal else .idle)
  | .free msg, _ =>
    -- else the message is out of order, which is reported and asserted against
    (if msg.eltIndex = (mq.rings msg.ringIndex).head then mq.writeHead cfg msg.ringIndex else mq, .freeLoad msg)
  | .freeLoad msg, _ =>
    (mq, .freeCursize msg ((mq.rings msg.ringIndex).cursize = cfg.ringNitems msg.ringIndex))
  | .freeCursize msg needSignal, _ =>
    ((mq.subCursize msg.ringIndex).freeElt msg, if needSignal then .signal else .idle)
  | pc, _ => (mq, pc)

/-! ### The system -/

inductive Owner where
  | producer (p : ℕ)
  | consumer
deriving DecidableEq

structure MqState (n : ℕ) (β : Type) where
  mq : SvmMsgQ n β
  lock : Option Owner
  producers : ℕ → ProducerPc n β
  consumer : ConsumerPc n

/-- `svm_msg_q_init`; the memory for messages and elements is as it is found -/
def MqState.init (qData : ℕ → SvmMsg n) (ringData : Fin n → ℕ → β) : MqState n β where
  mq := { q := ⟨0, 0, 0, qData⟩, rings := fun r => ⟨0, 0, 0, ringData r⟩, added := [], obtained := [],
          live := fun _ => [], held := fun _ => [] }
  lock := none
  producers := fun _ => .idle
  consumer := .idle

inductive MqAct (n : ℕ) (β : Type) where
  | produce (p : ℕ) (cmd : ProducerCmd n β)
  | consume (cmd : ConsumerCmd n)

namespace MqState

def setProducer (s : MqState n β) (p : ℕ) (lock : Option Owner) (pc : ProducerPc n β) : MqState n β :=
  { s with lock := lock, producers := update s.producers p pc }

/-- `svm_msg_q_lock`, or `svm_msg_q_try_lock` where it succeeds -/
def acquire (s : MqState n β) (p : ℕ) (pc : ProducerPc n β) : MqState n β :=
  if s.lock = none then s.setProducer p (some (.producer p)) pc else s

/-- A step of a producer. With an eventfd the lock is kept while the producer waits. -/
def produce (cfg : SvmMsgQCfg n) (s : MqState n β) (p : ℕ) (cmd : ProducerCmd n β) : MqState n β :=
  match s.producers p, cmd with
  | .idle, .call r noblock => s.acquire p (.checkQueue r noblock)
  | .idle, _ => s
  | .waiting r, _ => s.acquire p (.checkQueue r false)
  | .full _ true, _ => s.setProducer p none .idle
  | .full r false, _ => if cfg.evtfd then s.setProducer p s.lock (.checkQueue r false)
      else s.setProducer p none (.waiting r)
  | .unlock, _ => s.setProducer p none .idle
  | pc, cmd => { s.setProducer p s.lock (pc.exec cfg s.mq cmd).2 with mq := (pc.exec cfg s.mq cmd).1 }

/-- A step of the consumer. -/
def consume (cfg : SvmMsgQCfg n) (s : MqState n β) (cmd : ConsumerCmd n) : MqState n β :=
  match s.consumer with
  | .signal =>
    if cfg.evtfd then { s with consumer := .idle }
    else if s.lock = none then { s with lock := some .consumer, consumer := .signalUnlock }
    else s
  | .signalUnlock => { s with lock := none, consumer := .idle }
  | pc => { s with mq := (pc.exec cfg s.mq cmd).1, consumer := (pc.exec cfg s.mq cmd).2 }

def step (cfg : SvmMsgQCfg n) (s : MqState n β) : MqAct n β → MqState n β
  | .produce p cmd => s.produce cfg p cmd
  | .consume cmd => s.consume cfg cmd

end MqState

end Vpp.Svm
