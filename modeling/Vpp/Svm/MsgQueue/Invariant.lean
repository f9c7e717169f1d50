import Vpp.Schemes.Window
import Vpp.Svm.MsgQueue.Model

/-! What holds of the message queue while one producer and the consumer are at work.

    At any time one producer at most is between lock and unlock; what it is doing is the `pc` of this module. The
    elements of a ring that are in use are, in the order of their allocation, those that the consumer holds, those
    that are in the queue and the one that the producer is about to add. -/

namespace Vpp.Svm
open Vpp.Schemes List

variable {n : ℕ} {β : Type}

/-! ### Where a message is -/

namespace ProducerPc

/-- The message that is allocated and not yet added. -/
def inflight : ProducerPc n β → List (SvmMsg n)
  | .addCursize msg | .allocated msg | .written msg _ | .putMsg msg _ | .putTail msg _ | .putCursize msg _ => [msg]
  | _ => []

/-- And its contents, once they are written. -/
def filled : ProducerPc n β → List (SvmMsg n × β)
  | .written msg v | .putMsg msg v | .putTail msg v | .putCursize msg v => [(msg, v)]
  | _ => []

/-- The message that is in the queue and not yet counted. -/
def pending : ProducerPc n β → List (SvmMsg n)
  | .putCursize msg _ => [msg]
  | _ => []

/-- The elements of a ring that are allocated and not yet counted. -/
def counting (r : Fin n) : ProducerPc n β → ℕ
  | .addCursize msg => if msg.ringIndex = r then 1 else 0
  | _ => 0

end ProducerPc

namespace ConsumerPc

/-- The messages of the queue that are given up and still counted. -/
def releasing : ConsumerPc n → ℕ
  | .subCursize _ got => got.length
  | _ => 0

/-- The elements of a ring that are given up and still counted. -/
def freeing (r : Fin n) : ConsumerPc n → ℕ
  | .freeLoad msg | .freeCursize msg _ => if msg.ringIndex = r then 1 else 0
  | _ => 0

end ConsumerPc

namespace SvmMsgQ

/-- The messages that were added and not yet obtained. -/
def queued (mq : SvmMsgQ n β) : List (SvmMsg n × β) := mq.added.drop mq.obtained.length

def queuedMsgs (mq : SvmMsgQ n β) : List (SvmMsg n) := mq.queued.map Prod.fst

/-- What is in the element of a message. -/
def elt (mq : SvmMsgQ n β) (msg : SvmMsg n) : β := (mq.rings msg.ringIndex).data msg.eltIndex

end SvmMsgQ

/-- The elements of a ring among some messages. -/
def eltsOf (r : Fin n) (msgs : List (SvmMsg n)) : List ℕ := (msgs.filter (·.ringIndex = r)).map SvmMsg.eltIndex

/-! ### The invariant -/

section
variable (cfg : SvmMsgQCfg n) (mq : SvmMsgQ n β)

/-- What the producer knows from the steps it has taken. -/
def ProducerPc.Knows : ProducerPc n β → Prop
  | .checkRing _ _ => mq.queued.length < cfg.qNitems
  | .readTail r => mq.queued.length < cfg.qNitems ∧ (mq.live r).length < cfg.ringNitems r
  | .writeTail r eltIndex =>
    mq.queued.length < cfg.qNitems ∧ (mq.live r).length < cfg.ringNitems r ∧ eltIndex = (mq.rings r).tail
  | .addCursize _ | .allocated _ | .written _ _ | .putMsg _ _ => mq.queued.length < cfg.qNitems
  | .putTail msg _ => mq.queued.length < cfg.qNitems ∧ mq.q.data mq.q.tail = msg
  | _ => True

/-- And the consumer. -/
def ConsumerPc.Knows : ConsumerPc n → Prop
  | .read fn slots got => ∃ k, 0 < mq.queued.length ∧ k ≤ mq.queued.length ∧
      got = mq.queuedMsgs.take got.length ∧
      got.length + slots.length = k ∧ slots = (window cfg.qNitems mq.q.head k).drop got.length ∧
      (fn = .sub → k = 1)
  | .subCursize _ got => got.length ≤ mq.queued.length ∧ got = mq.queuedMsgs.take got.length
  | .free msg | .freeLoad msg | .freeCursize msg _ => ∃ seq rest, mq.held msg.ringIndex = (msg, seq) :: rest
  | _ => True

end

/-- Of the messages that are written, `pending` are not yet counted and `releasing` are given up. -/
def QueueInv (nitems : ℕ) (q : SharedRing (SvmMsg n)) (msgs pending : List (SvmMsg n)) (releasing : ℕ) : Prop :=
  ∃ start, Cursors nitems q.head q.tail q.cursize start (msgs ++ pending).length pending.length releasing ∧
    Stored q.data nitems start (msgs ++ pending)

/-- The elements in use, in the order of their allocation. -/
def RingInv (nitems : ℕ) (ring : SharedRing β) (live : List ℕ) (counting freeing : ℕ) : Prop :=
  ∃ start, Cursors nitems ring.head ring.tail ring.cursize start live.length counting freeing ∧
    live = window nitems start live.length

structure MqInv (cfg : SvmMsgQCfg n) (mq : SvmMsgQ n β) (pc : ProducerPc n β) (c : ConsumerPc n) : Prop where
  obtained : mq.obtained = (mq.added.map Prod.fst).take mq.obtained.length
  queue : QueueInv cfg.qNitems mq.q mq.queuedMsgs pc.pending c.releasing
  ring : ∀ r, RingInv (cfg.ringNitems r) (mq.rings r) (mq.live r) (pc.counting r) (c.freeing r)
  live : ∀ r, mq.live r = (mq.held r).map (·.1.eltIndex) ++ eltsOf r (mq.queuedMsgs ++ pc.inflight)
  held : ∀ r, ∀ e ∈ mq.held r, e.1.ringIndex = r ∧ e.2 < mq.obtained.length ∧
    mq.added[e.2]? = some (e.1, mq.elt e.1)
  contents : ∀ e ∈ mq.queued ++ pc.filled, mq.elt e.1 = e.2
  producer : pc.Knows cfg mq
  consumer : c.Knows cfg mq

/-! ### Arithmetic -/

theorem u32_eq {x : ℕ} (hx : x < 2 ^ 32) : u32 x = x := Nat.mod_eq_of_lt hx

theorem u32Sub_eq {x y : ℕ} (hx : x < 2 ^ 32) (hy : y ≤ x) : u32Sub x y = x - y := by
  rw [u32Sub]
  omega

theorem SvmMsgQCfg.qNitems_lt (cfg : SvmMsgQCfg n) : cfg.qNitems < 2 ^ 32 := by
  have hfits := cfg.q_fits
  omega

/-! ### Writes to a ring -/

namespace RingInv
variable {nitems : ℕ} {ring : SharedRing β} {live : List ℕ} {counting freeing : ℕ}

section

variable (h : RingInv nitems ring live counting freeing)
include h

theorem nodup : live.Nodup := by
  obtain ⟨start, hcursors, hwindow⟩ := h
  rw [hwindow]
  exact nodup_window start hcursors.len_le

theorem count_le : ring.cursize ≤ nitems :=
  h.elim fun _ hr => hr.1.count_le

theorem count_eq : ring.cursize + counting = live.length :=
  h.elim fun _ hr => hr.1.count_eq

end

theorem writeTail (h : RingInv nitems ring live 0 freeing) (hn : nitems < 2 ^ 32) (hlen : live.length < nitems) :
    RingInv nitems { ring with tail := u32 (ring.tail + 1) % nitems } (live ++ [ring.tail]) 1 freeing := by
  obtain ⟨start, hcursors, hwindow⟩ := h
  have htail := hcursors.tail_lt (Nat.zero_lt_of_lt hlen)
  refine ⟨start, ?_, ?_⟩
  · rw [u32_eq (by omega), length_append]
    exact hcursors.take hlen
  · rw [length_append, length_singleton, window_succ, ← hwindow, hcursors.tail_eq]

theorem addCursize (h : RingInv nitems ring live 1 freeing) (hn : nitems < 2 ^ 32) :
    RingInv nitems { ring with cursize := u32 (ring.cursize + 1) } live 0 freeing := by
  obtain ⟨start, hcursors, hwindow⟩ := h
  have hcount := hcursors.count.count_le
  refine ⟨start, ?_, hwindow⟩
  rw [u32_eq (by omega)]
  exact hcursors.count

/-- The element that was allocated first is at the head. -/
theorem head_eq {eltIndex : ℕ} {rest : List ℕ} (h : RingInv nitems ring (eltIndex :: rest) counting 0) :
    eltIndex = ring.head := by
  obtain ⟨start, hcursors, hwindow⟩ := h
  rw [length_cons, window_cons, cons.injEq] at hwindow
  rw [hwindow.1, hcursors.head_eq, add_zero]

theorem writeHead (h : RingInv nitems ring live counting 0) (hn : nitems < 2 ^ 32) (hne : live ≠ []) :
    RingInv nitems { ring with head := u32 (ring.head + 1) % nitems } live counting 1 := by
  obtain ⟨start, hcursors, hwindow⟩ := h
  have hpos := length_pos_iff.mpr hne
  have hlen := hcursors.len_le
  have hhead := hcursors.head_lt (by omega)
  refine ⟨start, ?_, hwindow⟩
  rw [u32_eq (by omega)]
  exact hcursors.release 1

theorem subCursize {eltIndex : ℕ} {rest : List ℕ} (h : RingInv nitems ring (eltIndex :: rest) counting 1)
    (hn : nitems < 2 ^ 32) (hcount : 1 ≤ ring.cursize) :
    RingInv nitems { ring with cursize := u32Sub ring.cursize 1 } rest counting 0 := by
  have hle := h.count_le
  obtain ⟨start, hcursors, hwindow⟩ := h
  rw [length_cons, window_cons, cons.injEq] at hwindow
  refine ⟨start + 1, ?_, hwindow.2⟩
  rw [u32Sub_eq (by omega) hcount]
  exact hcursors.discount hcount

end RingInv

/-! ### Writes to the queue -/

namespace QueueInv
variable {nitems : ℕ} {q : SharedRing (SvmMsg n)} {msgs pending : List (SvmMsg n)} {releasing : ℕ} {msg : SvmMsg n}

section

variable (h : QueueInv nitems q msgs pending releasing)
include h

theorem count_le : q.cursize ≤ nitems := h.elim fun _ hq => hq.1.count_le

theorem count_eq : q.cursize = msgs.length := by
  obtain ⟨start, hcursors, -⟩ := h
  have hcount := hcursors.count_eq
  rw [length_append] at hcount
  omega

theorem head_lt (hne : 0 < msgs.length) : q.head < nitems := by
  have hle := h.count_le
  have hcount := h.count_eq
  obtain ⟨start, hcursors, -⟩ := h
  exact hcursors.head_lt (by omega)

end

theorem putMsg (h : QueueInv nitems q msgs [] releasing) (hlen : msgs.length < nitems) (msg : SvmMsg n) :
    QueueInv nitems { q with data := Function.update q.data q.tail msg } msgs [] releasing := by
  obtain ⟨start, hcursors, hstored⟩ := h
  rw [append_nil] at hcursors hstored
  refine ⟨start, ?_, ?_⟩
  · rw [append_nil]
    exact hcursors
  · rw [append_nil, hcursors.tail_eq]
    exact hstored.write hlen msg

theorem putTail (h : QueueInv nitems q msgs [] releasing) (hn : nitems < 2 ^ 32) (hlen : msgs.length < nitems)
    (hdata : q.data q.tail = msg) :
    QueueInv nitems { q with tail := u32 (q.tail + 1) % nitems } msgs [msg] releasing := by
  obtain ⟨start, hcursors, hstored⟩ := h
  rw [append_nil] at hcursors hstored
  have htail := hcursors.tail_lt (Nat.zero_lt_of_lt hlen)
  refine ⟨start, ?_, hstored.concat (hcursors.tail_eq ▸ hdata)⟩
  rw [u32_eq (by omega), length_append]
  exact hcursors.take hlen

theorem putCursize (h : QueueInv nitems q msgs [msg] releasing) (hn : nitems < 2 ^ 32) :
    QueueInv nitems { q with cursize := u32 (q.cursize + 1) } (msgs ++ [msg]) [] releasing := by
  obtain ⟨start, hcursors, hstored⟩ := h
  have hcount := hcursors.count.count_le
  refine ⟨start, ?_, by rwa [append_nil]⟩
  rw [u32_eq (by omega), append_nil]
  exact hcursors.count

/-- What is read at the `i`-th slot from the head is the `i`-th message. -/
theorem data_eq (h : QueueInv nitems q msgs pending 0) {i : ℕ} (hi : i < msgs.length) :
    some (q.data ((q.head + i) % nitems)) = msgs[i]? := by
  obtain ⟨start, hcursors, hstored⟩ := h
  have hget : (msgs ++ pending)[i]? = msgs[i]? := getElem?_append_left hi
  rw [hcursors.head_eq, add_zero, Nat.mod_add_mod]
  rw [getElem?_eq_getElem hi] at hget ⊢
  rw [hstored i _ hget]

theorem writeHead (h : QueueInv nitems q msgs pending 0) (k : ℕ) :
    QueueInv nitems { q with head := (q.head + k) % nitems } msgs pending k := by
  obtain ⟨start, hcursors, hstored⟩ := h
  exact ⟨start, hcursors.release k, hstored⟩

theorem subCursize {k : ℕ} (h : QueueInv nitems q msgs pending k) (hn : nitems < 2 ^ 32) (hk : k ≤ msgs.length) :
    QueueInv nitems { q with cursize := u32Sub q.cursize k } (msgs.drop k) pending 0 := by
  have hle := h.count_le
  have hcount := h.count_eq
  obtain ⟨start, hcursors, hstored⟩ := h
  have hdrop : msgs.drop k ++ pending = (msgs ++ pending).drop k := (drop_append_of_le_length hk).symm
  refine ⟨start + k, ?_, ?_⟩
  · rw [hdrop, length_drop, u32Sub_eq (by omega) (by omega)]
    exact hcursors.discount (by omega)
  · rw [hdrop]
    exact hstored.drop k

end QueueInv

end Vpp.Svm
