import Vpp.Svm.MsgQueue.Invariant

/-! Every step of the producer that holds the lock, and every step of the consumer, keeps the invariant. -/

namespace Vpp.Svm
open Vpp.Schemes List Function ProducerPc SvmMsgQ
open SvmMsgQ (setRing elt)

variable {n : ℕ} {β : Type} {cfg : SvmMsgQCfg n} {mq' mq : SvmMsgQ n β}

/-- The consumer reads its own cursor and the messages in the queue. -/
theorem ConsumerPc.Knows.congr {c : ConsumerPc n} (h : c.Knows cfg mq)
    (hqueued : mq'.queued = mq.queued) (hhead : mq'.q.head = mq.q.head) (hheld : mq'.held = mq.held) :
    c.Knows cfg mq' := by
  cases c <;> simp only [ConsumerPc.Knows, queuedMsgs, hqueued, hhead, hheld] at h ⊢ <;> exact h

/-- A message that is added comes after those that the consumer has seen. -/
theorem ConsumerPc.Knows.add {c : ConsumerPc n} (h : c.Knows cfg mq) {e : SvmMsg n × β}
    (hqueued : mq'.queued = mq.queued ++ [e]) (hhead : mq'.q.head = mq.q.head)
    (hheld : mq'.held = mq.held) : c.Knows cfg mq' := by
  have htake {k : ℕ} (hk : k ≤ mq.queued.length) : mq'.queuedMsgs.take k = mq.queuedMsgs.take k := by
    rw [queuedMsgs, hqueued, map_append]
    exact take_append_of_le_length (by simpa [queuedMsgs] using hk)
  have hlen : mq.queued.length ≤ mq'.queued.length := by simp [hqueued]
  cases c with
  | read fn slots got =>
    obtain ⟨k, hne, hk, hgot, hslots, hdrop, hsub⟩ := h
    exact ⟨k, hne.trans_le hlen, hk.trans hlen, by rw [htake (by omega)]; exact hgot, hslots,
      by rw [hhead]; exact hdrop, hsub⟩
  | subCursize fn got =>
    obtain ⟨hk, hgot⟩ := h
    exact ⟨hk.trans hlen, by rw [htake hk]; exact hgot⟩
  | free msg | freeLoad msg | freeCursize msg _ =>
    simp only [ConsumerPc.Knows, hheld] at h ⊢
    exact h
  | _ => trivial

/-- The producer relies on room, which the consumer only adds to. -/
theorem ProducerPc.Knows.congr {pc : ProducerPc n β} (h : pc.Knows cfg mq)
    (hqueued : mq'.queued.length ≤ mq.queued.length)
    (hlive : ∀ r, (mq'.live r).length ≤ (mq.live r).length)
    (hring : ∀ r, (mq'.rings r).tail = (mq.rings r).tail) (hdata : mq'.q.data = mq.q.data)
    (htail : mq'.q.tail = mq.q.tail) :
    pc.Knows cfg mq' := by
  cases pc with
  | checkRing | addCursize | allocated | written | putMsg => exact hqueued.trans_lt h
  | readTail r => exact ⟨hqueued.trans_lt h.1, (hlive r).trans_lt h.2⟩
  | writeTail r eltIndex => exact ⟨hqueued.trans_lt h.1, (hlive r).trans_lt h.2.1, h.2.2.trans (hring r).symm⟩
  | putTail msg v => exact ⟨hqueued.trans_lt h.1, by rw [hdata, htail]; exact h.2⟩
  | _ => trivial

/-- The slots that are copied are the next ones, around the end. -/
theorem batchSlots_eq (cfg : SvmMsgQCfg n) {head k : ℕ} (hhead : head < cfg.qNitems) (hk : k ≤ cfg.qNitems) :
    batchSlots cfg head k = window cfg.qNitems head k := by
  have hfits := cfg.q_fits
  rw [batchSlots, u32_eq (by omega)]
  split_ifs with hend
  · exact (window_eq_map hend.le).symm
  · have hsplit : k = (cfg.qNitems - head) + (k - (cfg.qNitems - head)) := by omega
    have hfront : head + (cfg.qNitems - head) = cfg.qNitems := by omega
    have hback : window cfg.qNitems cfg.qNitems (k - (cfg.qNitems - head)) = range (k - (cfg.qNitems - head)) := by
      rw [← window_mod, Nat.mod_self, window_eq_map (by omega)]
      simp
    conv_rhs => rw [hsplit, window_add, window_eq_map hfront.le, hfront, hback]

/-- Both functions move the head by as many slots as they copied. -/
theorem TakeFn.nextHead_eq (cfg : SvmMsgQCfg n) {head k : ℕ} (fn : TakeFn) (hhead : head < cfg.qNitems)
    (hk : k ≤ cfg.qNitems) (hsub : fn = .sub → k = 1) : fn.nextHead cfg head k = (head + k) % cfg.qNitems := by
  have hfits := cfg.q_fits
  cases fn with
  | sub =>
    obtain rfl := hsub rfl
    rw [TakeFn.nextHead, u32_eq (by omega)]
  | batch sz =>
    rw [TakeFn.nextHead, u32_eq (by omega)]
    split_ifs with hend
    · exact (Nat.mod_eq_of_lt hend).symm
    · rfl

namespace MqInv
variable {cfg : SvmMsgQCfg n} {mq : SvmMsgQ n β} {pc : ProducerPc n β} {c : ConsumerPc n}

theorem obtained_le (h : MqInv cfg mq pc c) : mq.obtained.length ≤ mq.added.length := by
  have hlen := congrArg length h.obtained
  simp only [length_take, length_map] at hlen
  omega

@[simp] theorem length_queuedMsgs (mq : SvmMsgQ n β) : mq.queuedMsgs.length = mq.queued.length := length_map _

/-- The count of the queue. -/
theorem queue_cursize (h : MqInv cfg mq pc c) : mq.q.cursize = mq.queued.length := by
  rw [h.queue.count_eq, length_queuedMsgs]

/-! A write to a ring changes nothing else. -/

section
variable {r : Fin n} {ring : SharedRing β}

theorem rings_setRing_of_ne {r' : Fin n} (hr : r' ≠ r) : (mq.setRing r ring).rings r' = mq.rings r' :=
  update_of_ne hr _ _

@[simp] theorem rings_setRing_self : (mq.setRing r ring).rings r = ring := update_self _ _ _

/-- Nor does one to its cursors change the elements. -/
theorem elt_setRing (hdata : ring.data = (mq.rings r).data) (msg : SvmMsg n) : (mq.setRing r ring).elt msg =
    mq.elt msg := by
  by_cases hr : msg.ringIndex = r
  · subst hr
    simp [elt, hdata]
  · simp [elt, rings_setRing_of_ne hr]

theorem tail_writeHead (r' : Fin n) : ((mq.writeHead cfg r).rings r').tail = (mq.rings r').tail := by
  by_cases hr : r' = r
  · subst hr
    rw [writeHead, rings_setRing_self]
  · rw [writeHead, rings_setRing_of_ne hr]

@[simp] theorem elt_writeTail (msg : SvmMsg n) : (mq.writeTail cfg r).elt msg = mq.elt msg := by
  rw [SvmMsgQ.writeTail, elt_setRing]
  rfl

@[simp] theorem elt_addCursize (msg : SvmMsg n) : (mq.addCursize r).elt msg = mq.elt msg := by
  rw [SvmMsgQ.addCursize, elt_setRing]
  rfl

@[simp] theorem elt_writeHead (msg : SvmMsg n) : (mq.writeHead cfg r).elt msg = mq.elt msg := by
  rw [writeHead, elt_setRing]
  rfl

end

/-- The other rings are as they were. -/
theorem ring_update (h : MqInv cfg mq pc c) {r : Fin n} {ring : SharedRing β} {live : Fin n → List ℕ}
    {counting freeing : Fin n → ℕ} (hlive : ∀ r', r' ≠ r → live r' = mq.live r')
    (hcounting : ∀ r', r' ≠ r → counting r' = pc.counting r')
    (hfreeing : ∀ r', r' ≠ r → freeing r' = c.freeing r')
    (hself : RingInv (cfg.ringNitems r) ring (live r) (counting r) (freeing r)) (r' : Fin n) :
    RingInv (cfg.ringNitems r') ((mq.setRing r ring).rings r') (live r') (counting r') (freeing r') := by
  by_cases hr : r' = r
  · subst hr
    simpa [setRing] using hself
  · have hsame : (mq.setRing r ring).rings r' = mq.rings r' := update_of_ne hr _ _
    rw [hsame, hlive r' hr, hcounting r' hr, hfreeing r' hr]
    exact h.ring r'

/-! ### Steps of the producer -/

/-- A step that only takes the producer on. -/
theorem go (h : MqInv cfg mq pc c) {pc' : ProducerPc n β} (hinflight : pc'.inflight = pc.inflight)
    (hfilled : pc'.filled = pc.filled) (hpending : pc'.pending = pc.pending)
    (hcounting : ∀ r, pc'.counting r = pc.counting r) (hknows : pc'.Knows cfg mq) : MqInv cfg mq pc' c where
  obtained := h.obtained
  queue := by rw [hpending]; exact h.queue
  ring r := by rw [hcounting]; exact h.ring r
  live r := by rw [hinflight]; exact h.live r
  held := h.held
  contents := by rw [hfilled]; exact h.contents
  producer := hknows
  consumer := h.consumer

theorem checkQueue {r : Fin n} {noblock : Bool} (h : MqInv cfg mq (.checkQueue r noblock) c) :
    MqInv cfg mq (if mq.isFull cfg then .full r noblock else .checkRing r noblock) c := by
  split_ifs with hfull
  · exact h.go rfl rfl rfl (fun _ => rfl) trivial
  · refine h.go rfl rfl rfl (fun _ => rfl) ?_
    have hle := h.queue.count_le
    simp only [isFull, decide_eq_true_iff, h.queue_cursize] at hfull hle
    exact lt_of_le_of_ne hle hfull

theorem checkRing {r : Fin n} {noblock : Bool} (h : MqInv cfg mq (.checkRing r noblock) c) :
    MqInv cfg mq (if mq.ringIsFull cfg r then .full r noblock else .readTail r) c := by
  split_ifs with hfull
  · exact h.go rfl rfl rfl (fun _ => rfl) trivial
  · refine h.go rfl rfl rfl (fun _ => rfl) ⟨h.producer, ?_⟩
    have hcount : (mq.rings r).cursize + 0 = (mq.live r).length := (h.ring r).count_eq
    simp only [ringIsFull, decide_eq_true_iff, not_le, ge_iff_le] at hfull
    omega

variable (r : Fin n)

theorem eltsOf_append (as bs : List (SvmMsg n)) : eltsOf r (as ++ bs) = eltsOf r as ++ eltsOf r bs := by
  simp [eltsOf]

theorem eltsOf_singleton (msg : SvmMsg n) :
    eltsOf r [msg] = if msg.ringIndex = r then [msg.eltIndex] else [] := by
  by_cases hr : msg.ringIndex = r <;> simp [eltsOf, hr]

/-- The contents are where they were. -/
theorem held_congr (h : MqInv cfg mq pc c) (helt : ∀ msg, mq'.elt msg = mq.elt msg) (r : Fin n)
    {e : SvmMsg n × ℕ} (he : e ∈ mq.held r) :
    e.1.ringIndex = r ∧ e.2 < mq.obtained.length ∧ mq.added[e.2]? = some (e.1, mq'.elt e.1) := by
  rw [helt]
  exact h.held r e he

theorem writeTail {r : Fin n} {eltIndex : ℕ} (h : MqInv cfg mq (.writeTail r eltIndex) c) :
    MqInv cfg ((mq.writeTail cfg r).allocElt ⟨r, eltIndex⟩) (.addCursize ⟨r, eltIndex⟩) c := by
  obtain ⟨hroom, hlen, rfl⟩ := h.producer
  have hself := (h.ring r).writeTail (cfg.ring_fits r) hlen
  have helt (msg : SvmMsg n) : ((mq.writeTail cfg r).allocElt ⟨r, (mq.rings r).tail⟩).elt msg = mq.elt msg :=
    elt_writeTail msg
  refine ⟨h.obtained, h.queue, ?_, fun r' => ?_, fun r' e he => h.held_congr helt r' he, fun e he => ?_, hroom, ?_⟩
  · refine h.ring_update (fun r' hr => update_of_ne hr _ _) (fun r' hr => if_neg (Ne.symm hr))
      (fun _ _ => rfl) ?_
    simpa [counting, SvmMsgQ.allocElt, SvmMsgQ.writeTail, setRing] using hself
  · have hlive : mq.live r' = (mq.held r').map (·.1.eltIndex) ++ eltsOf r' (mq.queuedMsgs ++ []) := h.live r'
    rw [append_nil] at hlive
    rw [inflight, eltsOf_append, eltsOf_singleton, ← append_assoc]
    by_cases hr : r = r'
    · subst hr
      rw [if_pos rfl]
      exact (update_self _ _ _).trans (congrArg (· ++ [(mq.rings r).tail]) hlive)
    · rw [if_neg hr, append_nil]
      exact (update_of_ne (Ne.symm hr) _ _).trans hlive
  · exact (helt e.1).trans (h.contents e he)
  · exact h.consumer.congr rfl rfl rfl

variable {msg : SvmMsg n} {fn : TakeFn} {got : List (SvmMsg n)}

theorem addCursize (h : MqInv cfg mq (.addCursize msg) c) :
    MqInv cfg (mq.addCursize msg.ringIndex) (.allocated msg) c := by
  have hring := h.ring msg.ringIndex
  rw [counting, if_pos rfl] at hring
  have hself := hring.addCursize (cfg.ring_fits msg.ringIndex)
  refine ⟨h.obtained, h.queue, ?_, h.live, fun r' e he => h.held_congr elt_addCursize r' he,
    fun e he => ?_, h.producer, ?_⟩
  · exact h.ring_update (fun _ _ => rfl) (fun r' hr => (if_neg (Ne.symm hr)).symm) (fun _ _ => rfl) hself
  · exact (elt_addCursize e.1).trans (h.contents e he)
  · exact h.consumer.congr rfl rfl rfl

theorem elt_writeElt_self (msg : SvmMsg n) (v : β) : (mq.writeElt msg v).elt msg = v := by
  simp [elt, writeElt]

theorem elt_writeElt_of_ne {msg' : SvmMsg n} (v : β) (hne : msg' ≠ msg) : (mq.writeElt msg v).elt msg' =
    mq.elt msg' := by
  by_cases hr : msg'.ringIndex = msg.ringIndex
  · have hi : msg'.eltIndex ≠ msg.eltIndex := by
      intro hi
      cases msg
      cases msg'
      exact hne (by simp_all)
    simp [elt, writeElt, hr, hi]
  · simp [elt, writeElt, rings_setRing_of_ne hr]

/-- The message that the producer is about to add is neither held nor queued. -/
theorem inflight_apart (h : MqInv cfg mq pc c) (hmsg : pc.inflight = [msg]) :
    (∀ r, ∀ e ∈ mq.held r, e.1 ≠ msg) ∧ msg ∉ mq.queuedMsgs := by
  have hnd := (h.ring msg.ringIndex).nodup
  rw [h.live, hmsg, eltsOf_append, eltsOf_singleton, if_pos rfl, ← append_assoc, nodup_append] at hnd
  obtain ⟨-, -, hdisj⟩ := hnd
  have hfresh (i : ℕ) (hi : i ∈ (mq.held msg.ringIndex).map (·.1.eltIndex) ++ eltsOf msg.ringIndex mq.queuedMsgs) :
      i ≠ msg.eltIndex := hdisj i hi _ (mem_singleton_self _)
  constructor
  · rintro r e he rfl
    obtain ⟨rfl, -, -⟩ := h.held r e he
    exact hfresh _ (mem_append_left _ (mem_map_of_mem he)) rfl
  · intro hmem
    refine hfresh _ (mem_append_right _ ?_) rfl
    exact mem_map_of_mem (mem_filter.mpr ⟨hmem, by simp⟩)

/-- The element is written; the contents of other messages stay. -/
theorem writeElt (h : MqInv cfg mq pc c) (hmsg : pc.inflight = [msg]) (hpending : pc.pending = [])
    (hcounting : ∀ r, pc.counting r = 0) (hroom : mq.queued.length < cfg.qNitems) (v : β) :
    MqInv cfg (mq.writeElt msg v) (.written msg v) c := by
  obtain ⟨hheld, hqueued⟩ := h.inflight_apart hmsg
  refine ⟨h.obtained, ?_, fun r => ?_, fun r => ?_, fun r e he => ?_, fun e he => ?_, hroom, ?_⟩
  · have hq := h.queue
    rwa [hpending] at hq
  · have hr := h.ring r
    rw [hcounting r] at hr
    by_cases heq : r = msg.ringIndex
    · subst heq
      rw [SvmMsgQ.writeElt, rings_setRing_self]
      exact hr
    · rw [SvmMsgQ.writeElt, rings_setRing_of_ne heq]
      exact hr
  · have hlive := h.live r
    rwa [hmsg] at hlive
  · obtain ⟨hr, hseq, hadded⟩ := h.held r e he
    exact ⟨hr, hseq, by rw [elt_writeElt_of_ne v (hheld r e he)]; exact hadded⟩
  · rcases mem_append.mp he with he | he
    · have hne : e.1 ≠ msg := by
        rintro rfl
        exact hqueued (mem_map_of_mem he)
      rw [elt_writeElt_of_ne v hne]
      exact h.contents e (mem_append_left _ he)
    · obtain rfl := mem_singleton.mp he
      exact elt_writeElt_self msg v
  · exact h.consumer.congr rfl rfl rfl

theorem putMsg {v : β} (h : MqInv cfg mq (.putMsg msg v) c) :
    MqInv cfg { mq with q := { mq.q with data := update mq.q.data mq.q.tail msg } } (.putTail msg v) c := by
  have hroom : mq.queued.length < cfg.qNitems := h.producer
  refine ⟨h.obtained, ?_, h.ring, h.live, h.held, h.contents, ⟨hroom, update_self _ _ _⟩, ?_⟩
  · exact h.queue.putMsg (by simpa using hroom) msg
  · exact h.consumer.congr rfl rfl rfl

theorem putTail {v : β} (h : MqInv cfg mq (.putTail msg v) c) :
    MqInv cfg { mq with q := { mq.q with tail := u32 (mq.q.tail + 1) % cfg.qNitems } } (.putCursize msg v) c := by
  obtain ⟨hroom, hdata⟩ := h.producer
  refine ⟨h.obtained, ?_, h.ring, h.live, h.held, h.contents, trivial, ?_⟩
  · exact h.queue.putTail cfg.qNitems_lt (by simpa using hroom) hdata
  · exact h.consumer.congr rfl rfl rfl

/-- The message is counted, and thereby added. -/
theorem putCursize {v : β} (h : MqInv cfg mq (.putCursize msg v) c) :
    MqInv cfg { mq with q := { mq.q with cursize := u32 (mq.q.cursize + 1) }, added := mq.added ++ [(msg, v)] }
      .unlock c := by
  have hle := h.obtained_le
  have hqueued : (mq.added ++ [(msg, v)]).drop mq.obtained.length = mq.queued ++ [(msg, v)] :=
    drop_append_of_le_length hle
  have hmsgs : ((mq.added ++ [(msg, v)]).drop mq.obtained.length).map Prod.fst = mq.queuedMsgs ++ [msg] := by
    rw [hqueued, map_append]
    rfl
  refine ⟨?_, ?_, h.ring, fun r => ?_, fun r e he => ?_, fun e he => ?_, trivial, ?_⟩
  · have hob := h.obtained
    simp only [map_append]
    rw [take_append_of_le_length (by simpa using hle)]
    exact hob
  · have hq := h.queue.putCursize cfg.qNitems_lt
    rw [← hmsgs] at hq
    exact hq
  · have hlive := h.live r
    rw [inflight, ← hmsgs] at hlive
    simp only [inflight, append_nil]
    exact hlive
  · obtain ⟨hr, hseq, hadded⟩ := h.held r e he
    refine ⟨hr, hseq, ?_⟩
    rw [getElem?_append_left (by omega)]
    exact hadded
  · simp only [filled, append_nil, queued] at he
    exact h.contents e (hqueued ▸ he)
  · exact h.consumer.add hqueued rfl rfl

/-! ### Steps of the consumer -/

/-- A step that only takes the consumer on. -/
theorem goConsumer (h : MqInv cfg mq pc c) {c' : ConsumerPc n} (hreleasing : c'.releasing = c.releasing)
    (hfreeing : ∀ r, c'.freeing r = c.freeing r) (hknows : c'.Knows cfg mq) : MqInv cfg mq pc c' where
  obtained := h.obtained
  queue := by rw [hreleasing]; exact h.queue
  ring r := by rw [hfreeing]; exact h.ring r
  live := h.live
  held := h.held
  contents := h.contents
  producer := h.producer
  consumer := hknows

theorem head_lt (h : MqInv cfg mq pc c) (hne : 0 < mq.queued.length) : mq.q.head < cfg.qNitems :=
  h.queue.head_lt (by simpa using hne)

theorem queued_le (h : MqInv cfg mq pc c) : mq.queued.length ≤ cfg.qNitems := h.queue_cursize ▸ h.queue.count_le

section

variable (h : MqInv cfg mq pc .idle)
include h

/-- A call of `svm_msg_q_sub_raw` or `svm_msg_q_sub_raw_batch` on a queue that is not empty. -/
theorem startRead {k : ℕ} (hne : mq.q.cursize ≠ 0) (hk : k ≤ mq.q.cursize)
    (hsub : fn = .sub → k = 1) : MqInv cfg mq pc (.read fn (window cfg.qNitems mq.q.head k) []) := by
  rw [h.queue_cursize] at hne hk
  refine h.goConsumer rfl (fun _ => rfl) ⟨k, Nat.pos_of_ne_zero hne, hk, rfl, ?_, rfl, hsub⟩
  simp

theorem sub : MqInv cfg mq pc (if mq.isEmpty then .idle else .read .sub [mq.q.head] []) := by
  split_ifs with hempty
  · exact h
  · simp only [SvmMsgQ.isEmpty, decide_eq_true_iff] at hempty
    have hhead := h.head_lt (h.queue_cursize ▸ Nat.pos_of_ne_zero hempty)
    have hslots : [mq.q.head] = window cfg.qNitems mq.q.head 1 := by
      rw [window_eq_map hhead]
      rfl
    rw [hslots]
    exact h.startRead hempty (Nat.pos_of_ne_zero hempty) fun _ => rfl

theorem batch (nMsgs : ℕ) :
    MqInv cfg mq pc (if mq.q.cursize = 0 then .idle
      else .read (.batch mq.q.cursize) (batchSlots cfg mq.q.head (min mq.q.cursize nMsgs)) []) := by
  split_ifs with hempty
  · exact h
  · have hhead := h.head_lt (h.queue_cursize ▸ Nat.pos_of_ne_zero hempty)
    have hmin := min_le_left mq.q.cursize nMsgs
    rw [batchSlots_eq cfg hhead (hmin.trans h.queue.count_le)]
    exact h.startRead hempty hmin (by simp)

/-- The consumer frees the first message that it holds of a ring. -/
theorem startFree (r : Fin n) :
    MqInv cfg mq pc (match mq.held r with
      | [] => .idle
      | e :: _ => .free e.1) := by
  cases hheld : mq.held r with
  | nil => exact h
  | cons e rest =>
    obtain ⟨hr, -, -⟩ := h.held r e (hheld ▸ mem_cons_self)
    exact h.goConsumer rfl (fun _ => rfl) ⟨e.2, rest, hr ▸ hheld⟩

end

/-- A slot is copied: it holds the next message. -/
theorem read {slot : ℕ} {slots : List ℕ} (h : MqInv cfg mq pc (.read fn (slot :: slots) got)) :
    MqInv cfg mq pc (.read fn slots (got ++ [mq.q.data slot])) := by
  obtain ⟨k, hne, hk, hgot, hslots, hdrop, hsub⟩ := h.consumer
  obtain ⟨rfl, hrest⟩ := eq_of_drop_window hdrop
  rw [length_cons] at hslots
  have hget := h.queue.data_eq (i := got.length) (by rw [length_queuedMsgs]; omega)
  refine h.goConsumer rfl (fun _ => rfl) ⟨k, hne, hk, ?_, ?_, ?_, hsub⟩
  · rw [length_append, length_singleton, take_add_one, ← hgot, ← hget]
    rfl
  · rw [length_append, length_singleton]
    omega
  · rwa [length_append, length_singleton]

/-- All slots are copied, the head is written. -/
theorem writeHead (h : MqInv cfg mq pc (.read fn [] got)) :
    MqInv cfg { mq with q := { mq.q with head := fn.nextHead cfg mq.q.head got.length } } pc (.subCursize fn got) := by
  obtain ⟨k, hne, hk, hgot, hslots, -, hsub⟩ := h.consumer
  simp only [length_nil, add_zero] at hslots
  subst hslots
  refine ⟨h.obtained, ?_, h.ring, h.live, h.held, h.contents,
    h.producer.congr le_rfl (fun _ => le_rfl) (fun _ => rfl) rfl rfl,
    hk, hgot⟩
  rw [fn.nextHead_eq cfg (h.head_lt hne) (hk.trans h.queued_le) hsub]
  exact h.queue.writeHead got.length

theorem map_filter_zipIdx (got : List (SvmMsg n)) (k : ℕ) :
    ((got.zipIdx k).filter (·.1.ringIndex = r)).map (·.1.eltIndex) = eltsOf r got := by
  induction got generalizing k with
  | nil => rfl
  | cons msg got ih =>
    by_cases hr : msg.ringIndex = r
    · simpa [eltsOf, hr] using ih (k + 1)
    · simpa [eltsOf, hr] using ih (k + 1)

/-- A message that is obtained has the contents that its producer wrote. -/
theorem obtained_elt (h : MqInv cfg mq pc c) (hgot : got = mq.queuedMsgs.take got.length)
    {e : SvmMsg n × ℕ} (he : e ∈ got.zipIdx mq.obtained.length) :
    e.2 < (mq.obtained ++ got).length ∧ mq.added[e.2]? = some (e.1, mq.elt e.1) := by
  obtain ⟨msg, seq⟩ := e
  obtain ⟨i, hi, rfl⟩ : ∃ i, got[i]? = some msg ∧ seq = mq.obtained.length + i := by
    obtain ⟨hle, hlt, hget⟩ := mem_zipIdx he
    exact ⟨seq - mq.obtained.length, by rw [hget]; exact getElem?_eq_getElem _, by omega⟩
  have hlt : i < got.length := (List.getElem?_eq_some_iff.mp hi).1
  rw [hgot, getElem?_take_of_lt hlt, queuedMsgs, getElem?_map, Option.map_eq_some_iff] at hi
  obtain ⟨⟨_, v⟩, hv, rfl⟩ := hi
  have hcontents := h.contents _ (mem_append_left _ (mem_of_getElem? hv))
  refine ⟨by simp [hlt], ?_⟩
  rw [queued, getElem?_drop] at hv
  rw [hcontents]
  exact hv

/-- The messages that were copied are the consumer's. -/
theorem obtain {q : SharedRing (SvmMsg n)} (h : MqInv cfg mq pc (.subCursize fn got))
    (hq : QueueInv cfg.qNitems q (mq.queuedMsgs.drop got.length) pc.pending 0)
    (hdata : q.data = mq.q.data) (htail : q.tail = mq.q.tail) :
    MqInv cfg (({ mq with q := q } : SvmMsgQ n β).obtain got) pc .idle := by
  obtain ⟨-, hgot⟩ := h.consumer
  have hqueued : mq.added.drop (mq.obtained ++ got).length = mq.queued.drop got.length := by
    rw [length_append, queued, drop_drop]
  have hmsgs : (mq.added.drop (mq.obtained ++ got).length).map Prod.fst = mq.queuedMsgs.drop got.length := by
    rw [hqueued, map_drop, queuedMsgs]
  refine ⟨?_, ?_, h.ring, fun r => ?_, fun r e he => ?_, fun e he => ?_, ?_, trivial⟩
  · have hnext : ((mq.added.map Prod.fst).drop mq.obtained.length).take got.length = got := by
      rw [← map_drop]
      exact hgot.symm
    change mq.obtained ++ got = (mq.added.map Prod.fst).take (mq.obtained ++ got).length
    rw [length_append, take_add, ← h.obtained, hnext]
  · rw [← hmsgs] at hq
    exact hq
  · have hlive := h.live r
    have hsplit : mq.queuedMsgs = got ++ mq.queuedMsgs.drop got.length := by
      conv_lhs => rw [← take_append_drop got.length mq.queuedMsgs, ← hgot]
    rw [hsplit, ← hmsgs, append_assoc, eltsOf_append, ← map_filter_zipIdx r got mq.obtained.length,
      ← append_assoc, ← map_append] at hlive
    exact hlive
  · rcases mem_append.mp he with he | he
    · obtain ⟨hr, hseq, hadded⟩ := h.held r e he
      exact ⟨hr, hseq.trans_le (by simp [SvmMsgQ.obtain]), hadded⟩
    · obtain ⟨hmem, hr⟩ := mem_filter.mp he
      exact ⟨of_decide_eq_true hr, h.obtained_elt hgot hmem⟩
  · simp only [SvmMsgQ.obtain, SvmMsgQ.queued] at he
    rw [hqueued] at he
    rcases mem_append.mp he with he | he
    · exact h.contents e (mem_append_left _ (mem_of_mem_drop he))
    · exact h.contents e (mem_append_right _ he)
  · refine h.producer.congr ?_ (fun _ => le_rfl) (fun _ => rfl) hdata htail
    change (mq.added.drop (mq.obtained ++ got).length).length ≤ mq.queued.length
    rw [hqueued, length_drop]
    exact Nat.sub_le _ _

theorem subCursize (h : MqInv cfg mq pc (.subCursize fn got)) :
    MqInv cfg (({ mq with q := { mq.q with cursize := u32Sub mq.q.cursize got.length } } : SvmMsgQ n β).obtain
      got) pc .idle := by
  have hq : QueueInv cfg.qNitems mq.q mq.queuedMsgs pc.pending got.length := h.queue
  exact h.obtain (hq.subCursize cfg.qNitems_lt (by simpa using h.consumer.1)) rfl rfl

/-- The element to be freed is the first of its ring. -/
theorem live_cons {seq : ℕ} {rest : List (SvmMsg n × ℕ)} (h : MqInv cfg mq pc c)
    (hheld : mq.held msg.ringIndex = (msg, seq) :: rest) :
    mq.live msg.ringIndex =
      msg.eltIndex :: (rest.map (·.1.eltIndex) ++ eltsOf msg.ringIndex (mq.queuedMsgs ++ pc.inflight)) := by
  rw [h.live, hheld]
  rfl

theorem free (h : MqInv cfg mq pc (.free msg)) :
    MqInv cfg (if msg.eltIndex = (mq.rings msg.ringIndex).head then mq.writeHead cfg msg.ringIndex else mq) pc
      (.freeLoad msg) := by
  obtain ⟨seq, rest, hheld⟩ := h.consumer
  have hlive := h.live_cons hheld
  have hring : RingInv (cfg.ringNitems msg.ringIndex) (mq.rings msg.ringIndex) (mq.live msg.ringIndex)
    (pc.counting msg.ringIndex) 0 := h.ring msg.ringIndex
  have hself := hring.writeHead (cfg.ring_fits msg.ringIndex) (by simp [hlive])
  rw [hlive] at hring
  rw [if_pos hring.head_eq]
  refine ⟨h.obtained, h.queue, ?_, h.live, fun r' e he => h.held_congr elt_writeHead r' he,
    fun e he => ?_, ?_, seq, rest, hheld⟩
  · refine h.ring_update (fun _ _ => rfl) (fun _ _ => rfl) (fun r' hr => if_neg (Ne.symm hr)) ?_
    simp only [ConsumerPc.freeing, if_pos]
    exact hself
  · exact (elt_writeHead e.1).trans (h.contents e he)
  · exact h.producer.congr le_rfl (fun _ => le_rfl) tail_writeHead rfl rfl

/-- An element that is not yet counted is the producer's. -/
theorem counting_le (pc : ProducerPc n β) : pc.counting r ≤ (eltsOf r pc.inflight).length := by
  cases pc with
  | addCursize msg =>
    rw [counting, inflight, eltsOf_singleton]
    by_cases hr : msg.ringIndex = r <;> simp [hr]
  | _ => exact Nat.zero_le _

/-- The first element of a ring is freed. -/
theorem freeElt {needSignal : Bool} {ring : SharedRing β}
    (h : MqInv cfg mq pc (.freeCursize msg needSignal))
    (hring : RingInv (cfg.ringNitems msg.ringIndex) ring (mq.live msg.ringIndex).tail (pc.counting msg.ringIndex) 0)
    (hdata : ring.data = (mq.rings msg.ringIndex).data)
    (htail : ring.tail = (mq.rings msg.ringIndex).tail) :
    MqInv cfg ((mq.setRing msg.ringIndex ring).freeElt msg) pc .idle := by
  obtain ⟨seq, rest, hheld⟩ := h.consumer
  have hlive := h.live_cons hheld
  have herase : (mq.live msg.ringIndex).erase msg.eltIndex = (mq.live msg.ringIndex).tail := by
    rw [hlive, erase_cons_head, tail_cons]
  have helt (msg' : SvmMsg n) : ((mq.setRing msg.ringIndex ring).freeElt msg).elt msg' = mq.elt msg' :=
    elt_setRing hdata msg'
  refine ⟨h.obtained, h.queue, ?_, fun r => ?_, fun r e he => h.held_congr helt r ?_, fun e he => ?_, ?_, trivial⟩
  · refine h.ring_update (fun r' hr => update_of_ne hr _ _) (fun _ _ => rfl)
      (fun r' hr => (if_neg (Ne.symm hr)).symm) ?_
    simp only [SvmMsgQ.freeElt, setRing, update_self, herase]
    exact hring
  · by_cases hr : r = msg.ringIndex
    · subst hr
      simp only [SvmMsgQ.freeElt, setRing, update_self, hlive, hheld, tail_cons,
        erase_cons_head]
      rfl
    · simp only [SvmMsgQ.freeElt, setRing, update_of_ne hr]
      exact h.live r
  · by_cases hr : r = msg.ringIndex
    · subst hr
      simp only [SvmMsgQ.freeElt, setRing, update_self] at he
      exact mem_of_mem_tail he
    · simpa only [SvmMsgQ.freeElt, setRing, update_of_ne hr] using he
  · exact (helt e.1).trans (h.contents e he)
  · refine h.producer.congr le_rfl (fun r => ?_) (fun r => ?_) rfl rfl
    · by_cases hr : r = msg.ringIndex
      · subst hr
        simp [SvmMsgQ.freeElt, setRing, herase]
      · simp [SvmMsgQ.freeElt, setRing, update_of_ne hr]
    · by_cases hr : r = msg.ringIndex
      · subst hr
        simp [SvmMsgQ.freeElt, setRing, htail]
      · simp [SvmMsgQ.freeElt, setRing, update_of_ne hr]

theorem freeCursize {needSignal : Bool} (h : MqInv cfg mq pc (.freeCursize msg needSignal)) :
    MqInv cfg ((mq.subCursize msg.ringIndex).freeElt msg) pc .idle := by
  obtain ⟨seq, rest, hheld⟩ := h.consumer
  have hlive := h.live_cons hheld
  have hring := h.ring msg.ringIndex
  rw [ConsumerPc.freeing, if_pos rfl, hlive] at hring
  have hcount : 1 ≤ (mq.rings msg.ringIndex).cursize := by
    have heq := hring.count_eq
    have hle := counting_le msg.ringIndex pc
    rw [eltsOf_append] at heq
    simp only [length_cons, length_append] at heq
    omega
  refine h.freeElt ?_ rfl rfl
  rw [hlive]
  exact hring.subCursize (cfg.ring_fits msg.ringIndex) hcount

end MqInv

end Vpp.Svm
