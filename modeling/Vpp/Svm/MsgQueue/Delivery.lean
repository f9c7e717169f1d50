import Vpp.Schemes.Run
import Vpp.Svm.MsgQueue.Steps

/-! The message queue delivers.

    Whoever is between lock and unlock is the one that holds the lock (`Owners`), so that of all producers at most
    one is at work and the invariant for that one and the consumer is an invariant of the system:

        producers   idle   waiting   idle   putTail   idle ...          lock = producer 3
                                               |
                             MqInv cfg mq  putTail  (consumer's pc) -/

namespace Vpp.Svm
open Vpp.Schemes ConsumerPc List MqState ProducerPc

variable {n : ℕ} {β : Type} {cfg : SvmMsgQCfg n}

/-! ### Steps of the two -/

namespace MqInv
variable {mq : SvmMsgQ n β} {pc : ProducerPc n β} {c : ConsumerPc n}

theorem exec_producer (h : MqInv cfg mq pc c) (cmd : ProducerCmd n β) :
    MqInv cfg (pc.exec cfg mq cmd).1 (pc.exec cfg mq cmd).2 c := by
  cases pc with
  | idle | full | waiting | unlock => exact h
  | checkQueue r noblock => exact h.checkQueue
  | checkRing r noblock => exact h.checkRing
  | readTail r => exact h.go rfl rfl rfl (fun _ => rfl) ⟨h.producer.1, h.producer.2, rfl⟩
  | writeTail r eltIndex => exact h.writeTail
  | addCursize msg => exact h.addCursize
  | allocated msg =>
    cases cmd with
    | write v => exact h.writeElt rfl rfl (fun _ => rfl) h.producer v
    | _ => exact h
  | written msg v =>
    cases cmd with
    | write v' => exact h.writeElt rfl rfl (fun _ => rfl) h.producer v'
    | add => exact h.go rfl rfl rfl (fun _ => rfl) h.producer
    | _ => exact h
  | putMsg msg v => exact h.putMsg
  | putTail msg v => exact h.putTail
  | putCursize msg v => exact h.putCursize

/-- A call of the consumer ends, maybe with a signal. -/
theorem signal_or_idle (h : MqInv cfg mq pc .idle) (needSignal : Bool) :
    MqInv cfg mq pc (if needSignal then .signal else .idle) := by
  cases needSignal with
  | true => exact h.goConsumer rfl (fun _ => rfl) trivial
  | false => exact h

theorem exec_consumer (h : MqInv cfg mq pc c) (cmd : ConsumerCmd n) :
    MqInv cfg (c.exec cfg mq cmd).1 pc (c.exec cfg mq cmd).2 := by
  cases c with
  | idle =>
    cases cmd with
    | sub => exact h.sub
    | batch nMsgs => exact h.batch nMsgs
    | free r => exact h.startFree r
    | go => exact h
  | read fn slots got =>
    cases slots with
    | nil => exact h.writeHead
    | cons slot slots => exact h.read
  | subCursize fn got => exact h.subCursize.signal_or_idle _
  | free msg => exact h.free
  | freeLoad msg => exact h.goConsumer rfl (fun _ => rfl) h.consumer
  | freeCursize msg needSignal => exact h.freeCursize.signal_or_idle _
  | signal | signalUnlock => exact h

end MqInv

/-! ### Who holds the lock -/

/-- Between lock and unlock. -/
def ProducerPc.locked : ProducerPc n β → Bool
  | .idle | .waiting _ => false
  | _ => true

variable {mq : SvmMsgQ n β}

/-- A step of a producer that is between lock and unlock does not take it out. -/
theorem ProducerPc.locked_exec {pc : ProducerPc n β} (h : pc.locked = true) (cmd : ProducerCmd n β) :
    (pc.exec cfg mq cmd).2.locked = true := by
  cases pc with
  | idle | waiting => cases h
  | checkQueue r noblock =>
    simp only [exec]
    split_ifs <;> rfl
  | checkRing r noblock =>
    simp only [exec]
    split_ifs <;> rfl
  | allocated | written => cases cmd <;> rfl
  | _ => rfl

/-- Only the signal takes the consumer to the lock. -/
theorem ConsumerPc.exec_ne_signalUnlock {c : ConsumerPc n} (h : c ≠ .signalUnlock)
    (cmd : ConsumerCmd n) : (c.exec cfg mq cmd).2 ≠ .signalUnlock := by
  cases c with
  | idle =>
    cases cmd with
    | sub | batch =>
      simp only [exec]
      split_ifs <;> simp
    | free r =>
      simp only [exec]
      split <;> simp
    | go => simp [exec]
  | read fn slots got => cases slots <;> simp [exec]
  | subCursize | freeCursize =>
    simp only [exec]
    split_ifs <;> simp
  | signalUnlock => exact absurd rfl h
  | _ => simp [exec]

structure Owners (s : MqState n β) : Prop where
  producer : ∀ p, (s.producers p).locked = true ↔ s.lock = some (.producer p)
  consumer : s.consumer = .signalUnlock ↔ s.lock = some .consumer

namespace Owners
variable {s : MqState n β} {p : ℕ} {pc : ProducerPc n β}

/-- The lock goes to or from producer `p`, or stays with it. -/
theorem setProducer (h : Owners s) {lock : Option Owner} (hp : pc.locked = true ↔ lock = some (.producer p))
    (hothers : ∀ o, o ≠ .producer p → (lock = some o ↔ s.lock = some o)) :
    Owners (s.setProducer p lock pc) where
  producer p' := by
    by_cases heq : p' = p
    · subst heq
      simpa [setProducer] using hp
    · simp only [MqState.setProducer, Function.update_of_ne heq]
      rw [h.producer p', hothers _ (by simpa using heq)]
  consumer := h.consumer.trans (hothers _ (by simp)).symm

theorem keep (h : Owners s) (hlock : s.lock = some (.producer p)) (hpc : pc.locked = true) :
    Owners (s.setProducer p s.lock pc) :=
  h.setProducer (by simp [hpc, hlock]) fun _ _ => Iff.rfl

theorem release (h : Owners s) (hlock : s.lock = some (.producer p)) (hpc : pc.locked = false) :
    Owners (s.setProducer p none pc) :=
  h.setProducer (by simp [hpc]) fun o ho => by simp [hlock, Ne.symm ho]

theorem take (h : Owners s) (hlock : s.lock = none) (hpc : pc.locked = true) :
    Owners (s.setProducer p (some (.producer p)) pc) :=
  h.setProducer (by simp [hpc]) fun o ho => by simp [hlock, Ne.symm ho]

end Owners

/-- What the producer that holds the lock is doing. -/
def MqState.working (s : MqState n β) : ProducerPc n β :=
  match s.lock with
  | some (.producer p) => s.producers p
  | _ => .idle

/-! ### The system -/

structure SystemInv (cfg : SvmMsgQCfg n) (s : MqState n β) : Prop where
  owners : Owners s
  inv : MqInv cfg s.mq s.working s.consumer

namespace SystemInv
variable {s : MqState n β} {p : ℕ} {pc : ProducerPc n β}

theorem init (cfg : SvmMsgQCfg n) (qData : ℕ → SvmMsg n) (ringData : Fin n → ℕ → β) :
    SystemInv cfg (init qData ringData) where
  owners := ⟨fun _ => by simp [MqState.init, locked], by simp [MqState.init]⟩
  inv := by
    refine ⟨rfl, ⟨0, ⟨Nat.zero_le _, ?_, ?_, rfl⟩, Stored.nil _ _ _⟩, fun r =>
      ⟨0, ⟨Nat.zero_le _, ?_, ?_, rfl⟩, rfl⟩,
      fun _ => rfl, ?_, ?_, trivial, trivial⟩
    · exact (Nat.zero_mod _).symm
    · exact (Nat.zero_mod _).symm
    · exact (Nat.zero_mod _).symm
    · exact (Nat.zero_mod _).symm
    · simp [MqState.init]
    · simp [MqState.init, MqState.working, SvmMsgQ.queued, filled]

theorem working_eq (h : SystemInv cfg s) (hpc : (s.producers p).locked = true) : s.working = s.producers p := by
  rw [working, (h.owners.producer p).mp hpc]

theorem working_setProducer (s : MqState n β) (p : ℕ) (pc : ProducerPc n β) :
    (s.setProducer p (some (.producer p)) pc).working = pc := by
  simp [working, setProducer]

section
variable (h : SystemInv cfg s)
include h

/-- A producer asks for the lock. -/
theorem acquire (r : Fin n) (noblock : Bool) : SystemInv cfg (s.acquire p (.checkQueue r noblock)) := by
  rw [MqState.acquire]
  split_ifs with hlock
  · refine ⟨h.owners.take hlock rfl, ?_⟩
    have hidle : s.working = .idle := by rw [working, hlock]
    have hinv := h.inv
    rw [hidle] at hinv
    rw [working_setProducer]
    exact hinv.go rfl rfl rfl (fun _ => rfl) trivial
  · exact h

/-- A producer gives the lock back, with nothing left to do. -/
theorem release (hpc : (s.producers p).locked = true) (hunlocked : pc.locked = false)
    (hinv : MqInv cfg s.mq (s.producers p) s.consumer → MqInv cfg s.mq .idle s.consumer) :
    SystemInv cfg (s.setProducer p none pc) :=
  ⟨h.owners.release ((h.owners.producer p).mp hpc) hunlocked, hinv (h.working_eq hpc ▸ h.inv)⟩

/-- A producer that holds the lock and keeps it. -/
theorem exec (hpc : (s.producers p).locked = true)
    (hlocked : pc.locked = true)
    (hinv : MqInv cfg s.mq (s.producers p) s.consumer → MqInv cfg mq pc s.consumer) :
    SystemInv cfg { s.setProducer p s.lock pc with mq := mq } := by
  have hlock := (h.owners.producer p).mp hpc
  have howners := h.owners.keep hlock hlocked
  refine ⟨⟨howners.producer, howners.consumer⟩, ?_⟩
  have hworking : ({ s.setProducer p s.lock pc with mq := mq } : MqState n β).working = pc := by
    rw [hlock]
    exact working_setProducer s p pc
  rw [hworking]
  exact hinv (h.working_eq hpc ▸ h.inv)

theorem produce (p : ℕ) (cmd : ProducerCmd n β) : SystemInv cfg (s.produce cfg p cmd) := by
  have hexec (hpc : (s.producers p).locked = true) :=
    h.exec hpc (locked_exec hpc cmd) fun hinv => hinv.exec_producer cmd
  unfold MqState.produce
  generalize hpc : s.producers p = pc at hexec
  cases pc with
  | idle =>
    cases cmd with
    | call r noblock => exact h.acquire r noblock
    | _ => exact h
  | waiting r => exact h.acquire r false
  | full r noblock =>
    have hlocked : (s.producers p).locked = true := by rw [hpc]; rfl
    have hgo {pc : ProducerPc n β} (hpc' : pc = .idle ∨ pc = .checkQueue r false)
        (hinv : MqInv cfg s.mq (s.producers p) s.consumer) : MqInv cfg s.mq pc s.consumer := by
      rw [hpc] at hinv
      rcases hpc' with rfl | rfl <;> exact hinv.go rfl rfl rfl (fun _ => rfl) trivial
    cases noblock with
    | true => exact h.release hlocked rfl (hgo (.inl rfl))
    | false =>
      simp only
      split_ifs with hevt
      · exact h.exec hlocked rfl (hgo (.inr rfl))
      · exact h.release hlocked rfl (hgo (.inl rfl))
  | unlock =>
    have hlocked : (s.producers p).locked = true := by rw [hpc]; rfl
    refine h.release hlocked rfl fun hinv => ?_
    rw [hpc] at hinv
    exact hinv.go rfl rfl rfl (fun _ => rfl) trivial
  | _ => exact hexec rfl

/-- The consumer's steps without the lock. -/
theorem consume_exec (hc : s.consumer ≠ .signalUnlock) {c : ConsumerPc n}
    (hc' : c ≠ .signalUnlock) (hinv : MqInv cfg mq s.working c) :
    SystemInv cfg { s with mq := mq, consumer := c } where
  owners := ⟨h.owners.producer, by
    have hlock := mt h.owners.consumer.mpr hc
    simp [hc', hlock]⟩
  inv := hinv

theorem consume (cmd : ConsumerCmd n) : SystemInv cfg (s.consume cfg cmd) := by
  have hexec (hc : s.consumer ≠ .signalUnlock) (hc' : (s.consumer.exec cfg s.mq cmd).2 ≠ .signalUnlock) :=
    h.consume_exec hc hc' (h.inv.exec_consumer cmd)
  unfold MqState.consume
  generalize hc : s.consumer = c at hexec
  have hinv := h.inv
  rw [hc] at hinv
  cases c with
  | signal =>
    have hne : s.consumer ≠ .signalUnlock := by simp [hc]
    simp only
    split_ifs with hevt hlock
    · exact h.consume_exec hne (by simp) (hinv.goConsumer rfl (fun _ => rfl) trivial)
    · have hidle : s.working = .idle := by rw [working, hlock]
      have hfree (p : ℕ) := h.owners.producer p
      rw [hlock] at hfree
      rw [hidle] at hinv
      exact ⟨⟨fun p => (hfree p).trans (by simp), by simp⟩, hinv.goConsumer rfl (fun _ => rfl) trivial⟩
    · exact h
  | signalUnlock =>
    have hlock := h.owners.consumer.mp hc
    have hidle : s.working = .idle := by rw [working, hlock]
    have hfree (p : ℕ) := h.owners.producer p
    rw [hlock] at hfree
    rw [hidle] at hinv
    exact ⟨⟨fun p => (hfree p).trans (by simp), by simp⟩, hinv.goConsumer rfl (fun _ => rfl) trivial⟩
  | _ => exact hexec (by simp) (exec_ne_signalUnlock (by simp) cmd)

theorem step (act : MqAct n β) : SystemInv cfg (s.step cfg act) := by
  cases act with
  | produce p cmd => exact h.produce p cmd
  | consume cmd => exact h.consume cmd

end

end SystemInv

/-! ### Calls among other steps -/

-- the unifier compares states field by field and would compute with `2 ^ 32`
attribute [local irreducible] u32 u32Sub

/-- What a producer does to the messages added and obtained. -/
theorem ProducerPc.exec_history (pc : ProducerPc n β) (cmd : ProducerCmd n β) :
    (pc.exec cfg mq cmd).1.obtained = mq.obtained ∧ mq.added <+: (pc.exec cfg mq cmd).1.added := by
  cases pc with
  | putCursize msg v => exact ⟨rfl, prefix_append _ _⟩
  | allocated msg | written msg v => cases cmd <;> exact ⟨rfl, prefix_refl _⟩
  | _ => exact ⟨rfl, prefix_refl _⟩

theorem SvmMsgQ.obtain_history (mq : SvmMsgQ n β) (got : List (SvmMsg n)) :
    (mq.obtain got).added = mq.added ∧ mq.obtained <+: (mq.obtain got).obtained ∧
      ∀ r, ((mq.obtain got).live r).length ≤ (mq.live r).length :=
  ⟨rfl, prefix_append mq.obtained got, fun _ => le_rfl⟩

theorem SvmMsgQ.freeElt_history (mq : SvmMsgQ n β) (msg : SvmMsg n) (r : Fin n) :
    ((mq.freeElt msg).live r).length ≤ (mq.live r).length := by
  rw [freeElt]
  by_cases hr : r = msg.ringIndex
  · subst hr
    simp only [Function.update_self]
    exact erase_sublist.length_le
  · simp only [Function.update_of_ne hr]
    exact le_rfl

/-- And the consumer, which only frees elements. -/
theorem ConsumerPc.exec_history (c : ConsumerPc n) (cmd : ConsumerCmd n) :
    (c.exec cfg mq cmd).1.added = mq.added ∧ mq.obtained <+: (c.exec cfg mq cmd).1.obtained ∧
      ∀ r, ((c.exec cfg mq cmd).1.live r).length ≤ (mq.live r).length := by
  cases c with
  | idle => cases cmd <;> exact ⟨rfl, prefix_refl _, fun _ => le_rfl⟩
  | read fn slots got => cases slots <;> exact ⟨rfl, prefix_refl _, fun _ => le_rfl⟩
  | subCursize fn got => exact SvmMsgQ.obtain_history _ got
  | free msg =>
    simp only [exec]
    split_ifs <;> exact ⟨rfl, prefix_refl _, fun _ => le_rfl⟩
  | freeCursize msg needSignal => exact ⟨rfl, prefix_refl _, SvmMsgQ.freeElt_history _ msg⟩
  | _ => exact ⟨rfl, prefix_refl _, fun _ => le_rfl⟩

namespace MqState
variable {s : MqState n β} {p : ℕ}

theorem acquire_history (s : MqState n β) (p : ℕ) (pc : ProducerPc n β) :
    (s.acquire p pc).consumer = s.consumer ∧ (s.acquire p pc).mq = s.mq := by
  rw [acquire]
  split_ifs <;> exact ⟨rfl, rfl⟩

theorem produce_history (s : MqState n β) (p : ℕ) (cmd : ProducerCmd n β) :
    (s.produce cfg p cmd).consumer = s.consumer ∧ (s.produce cfg p cmd).mq.obtained = s.mq.obtained ∧
      s.mq.added <+: (s.produce cfg p cmd).mq.added := by
  have hacquire (pc : ProducerPc n β) : (s.acquire p pc).consumer = s.consumer ∧
      (s.acquire p pc).mq.obtained = s.mq.obtained ∧ s.mq.added <+: (s.acquire p pc).mq.added := by
    obtain ⟨hc, hmq⟩ := s.acquire_history p pc
    rw [hmq]
    exact ⟨hc, rfl, prefix_refl _⟩
  unfold produce
  generalize s.producers p = pc
  have hexec := @ProducerPc.exec_history n β cfg s.mq pc cmd
  cases pc with
  | idle =>
    cases cmd with
    | call r noblock => exact hacquire _
    | _ => exact ⟨rfl, rfl, prefix_refl _⟩
  | waiting r => exact hacquire _
  | full r noblock =>
    cases noblock with
    | true => exact ⟨rfl, rfl, prefix_refl _⟩
    | false =>
      simp only
      split_ifs <;> exact ⟨rfl, rfl, prefix_refl _⟩
  | unlock => exact ⟨rfl, rfl, prefix_refl _⟩
  | _ => exact ⟨rfl, hexec⟩

theorem produce_eq {cmd : ProducerCmd n β} (h : (s.producers p).locked = true ∧ s.producers p ≠ .unlock ∧
    ∀ r noblock, s.producers p ≠ .full r noblock) : s.produce cfg p cmd =
      { s.setProducer p s.lock ((s.producers p).exec cfg s.mq cmd).2 with
        mq := ((s.producers p).exec cfg s.mq cmd).1 } := by
  obtain ⟨hlocked, hunlock, hfull⟩ := h
  unfold produce
  split <;> simp_all [locked]

theorem consume_eq (hsignal : s.consumer ≠ .signal) (hunlock : s.consumer ≠ .signalUnlock) (cmd : ConsumerCmd n) :
    s.consume cfg cmd =
      { s with mq := (s.consumer.exec cfg s.mq cmd).1, consumer := (s.consumer.exec cfg s.mq cmd).2 } := by
  unfold consume
  split
  · contradiction
  · contradiction
  · rfl

theorem consume_history (s : MqState n β) (cmd : ConsumerCmd n) :
    (s.consume cfg cmd).producers = s.producers ∧ (s.consume cfg cmd).mq.added = s.mq.added ∧
      s.mq.obtained <+: (s.consume cfg cmd).mq.obtained ∧
      ∀ r, ((s.consume cfg cmd).mq.live r).length ≤ (s.mq.live r).length := by
  have hstay : s.mq.added = s.mq.added ∧ s.mq.obtained <+: s.mq.obtained ∧
      ∀ r, (s.mq.live r).length ≤ (s.mq.live r).length := ⟨rfl, prefix_refl _, fun _ => le_rfl⟩
  by_cases hsignal : s.consumer = .signal
  · simp only [consume, hsignal]
    split_ifs <;> exact ⟨rfl, hstay⟩
  by_cases hunlock : s.consumer = .signalUnlock
  · simp only [consume, hunlock]
    exact ⟨trivial, trivial, hstay.2⟩
  rw [consume_eq hsignal hunlock]
  exact ⟨rfl, s.consumer.exec_history cmd⟩

theorem added_prefix_run (s : MqState n β) (acts : List (MqAct n β)) :
    s.mq.added <+: (run (step cfg) s acts).mq.added := by
  have hall : AllSteps (fun _ _ => True) (step cfg) s acts := AllSteps.of_forall (fun _ _ => trivial) _ _
  refine run_inv (P := fun t : MqState n β => s.mq.added <+: t.mq.added) (fun t act ht _ => ht.trans ?_) hall
    (prefix_refl _)
  cases act with
  | produce p cmd => exact (t.produce_history p cmd).2.2
  | consume cmd =>
    show t.mq.added <+: (t.consume cfg cmd).mq.added
    rw [(t.consume_history cmd).2.1]

end MqState

/-! The consumer takes messages. -/

/-- How many messages are asked for. -/
def ConsumerCmd.asks (cursize : ℕ) : ConsumerCmd n → Option ℕ
  | .sub => some 1
  | .batch nMsgs => some (min cursize nMsgs)
  | _ => none

def MqAct.ofConsumer : MqAct n β → Option (ConsumerCmd n)
  | .consume cmd => some cmd
  | .produce _ _ => none

/-- In a call that is to take `k` messages and has `left` steps to go. -/
def ConsumerPc.Taking (k left : ℕ) : ConsumerPc n → Prop
  | .read _ slots got => got.length + slots.length = k ∧ left = slots.length + 2
  | .subCursize _ got => got.length = k ∧ left = 1
  | _ => False

/-- The call of the consumer has `left` steps to go, before which it obtains nothing, or has ended. -/
def MqState.Taking (obtained : List (SvmMsg n)) (k left : ℕ) (s : MqState n β) : Prop :=
  (s.consumer.Taking k left ∧ s.mq.obtained = obtained) ∨
    (left = 0 ∧ s.mq.obtained.length = obtained.length + k)

variable {s : MqState n β}

theorem MqState.Taking.produce {obtained : List (SvmMsg n)} {k left : ℕ}
    (h : s.Taking obtained k left) (p : ℕ) (cmd : ProducerCmd n β) :
    (s.produce cfg p cmd).Taking obtained k left := by
  obtain ⟨hc, hobtained, -⟩ := @produce_history n β cfg s p cmd
  rw [Taking, hc, hobtained]
  exact h

theorem MqState.Taking.consume {obtained : List (SvmMsg n)} {k left : ℕ}
    (h : s.Taking obtained k (left + 1)) (cmd : ConsumerCmd n) : (s.consume cfg cmd).Taking obtained k left := by
  obtain ⟨hc, hobtained⟩ | ⟨hleft, -⟩ := h
  · unfold MqState.consume
    generalize s.consumer = c at hc
    cases c with
    | read fn slots got =>
      obtain ⟨hk, hleft⟩ := hc
      cases slots with
      | nil => exact .inl ⟨⟨by simpa using hk, by simpa using hleft⟩, hobtained⟩
      | cons slot slots =>
        simp only [length_cons] at hk hleft
        exact .inl ⟨⟨by rw [length_append, length_singleton]; omega, by omega⟩, hobtained⟩
    | subCursize fn got =>
      obtain ⟨hk, hleft⟩ := hc
      refine .inr ⟨by omega, ?_⟩
      have hgot : (s.mq.obtained ++ got).length = obtained.length + k := by rw [length_append, hobtained, hk]
      exact hgot
    | _ => exact hc.elim
  · cases hleft

theorem ConsumerCmd.asks_le {cursize k : ℕ} (call : ConsumerCmd n) (hne : cursize ≠ 0)
    (hk : call.asks cursize = some k) :
    k ≤ cursize := by
  cases call with
  | sub => cases hk; omega
  | batch nMsgs => cases hk; omega
  | _ => cases hk

namespace SystemInv
variable {s : MqState n β}

section
variable (h : SystemInv cfg s)
include h

/-- The count of the queue is that of the messages added and not yet obtained. -/
theorem queue_count : s.mq.obtained.length + s.mq.q.cursize = s.mq.added.length := by
  have hle := h.inv.obtained_le
  rw [h.inv.queue_cursize, SvmMsgQ.queued, length_drop]
  omega

theorem taking_start (hidle : s.consumer = .idle) (hne : s.mq.q.cursize ≠ 0)
    {call : ConsumerCmd n} {k : ℕ} (hk : call.asks s.mq.q.cursize = some k) :
    (s.consume cfg call).Taking s.mq.obtained k (k + 2) := by
  have hcount := h.inv.queue.count_le
  rw [MqState.consume, hidle]
  cases call with
  | sub =>
    cases hk
    simp only [ConsumerPc.exec, SvmMsgQ.isEmpty, hne, decide_false, Bool.false_eq_true, if_false]
    exact .inl ⟨⟨rfl, rfl⟩, rfl⟩
  | batch nMsgs =>
    cases hk
    simp only [ConsumerPc.exec, hne, if_false]
    have hlen : (batchSlots cfg s.mq.q.head (min s.mq.q.cursize nMsgs)).length = min s.mq.q.cursize nMsgs := by
      rw [batchSlots_eq cfg (h.inv.queue.head_lt (by rw [← h.inv.queue.count_eq]; omega)) (by omega), length_window]
    exact .inl ⟨⟨by rw [hlen, length_nil]; omega, by rw [hlen]⟩, rfl⟩
  | _ => cases hk

theorem run (acts : List (MqAct n β)) : SystemInv cfg (run (MqState.step cfg) s acts) :=
  run_inv (fun _ act hs _ => hs.step act) (AllSteps.of_forall (fun _ _ => trivial) acts s) h

/-- The messages of a call are the next ones, whatever the producers do meanwhile. -/
theorem takes (hidle : s.consumer = .idle) (hne : s.mq.q.cursize ≠ 0)
    {call : ConsumerCmd n} {k : ℕ} (hk : call.asks s.mq.q.cursize = some k) {acts : List (MqAct n β)}
    (hsteps : (acts.filterMap MqAct.ofConsumer).length = k + 2) :
    (Schemes.run (MqState.step cfg) s (.consume call :: acts)).mq.obtained =
      s.mq.obtained ++ s.mq.queuedMsgs.take k := by
  have hstart := h.taking_start hidle hne hk
  rw [← hsteps] at hstart
  have htaken : (Schemes.run (MqState.step cfg) (s.consume cfg call) acts).Taking s.mq.obtained k 0 := by
    refine run_own (I := fun mine (t : MqState n β) => t.Taking s.mq.obtained k mine.length) ?_ ?_ hstart
    · rintro t (⟨p, cmd⟩ | cmd) c mine hact ht
      · cases hact
      · exact ht.consume cmd
    · rintro t (⟨p, cmd⟩ | cmd) mine hact ht
      · exact ht.produce p cmd
      · cases hact
  have hinv := (h.run (.consume call :: acts)).inv.obtained
  have hadded := @added_prefix_run n β cfg s (.consume call :: acts)
  change (Schemes.run (MqState.step cfg) s (.consume call :: acts)).Taking s.mq.obtained k 0 at htaken
  generalize Schemes.run (MqState.step cfg) s (.consume call :: acts) = t at htaken hinv hadded
  have hlen : t.mq.obtained.length = s.mq.obtained.length + k := by
    obtain ⟨hc, -⟩ | ⟨-, hlen⟩ := htaken
    · generalize t.consumer = c at hc
      cases c with
      | read => simp [ConsumerPc.Taking] at hc
      | subCursize => simp [ConsumerPc.Taking] at hc
      | _ => exact hc.elim
    · exact hlen
  have hle : s.mq.obtained.length + k ≤ s.mq.added.length := by
    have hcount := h.queue_count
    have hasked := call.asks_le hne hk
    omega
  obtain ⟨rest, hrest⟩ := hadded
  calc t.mq.obtained = (s.mq.added.map Prod.fst).take (s.mq.obtained.length + k) := by
        rw [hinv, hlen, ← hrest, map_append, take_append_of_le_length (by simpa using hle)]
    _ = s.mq.obtained ++ s.mq.queuedMsgs.take k := by
        rw [take_add, ← h.inv.obtained, SvmMsgQ.queuedMsgs, SvmMsgQ.queued, map_drop]

end

end SystemInv

/-! A producer sends a message. -/

def MqAct.ofProducer (p : ℕ) : MqAct n β → Option (ProducerCmd n β)
  | .produce p' cmd => if p' = p then some cmd else none
  | .consume _ => none

/-- The commands with which a producer that has the lock sends a message: it writes `v` to the element that it is
    given and adds it. -/
def ProducerPc.toSend (v : β) : ProducerPc n β → List (ProducerCmd n β)
  | .checkQueue _ _ => .go :: .go :: .go :: .go :: .go :: .write v :: .add :: replicate 3 .go
  | .checkRing _ _ => .go :: .go :: .go :: .go :: .write v :: .add :: replicate 3 .go
  | .readTail _ => .go :: .go :: .go :: .write v :: .add :: replicate 3 .go
  | .writeTail _ _ => .go :: .go :: .write v :: .add :: replicate 3 .go
  | .addCursize _ => .go :: .write v :: .add :: replicate 3 .go
  | .allocated _ => .write v :: .add :: replicate 3 .go
  | .written _ _ => .add :: replicate 3 .go
  | .putMsg _ _ => replicate 3 .go
  | .putTail _ _ => replicate 2 .go
  | .putCursize _ _ => replicate 1 .go
  | _ => []

/-- On the way there, with room in the queue and in the ring as long as this is not yet checked. -/
def ProducerPc.Sending (cfg : SvmMsgQCfg n) (added : List (SvmMsg n × β)) (r : Fin n) (v : β) (mq : SvmMsgQ n β) :
    ProducerPc n β → Prop
  | .checkQueue r' _ =>
    mq.added = added ∧ r' = r ∧ mq.queued.length < cfg.qNitems ∧ (mq.live r).length < cfg.ringNitems r
  | .checkRing r' _ => mq.added = added ∧ r' = r ∧ (mq.live r).length < cfg.ringNitems r
  | .readTail r' | .writeTail r' _ => mq.added = added ∧ r' = r
  | .addCursize msg | .allocated msg => mq.added = added ∧ msg.ringIndex = r
  | .written msg v' | .putMsg msg v' | .putTail msg v' | .putCursize msg v' =>
    mq.added = added ∧ msg.ringIndex = r ∧ v' = v
  | .unlock => ∃ msg : SvmMsg n, msg.ringIndex = r ∧ mq.added = added ++ [(msg, v)]
  | _ => False

structure MqState.Sending (cfg : SvmMsgQCfg n) (added : List (SvmMsg n × β)) (p : ℕ) (r : Fin n) (v : β)
    (mine : List (ProducerCmd n β)) (s : MqState n β) : Prop where
  inv : SystemInv cfg s
  lock : s.lock = some (.producer p)
  toSend : mine = (s.producers p).toSend v
  sending : (s.producers p).Sending cfg added r v s.mq

namespace ProducerPc.Sending
variable {pc : ProducerPc n β} {added : List (SvmMsg n × β)} {r : Fin n} {v : β} {cmd : ProducerCmd n β}
  {mine : List (ProducerCmd n β)}

/-- There is room for the message, and the producer is given what it needs. -/
theorem exec (h : pc.Sending cfg added r v mq) (hmine : cmd :: mine = pc.toSend v)
    (hqueue : mq.q.cursize = mq.queued.length) (hring : (mq.rings r).cursize + pc.counting r = (mq.live r).length) :
    mine = (pc.exec cfg mq cmd).2.toSend v ∧ (pc.exec cfg mq cmd).2.Sending cfg added r v (pc.exec cfg mq cmd).1 := by
  cases pc with
  | checkQueue r' noblock =>
    obtain ⟨ha, rfl, hroom, hlive⟩ := h
    cases hmine
    have hfull : mq.isFull cfg = false := by
      rw [SvmMsgQ.isFull, decide_eq_false_iff_not]
      omega
    simp only [ProducerPc.exec, hfull]
    exact ⟨rfl, ha, rfl, hlive⟩
  | checkRing r' noblock =>
    obtain ⟨ha, rfl, hlive⟩ := h
    cases hmine
    have hfull : mq.ringIsFull cfg r' = false := by
      rw [SvmMsgQ.ringIsFull, decide_eq_false_iff_not]
      omega
    simp only [ProducerPc.exec, hfull]
    exact ⟨rfl, ha, rfl⟩
  | putCursize msg v' =>
    obtain ⟨ha, hr, rfl⟩ := h
    cases hmine
    exact ⟨rfl, msg, hr, by rw [← ha]; rfl⟩
  | allocated msg =>
    cases hmine
    exact ⟨rfl, h.1, h.2, rfl⟩
  | readTail | writeTail | addCursize | written | putMsg | putTail =>
    cases hmine
    exact ⟨rfl, h⟩
  | unlock => cases hmine
  | _ => exact h.elim

/-- As long as it has something to do. -/
theorem keeps (h : pc.Sending cfg added r v mq) (hmine : cmd :: mine = pc.toSend v) : pc.locked = true ∧
    pc ≠ .unlock ∧ ∀ r noblock, pc ≠ .full r noblock := by
  cases pc with
  | unlock => cases hmine
  | idle | waiting | full => exact h.elim
  | _ => exact ⟨rfl, by simp, by simp⟩

end ProducerPc.Sending

namespace MqState.Sending
variable {s : MqState n β} {added : List (SvmMsg n × β)} {p : ℕ} {r : Fin n} {v : β}
    {mine : List (ProducerCmd n β)}

/-- The others are not at work, and do not get the lock. -/
theorem produce_other (h : s.Sending cfg added p r v mine) {p' : ℕ} (hne : p' ≠ p) (cmd : ProducerCmd n β) :
    s.produce cfg p' cmd = s := by
  have hlocked : (s.producers p').locked = false := by
    rw [← Bool.not_eq_true, h.inv.owners.producer p', h.lock]
    simpa using hne.symm
  have hacquire (pc : ProducerPc n β) : s.acquire p' pc = s := by simp [acquire, h.lock]
  unfold produce
  generalize s.producers p' = pc at hlocked
  cases pc with
  | idle =>
    cases cmd with
    | call r noblock => exact hacquire _
    | _ => rfl
  | waiting r => exact hacquire _
  | _ => cases hlocked

/-- The consumer only makes room. -/
theorem consume (h : s.Sending cfg added p r v mine) (cmd : ConsumerCmd n) :
    (s.consume cfg cmd).Sending cfg added p r v mine := by
  obtain ⟨hproducers, hadded, hobtained, hlive⟩ := @consume_history n β cfg s cmd
  refine ⟨h.inv.consume cmd, ?_, ?_, ?_⟩
  · have hunlock : s.consumer ≠ .signalUnlock := by
      rw [Ne, h.inv.owners.consumer, h.lock]
      simp
    by_cases hsignal : s.consumer = .signal
    · simp only [MqState.consume, hsignal]
      split_ifs with hevt hlock
      · exact h.lock
      · rw [h.lock] at hlock; cases hlock
      · exact h.lock
    · rw [consume_eq hsignal hunlock]
      exact h.lock
  · rw [hproducers]
    exact h.toSend
  · have hqueued : (s.consume cfg cmd).mq.queued.length ≤ s.mq.queued.length := by
      simp only [SvmMsgQ.queued, hadded, length_drop]
      have hle := hobtained.length_le
      omega
    have hsending := h.sending
    rw [hproducers]
    generalize s.producers p = pc at hsending
    cases pc with
    | checkQueue r' noblock =>
      obtain ⟨ha, hr, hqueue, hring⟩ := hsending
      exact ⟨hadded.trans ha, hr, hqueued.trans_lt hqueue, (hlive r).trans_lt hring⟩
    | checkRing r' noblock =>
      obtain ⟨ha, hr, hring⟩ := hsending
      exact ⟨hadded.trans ha, hr, (hlive r).trans_lt hring⟩
    | unlock =>
      obtain ⟨msg, hr, ha⟩ := hsending
      exact ⟨msg, hr, hadded.trans ha⟩
    | idle | full | waiting => exact hsending.elim
    | _ => exact ⟨hadded.trans hsending.1, hsending.2⟩

/-- And the producer goes on. -/
theorem produce {cmd : ProducerCmd n β} (h : s.Sending cfg added p r v (cmd :: mine)) :
    (s.produce cfg p cmd).Sending cfg added p r v mine := by
  have hworking := h.inv.working_eq ((h.inv.owners.producer p).mpr h.lock)
  have hring := (h.inv.inv.ring r).count_eq
  rw [hworking] at hring
  obtain ⟨htoSend, hsending⟩ := h.sending.exec h.toSend h.inv.inv.queue_cursize hring
  have hexec := @produce_eq n β cfg s p cmd (h.sending.keeps h.toSend)
  refine ⟨h.inv.produce p cmd, ?_, ?_, ?_⟩ <;> rw [hexec]
  · exact h.lock
  · simpa [setProducer] using htoSend
  · simpa [setProducer] using hsending

end MqState.Sending

/-- What a producer sends comes to the end of the queue, where there is room for it, whatever the others do
    meanwhile. -/
theorem SystemInv.sends (h : SystemInv cfg s) (hlock : s.lock = none) {p : ℕ}
    (hidle : s.producers p = .idle) {r : Fin n} (hqueue : s.mq.q.cursize < cfg.qNitems)
    (hring : (s.mq.rings r).cursize < cfg.ringNitems r) {noblock : Bool} {v : β}
    {acts : List (MqAct n β)}
    (hsteps : acts.filterMap (MqAct.ofProducer p) = (ProducerPc.checkQueue r noblock).toSend v) :
    ∃ msg : SvmMsg n, msg.ringIndex = r ∧
      (Schemes.run (MqState.step cfg) s (.produce p (.call r noblock) :: acts)).mq.added =
      s.mq.added ++ [(msg, v)] := by
  have hworking : s.working = .idle := by rw [working, hlock]
  have hlive := (h.inv.ring r).count_eq
  rw [hworking] at hlive
  have hcalled : s.produce cfg p (.call r noblock) = s.setProducer p (some (.producer p)) (.checkQueue r noblock) := by
    simp only [MqState.produce, hidle]
    exact if_pos hlock
  have hstart : (s.produce cfg p (.call r noblock)).Sending cfg s.mq.added p r v
      (acts.filterMap (MqAct.ofProducer p)) := by
    refine ⟨h.produce p _, ?_, ?_, ?_⟩ <;> rw [hcalled]
    · rfl
    · simpa [setProducer] using hsteps
    · simp only [setProducer, Function.update_self]
      exact ⟨rfl, rfl, h.inv.queue_cursize ▸ hqueue, hlive ▸ hring⟩
  have hsent : (Schemes.run (MqState.step cfg) (s.produce cfg p (.call r noblock)) acts).Sending cfg s.mq.added p r v
      [] := by
    refine run_own (I := fun mine (t : MqState n β) => t.Sending cfg s.mq.added p r v mine) ?_ ?_ hstart
    · rintro t (⟨p', cmd⟩ | cmd) c mine hact ht
      · obtain ⟨rfl, rfl⟩ : p' = p ∧ cmd = c := by simpa [MqAct.ofProducer] using hact
        exact ht.produce
      · cases hact
    · rintro t (⟨p', cmd⟩ | cmd) mine hact ht
      · have hne : p' ≠ p := by simpa [MqAct.ofProducer] using hact
        rw [MqState.step, ht.produce_other hne cmd]
        exact ht
      · exact ht.consume cmd
  change (Schemes.run (MqState.step cfg) s (.produce p (.call r noblock) :: acts)).Sending cfg
    s.mq.added p r v [] at hsent
  obtain ⟨-, -, htoSend, hsending⟩ := hsent
  generalize (Schemes.run (MqState.step cfg) s (.produce p (.call r noblock) :: acts)).producers p =
    pc at htoSend hsending
  cases pc with
  | unlock => exact hsending
  | idle | waiting | full => exact hsending.elim
  | _ => cases htoSend

/-! ### Delivery -/

/-- A producer is in none of the calls before and after it has written an element. -/
def ProducerPc.inCall : ProducerPc n β → Bool
  | .idle | .allocated _ | .written _ _ => false
  | _ => true

/-- No call is in progress. -/
structure Quiet (s : MqState n β) : Prop where
  producers : ∀ p, (s.producers p).inCall = false
  consumer : s.consumer = .idle

structure Delivers (cfg : SvmMsgQCfg n) (s : MqState n β) : Prop where
  /-- The messages that the consumer obtained are those that were added, in order, none left out and none twice. -/
  in_order : s.mq.obtained <+: s.mq.added.map Prod.fst
  /-- In the element of a message that the consumer holds is what its producer had written before it was added. -/
  contents : ∀ r, ∀ e ∈ s.mq.held r, s.mq.obtained[e.2]? = some e.1 ∧
    s.mq.added[e.2]? = some (e.1, s.mq.elt e.1)
  /-- No element is allocated again before it is freed. -/
  exclusive : ∀ r, (s.mq.live r).Nodup
  /-- Elements that are held or queued are not free. -/
  in_use : ∀ r, (s.mq.held r).map (·.1.eltIndex) ++ eltsOf r s.mq.queuedMsgs <+: s.mq.live r
  queue_bound : s.mq.q.cursize ≤ cfg.qNitems
  ring_bound : ∀ r, (s.mq.rings r).cursize ≤ cfg.ringNitems r
  /-- The count of the queue is that of the messages added and not yet obtained, -/
  queue_count : s.mq.obtained.length + s.mq.q.cursize = s.mq.added.length
  /-- and the count of a ring that of the elements allocated and not yet freed, unless one is just being counted. -/
  ring_count : Quiet s → ∀ r, (s.mq.rings r).cursize = (s.mq.live r).length
  /-- `svm_msg_q_sub_raw` and `svm_msg_q_sub_raw_batch` on a queue with messages obtain the next ones, with as many
      steps of the consumer as there are messages to copy and two more, among any steps of the producers. -/
  takes : s.consumer = .idle → s.mq.q.cursize ≠ 0 → ∀ call k, ConsumerCmd.asks s.mq.q.cursize call = some k →
    ∀ acts : List (MqAct n β), (acts.filterMap MqAct.ofConsumer).length = k + 2 →
      (run (step cfg) s (.consume call :: acts)).mq.obtained = s.mq.obtained ++ s.mq.queuedMsgs.take k
  /-- A producer that finds the lock free and room in queue and ring is given an element of the ring, and
      `svm_msg_q_add` appends the message with what it wrote there, among any steps of the others. -/
  sends : s.lock = none → ∀ p, s.producers p = .idle → ∀ r noblock v, s.mq.q.cursize < cfg.qNitems →
    (s.mq.rings r).cursize < cfg.ringNitems r → ∀ acts : List (MqAct n β),
      acts.filterMap (MqAct.ofProducer p) = replicate 5 .go ++ [.write v, .add] ++ replicate 3 .go →
      ∃ msg : SvmMsg n, msg.ringIndex = r ∧
        (run (step cfg) s (.produce p (.call r noblock) :: acts)).mq.added = s.mq.added ++ [(msg, v)]

theorem SystemInv.delivers (h : SystemInv cfg s) : Delivers cfg s where
  in_order := by
    rw [h.inv.obtained]
    exact take_prefix _ _
  contents r e he := by
    obtain ⟨-, hseq, hadded⟩ := h.inv.held r e he
    refine ⟨?_, hadded⟩
    rw [h.inv.obtained, getElem?_take_of_lt hseq, getElem?_map, hadded]
    rfl
  exclusive r := (h.inv.ring r).nodup
  in_use r := by
    rw [h.inv.live r, MqInv.eltsOf_append, ← append_assoc]
    exact prefix_append _ _
  queue_bound := h.inv.queue.count_le
  ring_bound r := (h.inv.ring r).count_le
  queue_count := h.queue_count
  ring_count hquiet r := by
    have hcounting : s.working.counting r = 0 := by
      have hcall : s.working.inCall = false := by
        rw [working]
        split
        · exact hquiet.producers _
        · rfl
      cases hw : s.working with
      | addCursize msg => simp [hw, inCall] at hcall
      | _ => rfl
    have hcount := (h.inv.ring r).count_eq
    rwa [hcounting] at hcount
  takes hidle hne call k hk acts hsteps := h.takes hidle hne hk hsteps
  sends hlock p hidle r noblock v hqueue hring acts hsteps := h.sends hlock hidle hqueue hring hsteps

/-- Whatever the order in which producers and consumer take their steps. -/
theorem msgQueue_delivers (cfg : SvmMsgQCfg n) (qData : ℕ → SvmMsg n) (ringData : Fin n → ℕ → β)
    (acts : List (MqAct n β)) : Delivers cfg (run (step cfg) (init qData ringData) acts) :=
  ((SystemInv.init cfg qData ringData).run acts).delivers

/-- Two producers, the second of which comes while the first is at work, and the consumer takes both messages. -/
example :
    let cfg : SvmMsgQCfg 1 := ⟨2, fun _ => 2, true, by decide, by decide⟩
    let send (p v : ℕ) : List (MqAct 1 ℕ) :=
      .produce p (.call 0 false) :: replicate 5 (.produce p .go) ++ [.produce p (.write v), .produce p .add] ++
        replicate 4 (.produce p .go)
    let take : List (MqAct 1 ℕ) := .consume (.batch 7) :: replicate 5 (.consume .go)
    let s := run (step cfg) (init (fun _ => ⟨0, 0⟩) fun _ _ => 0)
      (.produce 1 (.call 0 false) :: send 0 5 ++ replicate 12 (.produce 1 .go) ++ send 1 6 ++ send 0 7 ++ take)
    (s.mq.obtained.map fun msg => (msg.eltIndex, s.mq.elt msg)) = [(0, 6), (1, 7)] := by
  decide +kernel

end Vpp.Svm
