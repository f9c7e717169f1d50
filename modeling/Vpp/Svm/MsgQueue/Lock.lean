import Vpp.Svm.MsgQueue.Delivery

/-! The lock of the message queue is given back.

    `svm_msg_q_add` takes the lock itself, for a message that was allocated before. It leaves by three ways, and by one
    of them with the lock:

        try_lock fails       -1     not taken
        queue full, nowait   -2     still held
        added                 0     given back -/

namespace Vpp.Svm
open Vpp.Schemes List MqState

variable {n : ℕ} {β : Type} {cfg : SvmMsgQCfg n} {p : ℕ}

/-! ### The steps of the queue -/

/-- A step of producer `p` leaves the lock free, or it ends inside of a call and takes the lock from nobody. -/
def Passes (lock : Option Owner) (p : ℕ) (lock' : Option Owner) (inside : Bool) : Prop :=
  lock' = none ∨ inside = true ∧ (lock' = lock ∨ lock' = some (.producer p))

theorem MqState.produce_cases (s : MqState n β) (p : ℕ) (cmd : ProducerCmd n β) : s.produce cfg p cmd = s ∨
    ∃ mq lock pc, s.produce cfg p cmd = { s.setProducer p lock pc with mq := mq } ∧
      Passes s.lock p lock pc.locked := by
  unfold produce
  generalize s.producers p = pc
  have hset {lock : Option Owner} {pc : ProducerPc n β} (h : Passes s.lock p lock pc.locked) :
      s.setProducer p lock pc = s ∨ ∃ mq lock' pc', s.setProducer p lock pc =
        { s.setProducer p lock' pc' with mq := mq } ∧ Passes s.lock p lock' pc'.locked := .inr ⟨_, _, _, rfl, h⟩
  have hacquire {pc : ProducerPc n β} (h : pc.locked = true) : s.acquire p pc = s ∨
    ∃ mq lock' pc', s.acquire p pc =
      { s.setProducer p lock' pc' with mq := mq } ∧ Passes s.lock p lock' pc'.locked := by
    rw [acquire]
    split_ifs
    · exact hset (.inr ⟨h, .inr rfl⟩)
    · exact .inl rfl
  cases pc with
  | idle =>
    cases cmd with
    | call r noblock => exact hacquire rfl
    | _ => exact .inl rfl
  | waiting r => exact hacquire rfl
  | full r noblock =>
    cases noblock with
    | true => exact hset (.inl rfl)
    | false =>
      simp only
      split_ifs
      · exact hset (.inr ⟨rfl, .inl rfl⟩)
      · exact hset (.inl rfl)
  | unlock => exact hset (.inl rfl)
  | _ => exact .inr ⟨_, _, _, rfl, .inr ⟨ProducerPc.locked_exec rfl cmd, .inl rfl⟩⟩

/-! ### `svm_msg_q_add` -/

/-- What a producer in `svm_msg_q_add` does next, up to `svm_msg_q_add_raw`. -/
inductive AddPc (n : ℕ) where
  /-- the lock is held, `svm_msg_q_is_full` is next -/
  | checkQueue (msg : SvmMsg n) (nowait : Bool)
  | full (msg : SvmMsg n) (nowait : Bool)
  /-- in `pthread_cond_wait`, without the lock -/
  | waiting (msg : SvmMsg n)

def AddPc.locked : AddPc n → Bool
  | .waiting _ => false
  | _ => true

/-- The queue, with the producers that are in `svm_msg_q_add`. -/
structure AddState (n : ℕ) (β : Type) where
  mqs : MqState n β
  adding : ℕ → Option (AddPc n)

open AddState

inductive AddAct (n : ℕ) (β : Type) where
  | add (p : ℕ) (msg : SvmMsg n) (nowait : Bool)
  | produce (p : ℕ) (cmd : ProducerCmd n β)
  | consume (cmd : ConsumerCmd n)

namespace AddState

def set (s : AddState n β) (p : ℕ) (lock : Option Owner) (pc : Option (AddPc n)) : AddState n β :=
  ⟨{ s.mqs with lock := lock }, Function.update s.adding p pc⟩

/-- The lock is taken where it is free. Where it is not, `svm_msg_q_try_lock` fails, and `svm_msg_q_lock` waits. -/
def acquire (s : AddState n β) (p : ℕ) (msg : SvmMsg n) (nowait : Bool) : AddState n β :=
  if s.mqs.lock = none then s.set p (some (.producer p)) (some (.checkQueue msg nowait)) else s

def addStep (cfg : SvmMsgQCfg n) (s : AddState n β) (p : ℕ) : AddPc n → AddState n β
  | .checkQueue msg nowait =>
    if s.mqs.mq.isFull cfg then s.set p s.mqs.lock (some (.full msg nowait))
    else ⟨s.mqs.setProducer p s.mqs.lock (.putMsg msg (s.mqs.mq.elt msg)), Function.update s.adding p none⟩
  -- `return (-2)`
  | .full _ true => s.set p s.mqs.lock none
  | .full msg false =>
    if cfg.evtfd then s.set p s.mqs.lock (some (.checkQueue msg false)) else s.set p none (some (.waiting msg))
  | .waiting msg => s.acquire p msg false

def step (cfg : SvmMsgQCfg n) (s : AddState n β) : AddAct n β → AddState n β
  | .add p msg nowait =>
    match s.mqs.producers p, s.adding p with
    | .idle, none => s.acquire p msg nowait
    | _, _ => s
  | .produce p cmd =>
    match s.adding p with
    | some pc => s.addStep cfg p pc
    | none => { s with mqs := s.mqs.produce cfg p cmd }
  | .consume cmd => { s with mqs := s.mqs.consume cfg cmd }

/-- No `svm_msg_q_add` that does not wait is about to find the queue full. -/
def findsRoom (cfg : SvmMsgQCfg n) (s : AddState n β) : AddAct n β → Bool
  | .produce p _ =>
    match s.adding p with
    | some (.checkQueue _ true) => !s.mqs.mq.isFull cfg
    | _ => true
  | _ => true

/-- Producer `p` is between the lock and the unlock of one of the calls. -/
def inside (s : AddState n β) (p : ℕ) : Bool := (s.adding p).elim (s.mqs.producers p).locked AddPc.locked

end AddState

/-! ### The lock -/

structure LockInv (s : AddState n β) : Prop where
  producer : ∀ p, s.mqs.lock = some (.producer p) → s.inside p = true
  consumer : s.mqs.lock = some .consumer → s.mqs.consumer = .signalUnlock
  waits : ∀ p msg, s.adding p ≠ some (.full msg true)

namespace LockInv
variable {s s' : AddState n β}

section
variable (h : LockInv s)
include h

theorem move (p : ℕ) (hcons : s'.mqs.consumer = s.mqs.consumer)
    (hothers : ∀ q ≠ p, s'.inside q = s.inside q) (hpass : Passes s.mqs.lock p s'.mqs.lock (s'.inside p))
    (hwaits : ∀ q msg, s'.adding q ≠ some (.full msg true)) : LockInv s' := by
  rcases hpass with hnone | ⟨hin, heq | htaken⟩
  · exact ⟨fun q hq => absurd (hnone ▸ hq) nofun, fun hq => absurd (hnone ▸ hq) nofun, hwaits⟩
  · refine ⟨fun q hq => ?_, fun hq => hcons ▸ h.consumer (heq ▸ hq), hwaits⟩
    by_cases hqp : q = p
    · exact hqp ▸ hin
    · exact hothers q hqp ▸ h.producer q (heq ▸ hq)
  · refine ⟨fun q hq => ?_, fun hq => absurd (htaken ▸ hq) nofun, hwaits⟩
    cases htaken.symm.trans hq
    exact hin

/-- A step inside `svm_msg_q_add`. -/
theorem set {lock : Option Owner} {pc : AddPc n} (hpass : Passes s.mqs.lock p lock pc.locked)
    (hpc : ∀ msg, pc ≠ .full msg true) : LockInv (s.set p lock (some pc)) := by
  refine h.move p rfl (fun q hq => by simp [AddState.inside, AddState.set, hq])
    (by simpa [AddState.inside, AddState.set] using hpass) fun q msg => ?_
  by_cases hq : q = p
  · subst hq
    simpa [AddState.set] using hpc msg
  · simpa [AddState.set, hq] using h.waits q msg

theorem acquire (msg : SvmMsg n) (nowait : Bool) : LockInv (s.acquire p msg nowait) := by
  rw [AddState.acquire]
  split_ifs
  · exact h.set (.inr ⟨rfl, .inr rfl⟩) nofun
  · exact h

theorem addStep {pc : AddPc n} (hp : s.adding p = some pc)
    (hroom : ∀ msg, pc = .checkQueue msg true → s.mqs.mq.isFull cfg = false) : LockInv (s.addStep cfg p pc) := by
  cases pc with
  | checkQueue msg nowait =>
    simp only [AddState.addStep]
    split_ifs with hfull
    · refine h.set (.inr ⟨rfl, .inl rfl⟩) ?_
      rintro m ⟨⟩
      simp [hroom msg rfl] at hfull
    · refine h.move p rfl (fun q hq => by simp [inside, setProducer, hq])
        (.inr ⟨by simp [inside, setProducer, ProducerPc.locked], .inl rfl⟩) fun q m => ?_
      by_cases hq : q = p
      · simp [hq]
      · simpa [hq] using h.waits q m
  | full msg nowait =>
    cases nowait with
    | true => exact absurd hp (h.waits p msg)
    | false =>
      simp only [AddState.addStep]
      split_ifs
      · exact h.set (.inr ⟨rfl, .inl rfl⟩) (by simp)
      · exact h.set (.inl rfl) (by simp)
  | waiting msg => exact h.acquire msg false

theorem produce (hp : s.adding p = none) (cmd : ProducerCmd n β) :
    LockInv { s with mqs := s.mqs.produce cfg p cmd } := by
  obtain heq | ⟨mq, lock, pc, heq, hpass⟩ := s.mqs.produce_cases p cmd
  · rw [heq]
    exact h
  · rw [heq]
    exact h.move p rfl (fun q hq => by simp [inside, setProducer, hq])
      (by simpa [inside, setProducer, hp] using hpass) h.waits

theorem consume (cmd : ConsumerCmd n) : LockInv { s with mqs := s.mqs.consume cfg cmd } := by
  have hfree (hc : s.mqs.consumer ≠ .signalUnlock) (mq : SvmMsgQ n β) (c : ConsumerPc n) :
      LockInv { s with mqs := { s.mqs with mq := mq, consumer := c } } :=
    ⟨h.producer, fun hq => absurd (h.consumer hq) hc, h.waits⟩
  unfold MqState.consume
  generalize s.mqs.consumer = c at hfree
  cases c with
  | signal =>
    simp only
    split_ifs
    · exact hfree (by simp) _ _
    · exact ⟨nofun, fun _ => rfl, h.waits⟩
    · exact h
  | signalUnlock => exact ⟨nofun, nofun, h.waits⟩
  | _ => exact hfree (by simp) _ _

theorem step {act : AddAct n β} (hok : s.findsRoom cfg act = true) : LockInv (s.step cfg act) := by
  cases act with
  | add p msg nowait =>
    simp only [AddState.step]
    split
    · exact h.acquire msg nowait
    · exact h
  | produce p cmd =>
    simp only [AddState.step]
    cases hp : s.adding p with
    | some pc =>
      refine h.addStep hp fun msg hpc => ?_
      simpa [findsRoom, hp, hpc] using hok
    | none => exact h.produce hp cmd
  | consume cmd => exact h.consume cmd

end

end LockInv

/-- A queue that is just initialised, with no producer in a call. -/
def AddState.init (qData : ℕ → SvmMsg n) (ringData : Fin n → ℕ → β) : AddState n β :=
  ⟨MqState.init qData ringData, fun _ => none⟩

/-- In every run in which no `svm_msg_q_add` without waiting finds the queue full: when all producers are outside of the
    calls and have added what they allocated, the lock is free, unless the consumer has it for a signal. -/
theorem msgQueue_lock_free (cfg : SvmMsgQCfg n) (qData : ℕ → SvmMsg n) (ringData : Fin n → ℕ → β)
    (acts : List (AddAct n β))
    (hok : AllSteps (fun s act => s.findsRoom cfg act = true) (AddState.step cfg) (.init qData ringData) acts) :
    let s := run (AddState.step cfg) (.init qData ringData) acts
    (∀ p, s.adding p = none ∧ s.mqs.producers p = .idle) →
      s.mqs.lock = none ∨ s.mqs.lock = some .consumer ∧ s.mqs.consumer = .signalUnlock := by
  intro s hidle
  have hinv : LockInv s := run_inv (fun _ _ h hok => h.step hok) hok ⟨nofun, nofun, fun _ _ => nofun⟩
  have hno (p : ℕ) : s.mqs.lock ≠ some (.producer p) := by
    refine mt (hinv.producer p) ?_
    simp [inside, hidle p, ProducerPc.locked]
  cases hlock : s.mqs.lock with
  | none => exact .inl rfl
  | some o =>
    cases o with
    | producer p => exact absurd hlock (hno p)
    | consumer => exact .inr ⟨rfl, hinv.consumer hlock⟩

/-- A queue for one message, and a producer that has added one. -/
def oneMsg : SvmMsgQCfg 1 := ⟨1, fun _ => 2, true, by decide, by decide⟩

def sendOne : List (AddAct 1 ℕ) :=
  .produce 0 (.call 0 true) :: replicate 5 (.produce 0 .go) ++ [.produce 0 (.write 5), .produce 0 .add] ++
    replicate 4 (.produce 0 .go)

theorem msgQueue_lock_free_sent :
    let s := run (AddState.step oneMsg) (.init (fun _ => ⟨0, 0⟩) fun _ _ => 0) sendOne
    s.mqs.lock = none ∨ s.mqs.lock = some .consumer ∧ s.mqs.consumer = .signalUnlock :=
  msgQueue_lock_free oneMsg _ _ sendOne (by decide +kernel) fun
    | 0 => ⟨rfl, rfl⟩
    | _ + 1 => ⟨rfl, rfl⟩

/-- Another one, which does not wait, returns with the lock. -/
theorem msgQueue_lock_kept :
    let s := run (AddState.step oneMsg) (.init (fun _ => ⟨0, 0⟩) fun _ _ => 0)
      (sendOne ++ .add 1 ⟨0, 0⟩ true :: replicate 2 (.produce 1 .go))
    (∀ p, s.adding p = none ∧ s.mqs.producers p = .idle) ∧ s.mqs.lock = some (.producer 1) :=
  ⟨fun
    | 0 | 1 => ⟨rfl, rfl⟩
    | _ + 2 => ⟨rfl, rfl⟩, rfl⟩

end Vpp.Svm
