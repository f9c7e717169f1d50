import Vpp.Ipsec.Spd.Runs

/-! The locks of security associations (`vnet/ipsec/ipsec_sa.c`).

    An SA lives as long as somebody holds a lock of it: its creator, until `ipsec_sa_unlock_id`, and every
    PROTECT policy that names it.

        ipsec_sa_add_and_lock ─▶ [creator]              ─▶ ipsec_sa_unlock_id
        policy added          ─▶ [creator, policy, ..]  ─▶ policy deleted

    The last lock that is given back frees the SA. The deletion of an SPD gives back nothing, and
    `ipsec_sa_unlock_id` does not know whether the creator still holds its lock; in runs that avoid both,
    the locks are counted exactly. -/

namespace Vpp.Ipsec.SaLocks
open Vpp.Schemes Finset Option Pool Function SpdHistory

/-- The fields of `ipsec_sa_t` that policies read, and `fn_locks` of its node. -/
structure SaEntry where
  id : BitVec 32
  spi : BitVec 32
  isTunnel : Bool
  tunnelDst : BitVec 128
  tunnelSrc : BitVec 128
  locks : ℕ
  deriving DecidableEq

/-- `ipsec_sa_pool` and `sa_index_by_sa_id`. -/
structure SaPool where
  pool : Pool SaEntry
  saIndexBySaId : BitVec 32 → Option ℕ

open SaPool

/-- The SAs as the policies see them. -/
def SaPool.table (d : SaPool) : SaTable where
  find := d.saIndexBySaId
  spi i := ((d.pool.get? i).map (·.spi)).getD 0
  isTunnel i := ((d.pool.get? i).map (·.isTunnel)).getD false
  tunnelDst i := ((d.pool.get? i).map (·.tunnelDst)).getD 0
  tunnelSrc i := ((d.pool.get? i).map (·.tunnelSrc)).getD 0

/-- What `ipsec_sa_add_and_lock` and `ipsec_sa_unlock_id` return; `tunnel` is the result of
    `tunnel_resolve`. -/
inductive SaError where
  | entryAlreadyExists | noSuchEntry | initFailed | keyLength | unimplemented | syscallError1 | tunnel
  deriving DecidableEq

/-- `ipsec_sa_add_and_lock`, where `failure` is the error that the random numbers, the keys, the crypto
    engines or the tunnel give rise to. But for the first the slot is taken by then, and given back. -/
def ipsecSaAddAndLock (d : SaPool) (sa : SaEntry) (failure : Option SaError) : SaPool × Option SaError :=
  if (d.saIndexBySaId sa.id).isSome then (d, some .entryAlreadyExists)
  else
    let (pool, saIndex) := d.pool.alloc { sa with locks := 1 }
    match failure with
    | some .initFailed => (d, some .initFailed)
    | some e => ({ d with pool := pool.put saIndex }, some e)
    | none => (⟨pool, update d.saIndexBySaId sa.id (some saIndex)⟩, none)

def fibNodeLock (d : SaPool) (saIndex : ℕ) : Except Fault SaPool := do
  let sa ← deref (d.pool.get? saIndex)
  return { d with pool := d.pool.set saIndex { sa with locks := sa.locks + 1 } }

def ipsecSaDel (d : SaPool) (saIndex : ℕ) (sa : SaEntry) : SaPool where
  pool := d.pool.put saIndex
  saIndexBySaId := update d.saIndexBySaId sa.id none

/-- `fib_node_unlock`, with `ipsec_sa_last_lock_gone`. -/
def fibNodeUnlock (d : SaPool) (saIndex : ℕ) : Except Fault SaPool := do
  let sa ← deref (d.pool.get? saIndex)
  if sa.locks - 1 = 0 then return ipsecSaDel d saIndex sa
  else return { d with pool := d.pool.set saIndex { sa with locks := sa.locks - 1 } }

def ipsecSaUnlockId (d : SaPool) (id : BitVec 32) : Except Fault (SaPool × Option SaError) := do
  match d.saIndexBySaId id with
  | none => return (d, some .noSuchEntry)
  | some saIndex => return (← fibNodeUnlock d saIndex, none)

/-- What an operation on policies does to the locks. -/
def SaPool.lockStep (d : SaPool) : SaLockOp → Except Fault SaPool
  | .lock saIndex => fibNodeLock d saIndex
  | .unlock saIndex => fibNodeUnlock d saIndex

/-! ### Runs -/

inductive SaOp where
  | saAddAndLock (sa : SaEntry) (failure : Option SaError)
  | saUnlockId (id : BitVec 32)
  | addDelSpd (spdId : BitVec 32) (isAdd : Bool)
  | addDelPolicy (policy : IpsecPolicy) (isAdd : Bool)

/-- The SAs and the SPDs, with the SAs whose creator has not given its lock back. -/
structure SaHistory where
  sas : SaPool
  spd : SpdHistory
  created : Finset ℕ

open SaHistory

def SaHistory.step (s : SaHistory) : SaOp → Except Fault SaHistory
  | .saAddAndLock sa failure =>
    let (sas, error) := ipsecSaAddAndLock s.sas sa failure
    return { s with
      sas := sas
      created := if error = none then s.created ∪ (sas.saIndexBySaId sa.id).toFinset else s.created }
  | .saUnlockId id => do
    let (sas, _) ← ipsecSaUnlockId s.sas id
    return { s with sas := sas, created := s.created \ (s.sas.saIndexBySaId id).toFinset }
  | .addDelSpd spdId isAdd => return { s with spd := ← s.spd.step s.sas.table (.addDelSpd spdId isAdd) }
  | .addDelPolicy policy isAdd => do
    let (im, reply) ← ipsecAddDelPolicy s.sas.table s.spd.im policy isAdd
    return { s with
      sas := ← runM lockStep s.sas reply.saLocks
      spd := s.spd.afterPolicy policy im reply }

def SaHistory.init (fpIsEnabled : Bool → Bool → Bool) : SaHistory :=
  ⟨⟨empty, fun _ => none⟩, SpdHistory.init fpIsEnabled, ∅⟩

/-- The live PROTECT policies of existing SPDs. -/
def liveProtect (s : SpdHistory) : Finset ℕ :=
  (range s.im.policies.slots.length).filter fun i =>
    ((s.im.policies.get? i).any fun p =>
      p.policy = .protect ∧ (s.im.spdIndexBySpdId p.id).isSome ∧ i ∈ s.live p.id p.type) = true

/-- The SA of a policy. -/
def saOf (s : SpdHistory) (i : ℕ) : Option ℕ := (s.im.policies.get? i).bind (·.saIndex)

/-- The locks that the SA should have: its creator's, and one for each PROTECT policy. -/
def lockCount (created : Finset ℕ) (s : SpdHistory) (a : ℕ) : ℕ :=
  (if a ∈ created then 1 else 0) + uses (liveProtect s) (saOf s) (some a)

/-- Every SA has the locks it should have, and every PROTECT policy has its SA. -/
structure LocksExact (s : SaHistory) : Prop where
  count : ∀ a sa, s.sas.pool.get? a = some sa → sa.locks = lockCount s.created s.spd a
  inUse : ∀ i ∈ liveProtect s.spd, ∃ a, saOf s.spd i = some a ∧ (s.sas.pool.get? a).isSome

/-- The operation does not give back a lock that the creator of the SA no longer holds, and does not delete an
    SPD with PROTECT policies. -/
def SaOp.Safe (s : SaHistory) : SaOp → Prop
  | .saAddAndLock _ _ => True
  | .saUnlockId id => ∀ a ∈ s.sas.saIndexBySaId id, a ∈ s.created
  | .addDelSpd spdId isAdd => isAdd = false →
    ∀ i ∈ liveProtect s.spd, ∀ p ∈ s.spd.im.policies.get? i, p.id ≠ spdId
  | .addDelPolicy _ _ => True

instance SaOp.decidableSafe (s : SaHistory) : (op : SaOp) → Decidable (op.Safe s)
  | .saAddAndLock _ _ => isTrue trivial
  | .saUnlockId id => inferInstanceAs (Decidable (∀ a ∈ s.sas.saIndexBySaId id, a ∈ s.created))
  | .addDelSpd spdId isAdd => inferInstanceAs (Decidable (isAdd = false →
      ∀ i ∈ liveProtect s.spd, ∀ p ∈ s.spd.im.policies.get? i, p.id ≠ spdId))
  | .addDelPolicy _ _ => isTrue trivial

/-! ### The live PROTECT policies -/

section
variable {s : SpdHistory} {sas : SaTable} {held : Finset ℕ} {policy : IpsecPolicy} {im' : IpsecMain} {i : ℕ}
    {reply : SpdReply}

theorem mem_liveProtect : i ∈ liveProtect s ↔ ∃ p, s.im.policies.get? i = some p ∧ p.policy = .protect ∧
    (s.im.spdIndexBySpdId p.id).isSome ∧ i ∈ s.live p.id p.type := by
  rw [liveProtect, mem_filter, mem_range, any_eq_true]
  constructor
  · rintro ⟨-, p, hp, hprop⟩
    exact ⟨p, hp, of_decide_eq_true hprop⟩
  · rintro ⟨p, hp, hprop⟩
    exact ⟨(List.getElem?_eq_some_iff.mp (get?_eq_some.mp hp)).1, p, hp, decide_eq_true hprop⟩

/-- What is the same for a policy leaves it where it was. -/
theorem mem_liveProtect_congr {s' : SpdHistory} (hget : s'.im.policies.get? i = s.im.policies.get? i)
    (hindex : ∀ p, s.im.policies.get? i = some p → s'.im.spdIndexBySpdId p.id = s.im.spdIndexBySpdId p.id)
    (hlive : ∀ p, s.im.policies.get? i = some p → (i ∈ s'.live p.id p.type ↔ i ∈ s.live p.id p.type)) :
    i ∈ liveProtect s' ↔ i ∈ liveProtect s := by
  rw [mem_liveProtect, mem_liveProtect, hget]
  refine exists_congr fun p => and_congr_right fun hp => and_congr_right fun _ => ?_
  rw [hindex p hp, hlive p hp]

theorem saOf_eq {p : IpsecPolicy} (h : s.im.policies.get? i = some p) : saOf s i = p.saIndex := by
  rw [saOf, h]; rfl

theorem saOf_congr {s' : SpdHistory} (h : s'.im.policies.get? i = s.im.policies.get? i) :
    saOf s' i = saOf s i := by
  rw [saOf, saOf, h]

/-- An operation on a policy leaves the others where they were. -/
theorem mem_liveProtect_afterPolicy {j : ℕ} (hstat : reply.statIndex ≠ some j)
    (hindex : im'.spdIndexBySpdId = s.im.spdIndexBySpdId)
    (hget : im'.policies.get? j = s.im.policies.get? j) :
    j ∈ liveProtect (s.afterPolicy policy im' reply) ↔ j ∈ liveProtect s := by
  refine mem_liveProtect_congr hget (fun p _ => congrFun hindex p.id) fun p hp => ?_
  rw [afterPolicy]
  by_cases hsame : p.id = policy.id ∧ p.type = policy.type
  · have hsome : (im'.policies.get? j).isSome := by rw [hget, hp]; rfl
    simp [hsame, withLive, mem_liveAfter hsome, hstat]
  · rw [s.live_withLive_of_ne hsame]

/-- A policy is added. -/
theorem liveProtect_added (hspd : (s.im.spdIndexBySpdId policy.id).isSome) {sa : Option ℕ}
    (hadd : Added s.im im' { policy with saIndex := sa } i) (hstat : reply.statIndex = some i) :
    liveProtect (s.afterPolicy policy im' reply) =
      if policy.policy = .protect then insert i (liveProtect s) else liveProtect s := by
  obtain ⟨m, hget⟩ := hadd.get
  have hi : im'.policies.get? i = some _ := (hget i).trans (if_pos rfl)
  have hself : i ∈ liveProtect (s.afterPolicy policy im' reply) ↔ policy.policy = .protect := by
    rw [mem_liveProtect]
    constructor
    · rintro ⟨p, hp, hprotect, -⟩
      rw [show (s.afterPolicy policy im' reply).im.policies.get? i = _ from hi] at hp
      cases hp
      exact hprotect
    · intro hprotect
      refine ⟨_, hi, hprotect, ?_, ?_⟩
      · rw [show (s.afterPolicy policy im' reply).im.spdIndexBySpdId = _ from hadd.index]
        exact hspd
      · have hsome : (im'.policies.get? i).isSome := by rw [hi]; rfl
        simp [afterPolicy, withLive, mem_liveAfter hsome, hstat]
  have hfresh : i ∉ liveProtect s := by
    intro hmem
    obtain ⟨p, hp, -⟩ := mem_liveProtect.mp hmem
    rw [hadd.fresh] at hp
    cases hp
  ext j
  by_cases hj : j = i
  · subst hj
    rw [hself]
    split <;> simp [*]
  · rw [mem_liveProtect_afterPolicy (by simp [hstat, Ne.symm hj]) hadd.index ((hget j).trans (if_neg hj))]
    split <;> simp [hj]

/-- A policy is deleted. -/
theorem liveProtect_deleted (hdel : Deleted s.im im' i) (hstat : reply.statIndex = none) :
    liveProtect (s.afterPolicy policy im' reply) = (liveProtect s).erase i := by
  ext j
  rw [mem_erase]
  by_cases hj : j = i
  · subst hj
    rw [mem_liveProtect, show (s.afterPolicy policy im' reply).im.policies.get? j = _ from hdel.get j]
    simp
  · rw [mem_liveProtect_afterPolicy (by simp [hstat]) hdel.index ((hdel.get j).trans (if_neg hj))]
    exact (and_iff_right hj).symm

/-- An operation on policies that changes nothing. -/
theorem liveProtect_unchanged (hstat : reply.statIndex = none) :
    liveProtect (s.afterPolicy policy s.im reply) = liveProtect s := by
  ext j
  exact mem_liveProtect_afterPolicy (by simp [hstat]) rfl rfl

/-- An SPD is created or deleted that has no PROTECT policies. -/
theorem liveProtect_afterSpd {spdId : BitVec 32} (hpol : im'.policies = s.im.policies)
    (hindex : ∀ id, id ≠ spdId → im'.spdIndexBySpdId id = s.im.spdIndexBySpdId id)
    (hnone : ∀ i ∈ liveProtect s, ∀ p ∈ s.im.policies.get? i, p.id ≠ spdId) :
    liveProtect (s.afterSpd spdId im') = liveProtect s := by
  have hget : ∀ j, (s.afterSpd spdId im').im.policies.get? j = s.im.policies.get? j := by
    intro j
    rw [← hpol]
    rfl
  have hlive : ∀ id, id ≠ spdId → (s.afterSpd spdId im').live id = s.live id := by
    intro id hne
    exact update_of_ne hne _ _
  ext j
  rw [mem_liveProtect, mem_liveProtect, hget]
  refine exists_congr fun p => and_congr_right fun hp => and_congr_right fun hprotect => ?_
  by_cases hid : p.id = spdId
  · constructor
    · rintro ⟨-, hmem⟩
      simp [hid, afterSpd] at hmem
    · rintro ⟨hspd, hmem⟩
      exact absurd hid (hnone j (mem_liveProtect.mpr ⟨p, hp, hprotect, hspd, hmem⟩) p hp)
  · rw [show (s.afterSpd spdId im').im.spdIndexBySpdId p.id = _ from hindex p.id hid, hlive p.id hid]

end

/-! ### The invariant -/

/-- The locks are exact, the index finds the SAs, and no policy but the live PROTECT policies has an SA. -/
structure SaInv (s : SaHistory) (held : Finset ℕ) : Prop where
  spd : SpdInv s.sas.table s.spd held
  indexed : Indexed SaEntry.id s.sas.pool s.sas.saIndexBySaId
  exact : LocksExact s
  locked : ∀ a sa, s.sas.pool.get? a = some sa → 0 < sa.locks
  owned : ∀ i p, s.spd.im.policies.get? i = some p → p.saIndex.isSome → i ∈ liveProtect s.spd
  created : ∀ a ∈ s.created, (s.sas.pool.get? a).isSome

/-- The SA with a new number of locks, which is gone where there are none. -/
def SaEntry.recount (sa : SaEntry) (n : ℕ) : Option SaEntry := if n = 0 then none else some { sa with locks := n }

/-- An SA that has as many locks as it should have. -/
theorem SaEntry.recount_self {sa : SaEntry} (h : 0 < sa.locks) : sa.recount sa.locks = some sa := by
  rw [SaEntry.recount, if_neg (by omega)]

variable {d : SaPool}

theorem agreeAt_of_recount {d' : SaPool} {a n : ℕ} {sa : SaEntry} (ha : d.pool.get? a = some sa)
    (ha' : d'.pool.get? a = sa.recount n) (hn : n ≠ 0) : SaTable.AgreeAt d.table d'.table a := by
  rw [SaEntry.recount, if_neg hn] at ha'
  constructor <;> simp [table, ha, ha']

section
variable {s : SaHistory} {held held' created' : Finset ℕ} {d' : SaPool} {spd' : SpdHistory} {a : ℕ} {sa : SaEntry}

/-- The policies and the locks change together: every SA gets the locks it should have, and the SAs of the
    PROTECT policies were there before. -/
theorem SaInv.of_recount (hspd : SpdInv s.sas.table spd' held')
    (hindexed : Indexed SaEntry.id d'.pool d'.saIndexBySaId)
    (hget : ∀ b, d'.pool.get? b = (s.sas.pool.get? b).bind (·.recount (lockCount created' spd' b)))
    (hinUse : ∀ i ∈ liveProtect spd', ∃ b, saOf spd' i = some b ∧ (s.sas.pool.get? b).isSome)
    (howned : ∀ i p, spd'.im.policies.get? i = some p → p.saIndex.isSome → i ∈ liveProtect spd')
    (hcreated : ∀ b ∈ created', (s.sas.pool.get? b).isSome) : SaInv ⟨d', spd', created'⟩ held' := by
  -- an SA that somebody needs is still there
  have hkept : ∀ b, (s.sas.pool.get? b).isSome → lockCount created' spd' b ≠ 0 →
      ∃ sa, s.sas.pool.get? b = some sa ∧ d'.pool.get? b = sa.recount (lockCount created' spd' b) ∧
        (d'.pool.get? b).isSome := by
    intro b hb hcount
    obtain ⟨sa, hsa⟩ := isSome_iff_exists.mp hb
    have hnew := hget b
    rw [hsa, bind_some] at hnew
    exact ⟨sa, hsa, hnew, by rw [hnew, SaEntry.recount, if_neg hcount]; rfl⟩
  have huses : ∀ i ∈ liveProtect spd', ∀ b, saOf spd' i = some b → lockCount created' spd' b ≠ 0 := by
    intro i hi b hb
    have hpos := uses_pos_iff.mpr ⟨i, hi, hb⟩
    rw [lockCount]
    omega
  have hinUse' : ∀ i ∈ liveProtect spd', ∃ b, saOf spd' i = some b ∧ (d'.pool.get? b).isSome := by
    intro i hi
    obtain ⟨b, hb, hsome⟩ := hinUse i hi
    obtain ⟨-, -, -, hsome'⟩ := hkept b hsome (huses i hi b hb)
    exact ⟨b, hb, hsome'⟩
  have hcount : ∀ b sa, d'.pool.get? b = some sa →
      sa.locks = lockCount created' spd' b ∧ lockCount created' spd' b ≠ 0 := by
    intro b sa hb
    rw [hget] at hb
    obtain ⟨sa₀, -, hb⟩ := bind_eq_some_iff.mp hb
    rw [SaEntry.recount] at hb
    split at hb
    · cases hb
    · next hne => cases hb; exact ⟨rfl, hne⟩
  refine ⟨?_, hindexed, ⟨fun b sa hb => (hcount b sa hb).1, hinUse'⟩, ?_, howned, ?_⟩
  · refine hspd.frame_sas fun i p hp b hb => ?_
    have hi : i ∈ liveProtect spd' := howned i p hp (by rw [hb]; rfl)
    have hsa : saOf spd' i = some b := by rw [saOf_eq hp]; exact hb
    obtain ⟨b', hb', hsome⟩ := hinUse i hi
    rw [hsa] at hb'
    cases hb'
    obtain ⟨sa, hold, hnew, -⟩ := hkept b hsome (huses i hi b hsa)
    exact agreeAt_of_recount hold hnew (huses i hi b hsa)
  · intro b sa hb
    obtain ⟨hlocks, hne⟩ := hcount b sa hb
    omega
  · intro b hb
    obtain ⟨-, -, -, hsome⟩ := hkept b (hcreated b hb) (by simp [lockCount, hb])
    exact hsome

/-- The SAs whose number of locks is right stay as they are. -/
theorem SaInv.recount_of_eq (h : SaInv s held) {b : ℕ}
    (hcount : lockCount created' spd' b = lockCount s.created s.spd b) :
    (s.sas.pool.get? b).bind (·.recount (lockCount created' spd' b)) = s.sas.pool.get? b := by
  cases hb : s.sas.pool.get? b with
  | none => rfl
  | some sa => rw [bind_some, hcount, ← h.exact.count b sa hb, SaEntry.recount_self (h.locked b sa hb)]

/-- The SAs are the same, whichever slots are free, and so are the PROTECT policies. -/
theorem SaInv.kept (h : SaInv s held) (hspd : SpdInv s.sas.table spd' held')
    (hindexed : Indexed SaEntry.id d'.pool d'.saIndexBySaId) (hget : ∀ b, d'.pool.get? b = s.sas.pool.get? b)
    (hlive : liveProtect spd' = liveProtect s.spd) (hsa : ∀ i ∈ liveProtect s.spd, saOf spd' i = saOf s.spd i)
    (howned : ∀ i p, spd'.im.policies.get? i = some p → p.saIndex.isSome → i ∈ liveProtect s.spd) :
    SaInv ⟨d', spd', s.created⟩ held' := by
  refine .of_recount hspd hindexed (fun b => (hget b).trans (h.recount_of_eq ?_).symm) ?_ (hlive ▸ howned) h.created
  · rw [lockCount, lockCount, hlive, uses_congr hsa]
  · intro i hi
    rw [hlive] at hi
    rw [hsa i hi]
    exact h.exact.inUse i hi

/-! ### Locks that are taken and given back -/

/-- One SA gets a new number of locks. -/
structure Relocked (d d' : SaPool) (a n : ℕ) : Prop where
  indexed : Indexed SaEntry.id d'.pool d'.saIndexBySaId
  get : ∀ b, d'.pool.get? b = if b = a then (d.pool.get? a).bind (·.recount n) else d.pool.get? b

section

variable (hindexed : Indexed SaEntry.id d.pool d.saIndexBySaId)
include hindexed

theorem fibNodeLock_spec (ha : d.pool.get? a = some sa) : ∃ d', fibNodeLock d a = .ok d' ∧
    Relocked d d' a (sa.locks + 1) := by
  refine ⟨{ d with pool := d.pool.set a { sa with locks := sa.locks + 1 } }, ?_, ?_, ?_⟩
  · simp only [fibNodeLock, ha, deref_some, bind_ok]
    rfl
  · exact hindexed.modify ha rfl
  · intro b
    rw [get?_set ha, ha]
    rfl

theorem fibNodeUnlock_spec (ha : d.pool.get? a = some sa) : ∃ d', fibNodeUnlock d a = .ok d' ∧
    Relocked d d' a (sa.locks - 1) := by
  by_cases hlast : sa.locks - 1 = 0
  · refine ⟨ipsecSaDel d a sa, ?_, hindexed.remove ha, ?_⟩
    · simp only [fibNodeUnlock, ha, deref_some, bind_ok, hlast, if_true]
      rfl
    · intro b
      rw [ipsecSaDel, get?_put ha, ha, bind_some, SaEntry.recount, if_pos hlast]
  · refine ⟨{ d with pool := d.pool.set a { sa with locks := sa.locks - 1 } }, ?_, ?_, ?_⟩
    · simp only [fibNodeUnlock, ha, deref_some, bind_ok, hlast, if_false]
      rfl
    · exact hindexed.modify ha rfl
    · intro b
      rw [get?_set ha, ha, bind_some, SaEntry.recount, if_neg hlast]

/-- A lock that is taken is given back, and nothing has changed. -/
theorem lock_unlock {sa : Option ℕ} (hlocked : ∀ a sa, d.pool.get? a = some sa → 0 < sa.locks)
    (hsa : ∀ a ∈ sa, (d.pool.get? a).isSome) :
    ∃ d', runM lockStep d (lockSa sa ++ unlockSa sa) = .ok d' ∧
      Indexed SaEntry.id d'.pool d'.saIndexBySaId ∧ ∀ b, d'.pool.get? b = d.pool.get? b := by
  cases sa with
  | none => exact ⟨d, rfl, hindexed, fun _ => rfl⟩
  | some a =>
    obtain ⟨sa, ha⟩ := isSome_iff_exists.mp (hsa a rfl)
    obtain ⟨d₁, hlock, hindexed₁, hget₁⟩ := fibNodeLock_spec hindexed ha
    have ha₁ : d₁.pool.get? a = some { sa with locks := sa.locks + 1 } := by
      rw [hget₁, if_pos rfl, ha]
      rfl
    obtain ⟨d₂, hunlock, hindexed₂, hget₂⟩ := fibNodeUnlock_spec hindexed₁ ha₁
    refine ⟨d₂, ?_, hindexed₂, ?_⟩
    · simp [lockSa, unlockSa, runM, lockStep, hlock, hunlock]
    · intro b
      rw [hget₂, ha₁]
      split
      · next hb =>
        rw [hb, ha, bind_some]
        exact SaEntry.recount_self (hlocked a sa ha)
      · next hb => rw [hget₁, if_neg hb]

end

theorem Relocked.of_same {d₁ : SaPool} {n : ℕ} (hsame : ∀ b, d₁.pool.get? b = d.pool.get? b)
    (h : Relocked d₁ d' a n) : Relocked d d' a n :=
  ⟨h.indexed, fun b => by rw [h.get, hsame, hsame]⟩

/-- One SA gets the locks it should have, and nothing changes for the others. -/
theorem SaInv.relocked (h : SaInv s held) {n : ℕ} (hre : Relocked s.sas d' a n)
    (hn : lockCount created' spd' a = n)
    (hother : ∀ b, b ≠ a → lockCount created' spd' b = lockCount s.created s.spd b) (b : ℕ) :
    d'.pool.get? b = (s.sas.pool.get? b).bind (·.recount (lockCount created' spd' b)) := by
  rw [hre.get]
  split
  · next heq => rw [heq, hn]
  · next hne => exact (h.recount_of_eq (hother b hne)).symm

/-! ### The operations -/

theorem SaInv.find (h : SaInv s held) {id : BitVec 32} (hid : s.sas.table.find id = some a) :
    (s.sas.pool.get? a).isSome := by
  obtain ⟨sa, hsa, -⟩ := h.indexed.live id a hid
  rw [hsa]; rfl

/-- `ipsec_sa_add_and_lock` fails and leaves the SAs as they were, or takes a free slot. -/
theorem ipsecSaAddAndLock_spec (hindexed : Indexed SaEntry.id d.pool d.saIndexBySaId) (sa : SaEntry)
    (failure : Option SaError) :
    (∃ d' e, ipsecSaAddAndLock d sa failure = (d', some e) ∧ Indexed SaEntry.id d'.pool d'.saIndexBySaId ∧
      ∀ b, d'.pool.get? b = d.pool.get? b) ∨
    ∃ d' a, ipsecSaAddAndLock d sa failure = (d', none) ∧ Indexed SaEntry.id d'.pool d'.saIndexBySaId ∧
      d'.saIndexBySaId sa.id = some a ∧ d.pool.get? a = none ∧
      ∀ b, d'.pool.get? b = if b = a then some { sa with locks := 1 } else d.pool.get? b := by
  cases hid : d.saIndexBySaId sa.id with
  | some a => exact Or.inl ⟨d, .entryAlreadyExists, by simp [ipsecSaAddAndLock, hid], hindexed, fun _ => rfl⟩
  | none =>
    have hsame := get?_alloc_put d.pool { sa with locks := 1 }
    cases failure with
    | none =>
      refine Or.inr ⟨_, _, by simp only [ipsecSaAddAndLock, hid]; rfl, ?_, update_self _ _ _, ?_, ?_⟩
      · exact hindexed.insert (a := { sa with locks := 1 }) hid
      · exact get?_alloc_index _ _
      · exact get?_alloc _ _
    | some e =>
      refine Or.inl ?_
      by_cases he : e = .initFailed
      · subst he
        exact ⟨d, .initFailed, by simp only [ipsecSaAddAndLock, hid]; rfl, hindexed, fun _ => rfl⟩
      · let slot := d.pool.alloc { sa with locks := 1 }
        refine ⟨{ d with pool := slot.1.put slot.2 }, e, ?_, hindexed.congr hsame, hsame⟩
        simp only [ipsecSaAddAndLock, hid]
        cases e <;> first | exact absurd rfl he | rfl

section
variable (h : SaInv s held)
include h

/-- A new SA has the lock of its creator. -/
theorem SaInv.insert (hindexed : Indexed SaEntry.id d'.pool d'.saIndexBySaId)
    (hfree : s.sas.pool.get? a = none)
    (hget : ∀ b, d'.pool.get? b = if b = a then some { sa with locks := 1 } else s.sas.pool.get? b) :
    SaInv ⟨d', s.spd, insert a s.created⟩ held := by
  have hne : ∀ b, (s.sas.pool.get? b).isSome → b ≠ a := by
    rintro b hb rfl
    rw [hfree] at hb
    cases hb
  have hkept : ∀ b, (s.sas.pool.get? b).isSome → d'.pool.get? b = s.sas.pool.get? b := by
    intro b hb
    rw [hget, if_neg (hne b hb)]
  -- nobody referred to the slot before it was taken
  have hunused : uses (liveProtect s.spd) (saOf s.spd) (some a) = 0 := by
    refine Nat.eq_zero_of_not_pos fun hpos => ?_
    revert hpos
    rw [uses_pos_iff]
    rintro ⟨i, hi, hsa⟩
    obtain ⟨b, hb, hsome⟩ := h.exact.inUse i hi
    rw [hsa] at hb
    cases hb
    exact hne a hsome rfl
  refine ⟨?_, hindexed, ⟨?_, ?_⟩, ?_, h.owned, ?_⟩
  · refine h.spd.frame_sas fun i p hp b hb => ?_
    obtain ⟨b', hb', hsome⟩ := h.exact.inUse i (h.owned i p hp (by rw [hb]; rfl))
    rw [saOf_eq hp, hb] at hb'
    cases hb'
    constructor <;> simp [table, hkept b hsome]
  · intro b sa' hb
    rw [hget] at hb
    split at hb
    · next heq =>
      cases hb
      simp [lockCount, heq, hunused]
    · next hba =>
      rw [h.exact.count b sa' hb]
      simp [lockCount, hba]
  · intro i hi
    obtain ⟨b, hb, hsome⟩ := h.exact.inUse i hi
    exact ⟨b, hb, by rw [hkept b hsome]; exact hsome⟩
  · intro b sa' hb
    rw [hget] at hb
    split at hb
    · cases hb; exact one_pos
    · exact h.locked b sa' hb
  · intro b hb
    rcases mem_insert.mp hb with rfl | hmem
    · rw [hget, if_pos rfl]; rfl
    · rw [hkept b (h.created b hmem)]; exact h.created b hmem

/-- The creator gives its lock back. -/
theorem SaInv.unlockId {id : BitVec 32} (hid : s.sas.saIndexBySaId id = some a)
    (hmem : a ∈ s.created) :
    ∃ d', fibNodeUnlock s.sas a = .ok d' ∧ SaInv ⟨d', s.spd, s.created.erase a⟩ held := by
  obtain ⟨sa, ha, -⟩ := h.indexed.live id a hid
  obtain ⟨d', hunlock, hre⟩ := fibNodeUnlock_spec h.indexed ha
  have hcount : lockCount (s.created.erase a) s.spd a = sa.locks - 1 := by
    rw [h.exact.count a sa ha]
    simp [lockCount, hmem]
  have hother : ∀ b, b ≠ a → lockCount (s.created.erase a) s.spd b = lockCount s.created s.spd b := by
    intro b hb
    simp [lockCount, hb]
  refine ⟨d', hunlock, .of_recount h.spd hre.indexed (h.relocked hre hcount hother) h.exact.inUse h.owned ?_⟩
  intro b hb
  exact h.created b (mem_of_mem_erase hb)

/-- A policy is added: its SA, if it has one, has one lock more. -/
theorem SaInv.added {policy : IpsecPolicy} {im' : IpsecMain} {sa : Option ℕ}
    {i : ℕ} (hspd : (s.spd.im.spdIndexBySpdId policy.id).isSome)
    (hsa : policySaIndex s.sas.table policy = some sa)
    (hadd : Added s.spd.im im' { policy with saIndex := sa } i) (hstat : reply.statIndex = some i)
    (hinv : SpdInv s.sas.table (s.spd.afterPolicy policy im' reply) held') :
    ∃ d', runM lockStep s.sas (lockSa sa) = .ok d' ∧
      SaInv ⟨d', s.spd.afterPolicy policy im' reply, s.created⟩ held' := by
  set s' := s.spd.afterPolicy policy im' reply
  have hlive : liveProtect s' = _ := liveProtect_added hspd hadd hstat
  obtain ⟨m, hget⟩ := hadd.get
  have hi : im'.policies.get? i = some _ := (hget i).trans (if_pos rfl)
  have hnew : saOf s' i = sa := by
    rw [saOf, show s'.im.policies.get? i = _ from hi]
    rfl
  have hold : ∀ j, j ≠ i → im'.policies.get? j = s.spd.im.policies.get? j :=
    fun j hj => (hget j).trans (if_neg hj)
  have hne : ∀ j ∈ liveProtect s.spd, j ≠ i := by
    rintro j hj rfl
    obtain ⟨p, hp, -⟩ := mem_liveProtect.mp hj
    rw [hadd.fresh] at hp
    cases hp
  have hsaOf : ∀ j ∈ liveProtect s.spd, saOf s' j = saOf s.spd j :=
    fun j hj => saOf_congr (hold j (hne j hj))
  rw [policySaIndex] at hsa
  split at hsa
  · next hprotect =>
    rw [if_pos hprotect] at hlive
    obtain ⟨a, hfind, rfl⟩ := map_eq_some_iff.mp hsa
    obtain ⟨sa, ha⟩ := isSome_iff_exists.mp (h.find hfind)
    obtain ⟨d', hlock, hre⟩ := fibNodeLock_spec h.indexed ha
    have hcount : ∀ b, lockCount s.created s' b =
        lockCount s.created s.spd b + if some a = some b then 1 else 0 := by
      intro b
      rw [lockCount, lockCount, hlive, uses_insert (fun hmem => hne i hmem rfl) hsaOf, hnew, add_assoc]
    refine ⟨d', ?_, .of_recount hinv hre.indexed (h.relocked hre ?_ ?_) ?_ ?_ h.created⟩
    · simp [lockSa, runM, lockStep, hlock]
    · rw [hcount, if_pos rfl, h.exact.count a sa ha]
    · intro b hb
      rw [hcount, if_neg (by simpa using Ne.symm hb), add_zero]
    · intro j hj
      rw [hlive] at hj
      rcases mem_insert.mp hj with rfl | hmem
      · exact ⟨a, hnew, h.find hfind⟩
      · rw [hsaOf j hmem]
        exact h.exact.inUse j hmem
    · intro j p hp hsome
      rw [hlive]
      by_cases hj : j = i
      · exact hj ▸ mem_insert_self _ _
      · exact mem_insert_of_mem (h.owned j p ((hold j hj).symm.trans hp) hsome)
  · next hprotect =>
    rw [if_neg hprotect] at hlive
    cases hsa
    refine ⟨s.sas, rfl, h.kept hinv h.indexed (fun _ => rfl) hlive hsaOf fun j p hp hsome => ?_⟩
    by_cases hj : j = i
    · subst hj
      rw [← saOf_eq hp, hnew] at hsome
      cases hsome
    · exact h.owned j p ((hold j hj).symm.trans hp) hsome

/-- A policy is deleted: its SA, if it has one, has one lock less. -/
theorem SaInv.deleted {policy vp : IpsecPolicy} {im' : IpsecMain} {i : ℕ}
    {d₁ : SaPool} (hindexed : Indexed SaEntry.id d₁.pool d₁.saIndexBySaId)
    (hsame : ∀ b, d₁.pool.get? b = s.sas.pool.get? b) (hvp : s.spd.im.policies.get? i = some vp)
    (hdel : Deleted s.spd.im im' i) (hstat : reply.statIndex = none)
    (hinv : SpdInv s.sas.table (s.spd.afterPolicy policy im' reply) held') :
    ∃ d', runM lockStep d₁ (unlockSa vp.saIndex) = .ok d' ∧
      SaInv ⟨d', s.spd.afterPolicy policy im' reply, s.created⟩ held' := by
  set s' := s.spd.afterPolicy policy im' reply
  have hlive : liveProtect s' = _ := liveProtect_deleted hdel hstat
  have hold : ∀ j, j ≠ i → im'.policies.get? j = s.spd.im.policies.get? j :=
    fun j hj => (hdel.get j).trans (if_neg hj)
  have hsaOf : ∀ j, j ≠ i → saOf s' j = saOf s.spd j :=
    fun j hj => saOf_congr (hold j hj)
  have hinUse : ∀ j ∈ liveProtect s', ∃ b, saOf s' j = some b ∧ (s.sas.pool.get? b).isSome := by
    intro j hj
    rw [hlive] at hj
    obtain ⟨hne, hmem⟩ := mem_erase.mp hj
    rw [hsaOf j hne]
    exact h.exact.inUse j hmem
  have howned : ∀ j p, s'.im.policies.get? j = some p → p.saIndex.isSome → j ∈ liveProtect s' := by
    intro j p hp hsome
    have hj : j ≠ i := by
      rintro rfl
      rw [show s'.im.policies.get? j = _ from hdel.get j, if_pos rfl] at hp
      cases hp
    rw [hlive]
    exact mem_erase.mpr ⟨hj, h.owned j p ((hold j hj).symm.trans hp) hsome⟩
  cases hsa : vp.saIndex with
  | none =>
    -- a policy without SA is no PROTECT policy
    have hnot : i ∉ liveProtect s.spd := by
      intro hi
      obtain ⟨b, hb, -⟩ := h.exact.inUse i hi
      rw [saOf_eq hvp, hsa] at hb
      cases hb
    rw [erase_eq_of_notMem hnot] at hlive
    exact ⟨d₁, rfl, h.kept hinv hindexed hsame hlive (fun j hj => hsaOf j (by rintro rfl; exact hnot hj))
      (hlive ▸ howned)⟩
  | some a =>
    have hi : i ∈ liveProtect s.spd := h.owned i vp hvp (by rw [hsa]; rfl)
    have hia : saOf s.spd i = some a := (saOf_eq hvp).trans hsa
    obtain ⟨b, hb, hsome⟩ := h.exact.inUse i hi
    rw [hia] at hb
    cases hb
    obtain ⟨sa, ha⟩ := isSome_iff_exists.mp hsome
    obtain ⟨d', hunlock, hre⟩ := fibNodeUnlock_spec hindexed ((hsame a).trans ha)
    have huses : ∀ b, uses (liveProtect s') (saOf s') (some b) =
        uses (liveProtect s.spd) (saOf s.spd) (some b) - if some a = some b then 1 else 0 := by
      intro b
      rw [hlive, uses_erase hi fun j hj => hsaOf j (mem_erase.mp hj).1, hia]
    refine ⟨d', ?_, .of_recount hinv hre.indexed (h.relocked (hre.of_same hsame) ?_ ?_) hinUse howned h.created⟩
    · simp [unlockSa, runM, lockStep, hunlock]
    · have hpos := uses_pos_iff.mpr ⟨i, hi, hia⟩
      rw [h.exact.count a sa ha, lockCount, lockCount, huses, if_pos rfl]
      omega
    · intro b hb
      simp [lockCount, huses, Ne.symm hb]

/-- `ipsec_add_del_policy`: the locks stay exact, and a failure changes none. -/
theorem SaInv.addDelPolicy (policy : IpsecPolicy) (isAdd : Bool) :
    ∃ im reply sas' held', ipsecAddDelPolicy s.sas.table s.spd.im policy isAdd = .ok (im, reply) ∧
      runM lockStep s.sas reply.saLocks = .ok sas' ∧
      SaInv ⟨sas', s.spd.afterPolicy policy im reply, s.created⟩ held' ∧
      (reply.error.isSome → ∀ a, sas'.pool.get? a = s.sas.pool.get? a) := by
  obtain ⟨im, reply, held', hstep, hout, hinv, -⟩ := ipsecAddDelPolicy_spec h.spd policy isAdd
  have hfound : ∀ {sa : Option ℕ}, (∀ a ∈ sa, s.sas.table.find policy.saId = some a) →
      ∀ a ∈ sa, (s.sas.pool.get? a).isSome := fun hsa a ha => h.find (hsa a ha)
  cases hout with
  | unchanged error sa hsa _ =>
    obtain ⟨d', hlocks, hindexed, hsame⟩ := lock_unlock h.indexed h.locked (hfound hsa)
    exact ⟨_, _, d', held', hstep, hlocks, h.kept hinv hindexed hsame (liveProtect_unchanged rfl)
      (fun _ _ => saOf_congr rfl) h.owned, fun _ => hsame⟩
  | added hspd hsa hadd =>
    obtain ⟨d', hlocks, hinv'⟩ := h.added hspd hsa hadd rfl hinv
    exact ⟨_, _, d', held', hstep, hlocks, hinv', by simp⟩
  | deleted hspd hsa hmem hvp heq hdel =>
    obtain ⟨d₁, hlocks, hindexed, hsame⟩ := lock_unlock h.indexed h.locked (hfound hsa)
    obtain ⟨d', hunlock, hinv'⟩ := h.deleted hindexed hsame hvp hdel rfl hinv
    exact ⟨_, _, d', held', hstep, (runM_append hlocks).trans hunlock, hinv', by simp⟩

end

/-! ### Runs -/

theorem saInv_init (fpIsEnabled : Bool → Bool → Bool) : SaInv (init fpIsEnabled) ∅ := by
  refine ⟨spdInv_init _ fpIsEnabled, Indexed.empty, ⟨?_, ?_⟩, ?_, ?_, ?_⟩
  · intro a sa ha
    cases ha
  · intro i hi
    cases hi
  · intro a sa ha
    cases ha
  · intro i p hp
    cases hp
  · intro a ha
    cases ha

/-- A safe operation returns and keeps the locks exact. -/
theorem SaHistory.step_inv (h : SaInv s held) {op : SaOp} (hsafe : op.Safe s) :
    ∃ s', s.step op = .ok s' ∧ ∃ held', SaInv s' held' := by
  cases op with
  | saAddAndLock sa failure =>
    rcases ipsecSaAddAndLock_spec h.indexed sa failure with
      ⟨d', e, hadd, hindexed, hsame⟩ | ⟨d', a, hadd, hindexed, hid, hfree, hget⟩
    · refine ⟨_, ?_, held, h.kept h.spd hindexed hsame rfl (fun _ _ => rfl) h.owned⟩
      simp [step, hadd]
      rfl
    · refine ⟨_, ?_, held, h.insert hindexed hfree hget⟩
      simp [step, hadd, hid]
      rfl
  | saUnlockId id =>
    cases hid : s.sas.saIndexBySaId id with
    | none =>
      refine ⟨s, ?_, held, h⟩
      simp [step, ipsecSaUnlockId, hid]
      rfl
    | some a =>
      obtain ⟨d', hunlock, hinv⟩ := h.unlockId hid (hsafe a hid)
      refine ⟨_, ?_, held, hinv⟩
      simp [step, ipsecSaUnlockId, hid, hunlock, sdiff_singleton_eq_erase]
  | addDelSpd spdId isAdd =>
    rcases ipsecAddDelSpd_spec h.spd spdId isAdd with ⟨error, hstep⟩ | ⟨im', hstep, hpol, hnew, hindex, hinv⟩
    · refine ⟨s, ?_, held, h⟩
      rw [step, SpdHistory.step, hstep]
      rfl
    · refine ⟨⟨s.sas, s.spd.afterSpd spdId im', s.created⟩, ?_, held, ?_⟩
      · rw [step, SpdHistory.step, hstep]
        rfl
      · -- neither a new SPD has policies, nor does one that may be deleted have PROTECT policies
        refine h.kept hinv h.indexed (fun _ => rfl) (liveProtect_afterSpd hpol hindex ?_)
          (fun _ _ => saOf_congr (by rw [← hpol]; rfl)) fun i p hp => h.owned i p (by rw [← hpol]; exact hp)
        cases isAdd with
        | false => exact hsafe rfl
        | true =>
          rintro i hi p hp rfl
          obtain ⟨q, hq, -, hspd, -⟩ := mem_liveProtect.mp hi
          rw [hq] at hp
          cases hp
          rw [hnew rfl] at hspd
          cases hspd
  | addDelPolicy policy isAdd =>
    obtain ⟨im, reply, sas', held', hstep, hlocks, hinv, -⟩ := h.addDelPolicy policy isAdd
    refine ⟨_, ?_, held', hinv⟩
    rw [step, hstep]
    simp only [bind_ok, hlocks]
    rfl

/-- In every run of safe operations every SA has a lock for each PROTECT policy that refers to it, next to the
    one of its creator, every PROTECT policy has its SA, and an operation on policies that fails changes no
    lock. -/
theorem saLocks_exact (fpIsEnabled : Bool → Bool → Bool) (ops : List SaOp)
    (hsafe : AllStepsM (fun s op => op.Safe s) step (init fpIsEnabled) ops) :
    ∃ s, runM step (init fpIsEnabled) ops = .ok s ∧ LocksExact s ∧
      ∀ policy isAdd, ∃ im reply sas', ipsecAddDelPolicy s.sas.table s.spd.im policy isAdd = .ok (im, reply) ∧
        runM lockStep s.sas reply.saLocks = .ok sas' ∧
        (reply.error.isSome → ∀ a, sas'.pool.get? a = s.sas.pool.get? a) := by
  have hstep : ∀ s op, (∃ held, SaInv s held) → SaOp.Safe s op →
      ∃ s', s.step op = .ok s' ∧ ∃ held', SaInv s' held' := by
    rintro s op ⟨held, h⟩ hop
    exact s.step_inv h hop
  obtain ⟨s, hrun, held, hinv⟩ := runM_total_of_allSteps hstep hsafe ⟨∅, saInv_init fpIsEnabled⟩
  refine ⟨s, hrun, hinv.exact, fun policy isAdd => ?_⟩
  obtain ⟨im, reply, sas', -, hstep, hlocks, -, hfail⟩ := hinv.addDelPolicy policy isAdd
  exact ⟨im, reply, sas', hstep, hlocks, hfail⟩

end

/-- An SA in transport mode. -/
def oneSa : SaEntry := ⟨5, 1000, false, 0, 0, 0⟩

/-- A PROTECT policy for all IPv4 packets. -/
def protectAll : IpsecPolicy := { IpsecPolicy.forAll 1 true false .protect .ip4Outbound rfl with saId := 5 }

/-- The SA, an SPD and a policy that uses the SA. -/
def protectSetup : List SaOp :=
  [.saAddAndLock oneSa none, .addDelSpd 1 true, .addDelPolicy protectAll true]

/-- What is observed of the SA and the policy: the locks of the SA, the locks that it should have, whether the
    policy is live, and the SA it refers to. -/
structure Observed where
  locks : Option ℕ
  count : ℕ
  live : Bool
  saIndex : Option ℕ
  deriving DecidableEq

def observe (s : SaHistory) : Observed where
  locks := (s.sas.pool.get? 0).map (·.locks)
  count := lockCount s.created s.spd 0
  live := decide (0 ∈ liveProtect s.spd)
  saIndex := saOf s.spd 0

/-- The SA is given back by its creator and lives until the policy is deleted. -/
theorem saLocks_exact_protect : ∃ s,
    runM step (init fun _ _ => true) (protectSetup ++ [.saUnlockId 5]) = .ok s ∧
      LocksExact s ∧ observe s = ⟨some 1, 1, true, some 0⟩ := by
  obtain ⟨s, hrun, hexact, -⟩ := saLocks_exact (fun _ _ => true) (protectSetup ++ [.saUnlockId 5])
    (by decide +kernel)
  obtain ⟨s', hrun', hobs⟩ := exists_of_runM_map
    (show (runM step (init fun _ _ => true) (protectSetup ++ [.saUnlockId 5])).map observe =
      .ok ⟨some 1, 1, true, some 0⟩ by decide +kernel)
  rw [hrun] at hrun'
  cases hrun'
  exact ⟨s, hrun, hexact, hobs⟩

/-- Where the SPD is deleted the SA keeps the lock of the policy for good; where the SA is given back twice it
    is gone while the policy refers to it. -/
theorem saLocks_leak_and_steal :
    (∃ s, runM step (init fun _ _ => true) (protectSetup ++ [.addDelSpd 1 false]) = .ok s ∧
      ¬ LocksExact s ∧ observe s = ⟨some 2, 1, false, some 0⟩) ∧
    ∃ s, runM step (init fun _ _ => true)
        (protectSetup ++ [.saUnlockId 5, .saUnlockId 5]) = .ok s ∧
      ¬ LocksExact s ∧ observe s = ⟨none, 1, true, some 0⟩ := by
  constructor
  · obtain ⟨s, hrun, hobs⟩ := exists_of_runM_map
      (show (runM step (init fun _ _ => true)
        (protectSetup ++ [.addDelSpd 1 false])).map observe = .ok ⟨some 2, 1, false, some 0⟩ by decide +kernel)
    refine ⟨s, hrun, fun hexact => ?_, hobs⟩
    simp only [observe, Observed.mk.injEq, map_eq_some_iff] at hobs
    obtain ⟨⟨sa, ha, hlocks⟩, hcount, -⟩ := hobs
    have hlock := hexact.count 0 sa ha
    omega
  · obtain ⟨s, hrun, hobs⟩ := exists_of_runM_map
      (show (runM step (init fun _ _ => true)
        (protectSetup ++ [.saUnlockId 5, .saUnlockId 5])).map observe = .ok ⟨none, 1, true, some 0⟩ by
          decide +kernel)
    refine ⟨s, hrun, fun hexact => ?_, hobs⟩
    simp only [observe, Observed.mk.injEq, map_eq_none_iff, decide_eq_true_eq] at hobs
    obtain ⟨hgone, -, hlive, hsa⟩ := hobs
    obtain ⟨a, ha, hsome⟩ := hexact.inUse 0 hlive
    rw [hsa] at ha
    cases ha
    rw [hgone] at hsome
    cases hsome

end Vpp.Ipsec.SaLocks
