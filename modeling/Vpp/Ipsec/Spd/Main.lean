import Vpp.Schemes.Memory
import Vpp.Schemes.Pool
import Vpp.Schemes.Run
import Vpp.Vppinfra.Vec
import Vpp.Ipsec.Spd.Mask

/-! Security policy databases: `ipsec_add_del_spd` (`vnet/ipsec/ipsec_spd.c`) and
    `ipsec_add_del_policy` (`vnet/ipsec/ipsec_spd_policy.c`).

    The policies of all SPDs lie in one pool. An SPD without fast path lists the indices of its policies in
    a vector for each policy type. With fast path it files them in a hash table, and lists for each type
    the masks its policies use:

        fp_mask_ids[type]  ──▶  fp_mask_types (one pool, shared by reference count)
        key ──▶ hash table ──▶  [policy index, ..]   by descending priority

    An index that is not live in its pool is a fault when it is followed. -/

namespace Vpp.Ipsec
open Vpp.Schemes Vpp.Vppinfra Pool
open Function (update)

structure IpsecFpMaskId where
  maskTypeIdx : ℕ
  refcount : ℕ
  deriving DecidableEq

structure IpsecFpMaskTypeEntry where
  mask : IpsecFp5tuple
  refcount : ℕ
  deriving DecidableEq

/-- `clib_bihash_16_8_t` and `clib_bihash_40_8_t`, with the values the fast path stores. Adding a key always
    succeeds: these tables grow until memory is exhausted, which ends the process. -/
abbrev Bihash := IpsecFp5tuple → Option (List ℕ)

/-- `ipsec_spd_fp_t`. `lookupHashIdx isIpv6 inbound` is one of `ip4_out_lookup_hash_idx`,
    `ip4_in_lookup_hash_idx`, `ip6_out_lookup_hash_idx`, `ip6_in_lookup_hash_idx`. -/
structure IpsecSpdFp where
  fpMaskIds : PolicyType → List IpsecFpMaskId
  lookupHashIdx : Bool → Bool → Option ℕ

structure IpsecSpd where
  id : BitVec 32
  policies : PolicyType → List ℕ
  fpSpd : IpsecSpdFp

/-- `ipsec_main_t`. `lookupHashes isIpv6` is `fp_ip4_lookup_hashes_pool` or `fp_ip6_lookup_hashes_pool`, and
    `fpIsEnabled isIpv6 inbound` one of the four flags `fp_spd_ipv4_out_is_enabled` etc. -/
structure IpsecMain where
  spds : Pool IpsecSpd
  policies : Pool IpsecPolicy
  lookupHashes : Bool → Pool Bihash
  fpIsEnabled : Bool → Bool → Bool
  fpMaskTypes : Pool IpsecFpMaskTypeEntry
  spdIndexBySpdId : BitVec 32 → Option ℕ

/-- `VNET_API_ERROR_SYSCALL_ERROR_1`, `VNET_API_ERROR_ENTRY_ALREADY_EXISTS`,
    `VNET_API_ERROR_NO_SUCH_ENTRY` and the `-1` of the fast path. -/
inductive SpdError where
  | syscallError1 | entryAlreadyExists | noSuchEntry | notFound
  deriving DecidableEq

/-- A lock of an SA (`fib_node_lock`, `fib_node_unlock`) taken or given back on behalf of a policy. -/
inductive SaLockOp where
  | lock (saIndex : ℕ)
  | unlock (saIndex : ℕ)
  deriving DecidableEq

/-- The return value, `*stat_index` where it is set, and what was done to the locks of SAs, in order. -/
structure SpdReply where
  error : Option SpdError := none
  statIndex : Option ℕ := none
  saLocks : List SaLockOp := []
  deriving DecidableEq

/-! ### Vectors of policies -/

/-- The loop that looks for the first policy of no higher priority. -/
def priorityPosition (policies : Pool IpsecPolicy) (priority : BitVec 32) : List ℕ → Except Fault ℕ
  | [] => return 0
  | i :: is => do
    let p ← deref (policies.get? i)
    if p.priority.sle priority then return 0
    else return (← priorityPosition policies priority is) + 1

/-- The loop that looks for a policy equal to the given one: its position, its index and the policy. -/
def findEqualPolicy (policies : Pool IpsecPolicy) (policy : IpsecPolicy) :
    List ℕ → Except Fault (Option (ℕ × ℕ × IpsecPolicy))
  | [] => return none
  | i :: is => do
    let vp ← deref (policies.get? i)
    if ipsecPolicyIsEqual vp policy then return some (0, i, vp)
    else
      let found ← findEqualPolicy policies policy is
      return found.map fun r => (r.1 + 1, r.2)

/-! ### Masks in use -/

def findMaskTypeIndex (maskTypes : Pool IpsecFpMaskTypeEntry) (mask : IpsecFp5tuple) : Option ℕ :=
  (maskTypes.toList.find? fun e => e.2.mask == mask).map (·.1)

/-- The entry of a mask, which is created without references where there is none. -/
def acquireMaskType (maskTypes : Pool IpsecFpMaskTypeEntry) (mask : IpsecFp5tuple) :
    Pool IpsecFpMaskTypeEntry × ℕ :=
  match findMaskTypeIndex maskTypes mask with
  | some i => (maskTypes, i)
  | none => maskTypes.alloc ⟨mask, 0⟩

def ipsecFpReleaseMaskType (maskTypes : Pool IpsecFpMaskTypeEntry) (maskTypeIndex : ℕ) :
    Except Fault (Pool IpsecFpMaskTypeEntry) := do
  let mte ← deref (maskTypes.get? maskTypeIndex)
  if mte.refcount - 1 = 0 then return maskTypes.put maskTypeIndex
  else return maskTypes.set maskTypeIndex { mte with refcount := mte.refcount - 1 }

/-- A new policy of the SPD and type uses the mask. -/
def addMaskId (ids : List IpsecFpMaskId) (maskIndex : ℕ) : List IpsecFpMaskId :=
  match ids.findIdx? (·.maskTypeIdx == maskIndex) with
  | none => ids ++ [⟨maskIndex, 1⟩]
  | some k => ids.modify k fun e => { e with refcount := e.refcount + 1 }

/-- A policy of the SPD and type that uses the mask is deleted. -/
def delMaskId (ids : List IpsecFpMaskId) (maskIndex : ℕ) : List IpsecFpMaskId :=
  match ids.findIdx? (·.maskTypeIdx == maskIndex) with
  | none => ids
  | some k =>
    if (ids[k]?).any (·.refcount = 1) then vecDel1 ids k
    else ids.modify k fun e => { e with refcount := e.refcount - 1 }

/-! ### The fast path -/

def getPolicyMask (isIpv6 : Bool) (sas : SaTable) (policy : IpsecPolicy) (inbound : Bool) : IpsecFp5tuple :=
  if isIpv6 then ipsecFpIp6GetPolicyMask sas policy inbound else ipsecFpIp4GetPolicyMask sas policy inbound

/-- The SPD with one of its lists of masks replaced. -/
def IpsecSpdFp.setMaskIds (fp : IpsecSpdFp) (type : PolicyType) (ids : List IpsecFpMaskId) : IpsecSpdFp :=
  { fp with fpMaskIds := update fp.fpMaskIds type ids }

/-- A hash table is written back to its pool. -/
def IpsecMain.setTable (im : IpsecMain) (isIpv6 : Bool) (hashIdx : ℕ) (table : Bihash) : IpsecMain :=
  { im with
    lookupHashes := update im.lookupHashes isIpv6 ((im.lookupHashes isIpv6).set hashIdx table) }

/-- Both `ipsec_fp_ip4_add_policy` and `ipsec_fp_ip6_add_policy`. The pool slot of the policy, which the
    source takes first and fills last, is filled at once; nothing reads it in between. -/
def fpAddPolicy (isIpv6 : Bool) (sas : SaTable) (im : IpsecMain) (fp : IpsecSpdFp) (policy : IpsecPolicy) :
    Except Fault (IpsecMain × IpsecSpdFp × ℕ) := do
  let inbound := policy.type.isInbound
  let hashIdx ← deref (fp.lookupHashIdx isIpv6 inbound)
  let table ← deref ((im.lookupHashes isIpv6).get? hashIdx)
  let mask := getPolicyMask isIpv6 sas policy inbound
  let (maskTypes, maskIndex) := acquireMaskType im.fpMaskTypes mask
  let mte ← deref (maskTypes.get? maskIndex)
  let policy := { policy with fpMaskTypeId := maskIndex }
  let (policies, policyIndex) := im.policies.alloc policy
  let key := fillHashPolicyKv isIpv6 (ipsecFpGetPolicy5tuple sas policy inbound) mask
  let ids := (table key).getD []
  let i ← priorityPosition policies policy.priority ids
  let im := im.setTable isIpv6 hashIdx (update table key (some (ids.insertIdx i policyIndex)))
  return ({ im with
      policies := policies
      fpMaskTypes := maskTypes.set maskIndex { mte with refcount := mte.refcount + 1 } },
    fp.setMaskIds policy.type (addMaskId (fp.fpMaskIds policy.type) maskIndex), policyIndex)

def ipsecFpIp4AddPolicy := fpAddPolicy false
def ipsecFpIp6AddPolicy := fpAddPolicy true

/-- Both `ipsec_fp_ip4_del_policy` and `ipsec_fp_ip6_del_policy`: nothing is returned where the policy is not
    found, and the SA of the deleted policy, to be unlocked, where it is. -/
def fpDelPolicy (isIpv6 : Bool) (sas : SaTable) (im : IpsecMain) (fp : IpsecSpdFp) (policy : IpsecPolicy) :
    Except Fault (Option (IpsecMain × IpsecSpdFp × Option ℕ)) := do
  let inbound := policy.type.isInbound
  let hashIdx ← deref (fp.lookupHashIdx isIpv6 inbound)
  let table ← deref ((im.lookupHashes isIpv6).get? hashIdx)
  let mask := getPolicyMask isIpv6 sas policy inbound
  let key := fillHashPolicyKv isIpv6 (ipsecFpGetPolicy5tuple sas policy inbound) mask
  match table key with
  | none => return none
  | some ids =>
    match ← findEqualPolicy im.policies policy ids with
    | none => return none
    | some (ii, index, vp) =>
      let table := update table key (if ids.length = 1 then none else some (ids.eraseIdx ii))
      let maskTypes ← ipsecFpReleaseMaskType im.fpMaskTypes vp.fpMaskTypeId
      let im := im.setTable isIpv6 hashIdx table
      return some ({ im with policies := im.policies.put index, fpMaskTypes := maskTypes },
        fp.setMaskIds policy.type (delMaskId (fp.fpMaskIds policy.type) vp.fpMaskTypeId), vp.saIndex)

def ipsecFpIp4DelPolicy := fpDelPolicy false
def ipsecFpIp6DelPolicy := fpDelPolicy true

def ipsecIsFpEnabled (im : IpsecMain) (spd : IpsecSpd) (type : PolicyType) : Bool :=
  im.fpIsEnabled type.isIpv6 type.isInbound &&
    (spd.fpSpd.lookupHashIdx type.isIpv6 type.isInbound).isSome

/-! ### `ipsec_add_del_policy` -/

/-- `fib_node_lock` and `ipsec_sa_unlock`, which do nothing for `INDEX_INVALID`. -/
def lockSa (saIndex : Option ℕ) : List SaLockOp := saIndex.toList.map .lock
def unlockSa (saIndex : Option ℕ) : List SaLockOp := saIndex.toList.map .unlock

/-- `ipsec_sa_find_and_lock` for a PROTECT policy, `INDEX_INVALID` for the others; no result where there is
    no such SA. -/
def policySaIndex (sas : SaTable) (policy : IpsecPolicy) : Option (Option ℕ) :=
  if policy.policy = .protect then (sas.find policy.saId).map some else some none

/-- The SPD at an index is changed in place. -/
def IpsecMain.setSpd (im : IpsecMain) (spdIndex : ℕ) (spd : IpsecSpd) : IpsecMain :=
  { im with spds := im.spds.set spdIndex spd }

/-- Adding to an SPD without fast path. -/
def addToVector (im : IpsecMain) (spdIndex : ℕ) (spd : IpsecSpd) (policy : IpsecPolicy) :
    Except Fault (IpsecMain × SpdReply) := do
  let (policies, policyIndex) := im.policies.alloc policy
  let ids := spd.policies policy.type
  let i ← priorityPosition policies policy.priority ids
  let spd := { spd with
    policies := update spd.policies policy.type (ids.insertIdx i policyIndex) }
  return ({ im with policies := policies }.setSpd spdIndex spd,
    { statIndex := some policyIndex, saLocks := lockSa policy.saIndex })

/-- Deleting from an SPD without fast path: a policy that is not found is no error. -/
def delFromVector (im : IpsecMain) (spdIndex : ℕ) (spd : IpsecSpd) (policy : IpsecPolicy) :
    Except Fault (IpsecMain × SpdReply) := do
  let ids := spd.policies policy.type
  match ← findEqualPolicy im.policies policy ids with
  | none => return (im, {})
  | some (ii, index, vp) =>
    let spd := { spd with policies := update spd.policies policy.type (ids.eraseIdx ii) }
    return ({ im with policies := im.policies.put index }.setSpd spdIndex spd,
      { saLocks := unlockSa vp.saIndex })

/-- `ipsec_fp_add_del_policy` with `is_add`. -/
def addToFastPath (sas : SaTable) (im : IpsecMain) (spdIndex : ℕ) (spd : IpsecSpd) (policy : IpsecPolicy) :
    Except Fault (IpsecMain × SpdReply) := do
  let (im, fp, policyIndex) ←
    if policy.isIpv6 then ipsecFpIp6AddPolicy sas im spd.fpSpd policy
    else ipsecFpIp4AddPolicy sas im spd.fpSpd policy
  return (im.setSpd spdIndex { spd with fpSpd := fp },
    { statIndex := some policyIndex, saLocks := lockSa policy.saIndex })

/-- `ipsec_fp_add_del_policy` without `is_add`. The SA named in the request is locked to find its index and
    unlocked again before. -/
def delFromFastPath (sas : SaTable) (im : IpsecMain) (spdIndex : ℕ) (spd : IpsecSpd) (policy : IpsecPolicy) :
    Except Fault (IpsecMain × SpdReply) := do
  let deleted ←
    if policy.isIpv6 then ipsecFpIp6DelPolicy sas im spd.fpSpd policy
    else ipsecFpIp4DelPolicy sas im spd.fpSpd policy
  let found := lockSa policy.saIndex ++ unlockSa policy.saIndex
  match deleted with
  | none => return (im, { error := some .notFound, saLocks := found })
  | some (im, fp, saIndex) =>
    return (im.setSpd spdIndex { spd with fpSpd := fp }, { saLocks := found ++ unlockSa saIndex })

def ipsecAddDelPolicy (sas : SaTable) (im : IpsecMain) (policy : IpsecPolicy) (isAdd : Bool) :
    Except Fault (IpsecMain × SpdReply) := do
  match im.spdIndexBySpdId policy.id with
  | none => return (im, { error := some .syscallError1 })
  | some spdIndex =>
    let spd ← deref (im.spds.get? spdIndex)
    if isAdd then
      match policySaIndex sas policy with
      | none => return (im, { error := some .syscallError1 })
      | some saIndex =>
        let policy := { policy with saIndex := saIndex }
        if ipsecIsFpEnabled im spd policy.type then addToFastPath sas im spdIndex spd policy
        else addToVector im spdIndex spd policy
    else if ipsecIsFpEnabled im spd policy.type then
      match policySaIndex sas policy with
      | none => return (im, { error := some .syscallError1 })
      | some saIndex => delFromFastPath sas im spdIndex spd { policy with saIndex := saIndex }
    else delFromVector im spdIndex spd policy

/-! ### `ipsec_add_del_spd` -/

/-- `IPSEC_FP_IP4_HASHES_POOL_SIZE`, `IPSEC_FP_IP6_HASHES_POOL_SIZE`. -/
def fpHashesPoolSize : ℕ := 128

/-- The hash tables in the order of the source. -/
def fpTables : List (Bool × Bool) := [(false, false), (false, true), (true, false), (true, true)]

/-- A hash table for a new SPD, while there is room in the pool. -/
def initTable (s : IpsecMain × IpsecSpdFp) (table : Bool × Bool) : IpsecMain × IpsecSpdFp :=
  if s.1.fpIsEnabled table.1 table.2 = true ∧ (s.1.lookupHashes table.1).elts < fpHashesPoolSize then
    let pool := (s.1.lookupHashes table.1).alloc fun _ => none
    ({ s.1 with lookupHashes := update s.1.lookupHashes table.1 pool.1 },
      { s.2 with lookupHashIdx := fun v d => if (v, d) = table then some pool.2 else s.2.lookupHashIdx v d })
  else s

/-- A hash table of a deleted SPD is given back. -/
def freeTable (fp : IpsecSpdFp) (im : IpsecMain) (table : Bool × Bool) : IpsecMain :=
  match fp.lookupHashIdx table.1 table.2 with
  | some h =>
    if im.fpIsEnabled table.1 table.2 then
      { im with
        lookupHashes := update im.lookupHashes table.1 ((im.lookupHashes table.1).put h) }
    else im
  | none => im

/-- `ipsec_add_del_spd`. The policies of a deleted SPD stay in their pool and keep their masks. -/
def ipsecAddDelSpd (im : IpsecMain) (spdId : BitVec 32) (isAdd : Bool) :
    Except Fault (IpsecMain × SpdReply) := do
  match im.spdIndexBySpdId spdId, isAdd with
  | some _, true => return (im, { error := some .entryAlreadyExists })
  | none, false => return (im, { error := some .noSuchEntry })
  | some spdIndex, false =>
    let spd ← deref (im.spds.get? spdIndex)
    let im := fpTables.foldl (freeTable spd.fpSpd) im
    return ({ im with
        spds := im.spds.put spdIndex
        spdIndexBySpdId := update im.spdIndexBySpdId spdId none }, {})
  | none, true =>
    let (im, fp) := fpTables.foldl initTable (im, ⟨fun _ => [], fun _ _ => none⟩)
    let (spds, spdIndex) := im.spds.alloc ⟨spdId, fun _ => [], fp⟩
    return ({ im with
        spds := spds
        spdIndexBySpdId := update im.spdIndexBySpdId spdId (some spdIndex) }, {})

/-! ### Runs -/

inductive SpdOp where
  | addDelSpd (spdId : BitVec 32) (isAdd : Bool)
  | addDelPolicy (policy : IpsecPolicy) (isAdd : Bool)

/-- The SPDs with their live policies, by SPD and type: a policy is live from the operation that returned its
    index on, until its slot in the pool is freed or its SPD is deleted. -/
structure SpdHistory where
  im : IpsecMain
  live : BitVec 32 → PolicyType → Finset ℕ

/-- The live policies of the given type after an operation on one of them. -/
def liveAfter (live : Finset ℕ) (im : IpsecMain) (reply : SpdReply) : Finset ℕ :=
  (reply.statIndex.toFinset ∪ live).filter fun i => (im.policies.get? i).isSome

def SpdHistory.step (sas : SaTable) (s : SpdHistory) : SpdOp → Except Fault SpdHistory
  | .addDelSpd spdId isAdd => do
    let (im, reply) ← ipsecAddDelSpd s.im spdId isAdd
    return ⟨im, if reply.error = none then update s.live spdId fun _ => ∅ else s.live⟩
  | .addDelPolicy policy isAdd => do
    let (im, reply) ← ipsecAddDelPolicy sas s.im policy isAdd
    return ⟨im, update s.live policy.id (update (s.live policy.id) policy.type
      (liveAfter (s.live policy.id policy.type) im reply))⟩

/-- `ipsec_init` and `ipsec_config`: no SPD, and the fast paths that the configuration turns on. -/
def SpdHistory.init (fpIsEnabled : Bool → Bool → Bool) : SpdHistory where
  im := ⟨empty, empty, fun _ => empty, fpIsEnabled, empty, fun _ => none⟩
  live := fun _ _ => ∅

/-- The SPD with the given id. -/
def IpsecMain.spd? (im : IpsecMain) (spdId : BitVec 32) : Option IpsecSpd :=
  (im.spdIndexBySpdId spdId).bind im.spds.get?

end Vpp.Ipsec
