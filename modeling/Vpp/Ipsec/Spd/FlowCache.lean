import Vpp.Schemes.EpochCache
import Vpp.Ipsec.Spd.Search

/-! The two flow caches of `vnet/ipsec`, and the operations that make their entries stale.

    A flow cache remembers the policy that the linear search returned for a packet. Its entries are stamped
    with an epoch, and `ipsec_add_del_policy` starts a new one when it is called for a policy of a type that
    the cache is about and finds the SPD of the policy:

        packet ──▶ cache ──hit──▶ policy
                     └──miss──▶ linear search in the SPD of the interface ──▶ policy, added to the cache

    In one epoch the linear search gives the same answer again and again: the vectors of those types do not
    change, and neither do the policies they list (`Stable`). But the cache is shared by all interfaces and
    the key of an entry does not name the SPD. -/

namespace Vpp.Ipsec
open Vpp.Schemes Vpp.Vppinfra List Option Pool Function

/-! ### What operations leave alone -/

/-- An operation on a policy leaves the SPDs where they are, and their vectors of other types. -/
structure PolicyFrame (im im' : IpsecMain) (type : PolicyType) : Prop where
  fpIsEnabled : im'.fpIsEnabled = im.fpIsEnabled
  spds : ∀ k spd, im.spds.get? k = some spd →
    ∃ spd', im'.spds.get? k = some spd' ∧ spd'.id = spd.id ∧ ∀ t, t ≠ type →
      spd'.policies t = spd.policies t

section
variable {im im' : IpsecMain} {sas : SaTable} {policy : IpsecPolicy} {spdIndex : ℕ} {spd spd' : IpsecSpd}
variable {type : PolicyType}

theorem PolicyFrame.refl (im : IpsecMain) (type : PolicyType) : PolicyFrame im im type :=
  ⟨rfl, fun _ spd hk => ⟨spd, hk, rfl, fun _ _ => rfl⟩⟩

/-- One SPD is written back. -/
theorem PolicyFrame.setSpd (hspd : im.spds.get? spdIndex = some spd) (hfp : im'.fpIsEnabled = im.fpIsEnabled)
    (hspds : im'.spds = im.spds) (hid : spd'.id = spd.id)
    (hvec : ∀ t, t ≠ type → spd'.policies t = spd.policies t) :
    PolicyFrame im (im'.setSpd spdIndex spd') type := by
  refine ⟨hfp, fun k spd₂ hk => ?_⟩
  unfold IpsecMain.setSpd
  rw [hspds]
  by_cases hkk : k = spdIndex
  · subst hkk
    rw [hspd] at hk
    cases hk
    exact ⟨spd', by rw [get?_set hspd, if_pos rfl], hid, hvec⟩
  · exact ⟨spd₂, by rw [get?_set hspd, if_neg hkk]; exact hk, rfl, fun _ _ => rfl⟩

theorem fpAddPolicy_frame (v : Bool) (fp : IpsecSpdFp) :
    Ensures (fpAddPolicy v sas im fp policy) fun r => r.1.fpIsEnabled = im.fpIsEnabled ∧ r.1.spds = im.spds := by
  refine .bind_any fun _ => .bind_any fun _ => ?_
  exact .bind_any fun _ => .bind_any fun _ => .pure ⟨rfl, rfl⟩

theorem fpDelPolicy_frame (v : Bool) (fp : IpsecSpdFp) :
    Ensures (fpDelPolicy v sas im fp policy) fun r =>
      ∀ r' ∈ r, r'.1.fpIsEnabled = im.fpIsEnabled ∧ r'.1.spds = im.spds := by
  refine .bind_any fun _ => .bind_any fun table => ?_
  dsimp only
  split
  · exact .pure (by simp)
  · refine .bind_any fun found => ?_
    split
    · exact .pure (by simp)
    · refine .bind_any fun _ => .pure ?_
      rintro r' hr'
      cases hr'
      exact ⟨rfl, rfl⟩

section
variable (hspd : im.spds.get? spdIndex = some spd)
include hspd

theorem addToFastPath_frame :
    Ensures (addToFastPath sas im spdIndex spd policy) fun r => PolicyFrame im r.1 policy.type := by
  rw [addToFastPath_eq]
  refine .bind (fpAddPolicy_frame _ _) fun r ⟨hfp, hspds⟩ => .pure ?_
  exact .setSpd hspd hfp hspds rfl fun _ _ => rfl

theorem delFromFastPath_frame :
    Ensures (delFromFastPath sas im spdIndex spd policy) fun r => PolicyFrame im r.1 policy.type := by
  rw [delFromFastPath_eq]
  refine .bind (fpDelPolicy_frame _ _) fun deleted hdeleted => ?_
  cases deleted with
  | none => exact .pure (.refl im _)
  | some r =>
    obtain ⟨hfp, hspds⟩ := hdeleted r rfl
    exact .pure (.setSpd hspd hfp hspds rfl fun _ _ => rfl)

theorem addToVector_frame :
    Ensures (addToVector im spdIndex spd policy) fun r => PolicyFrame im r.1 policy.type := by
  refine .bind_any fun i => .pure ?_
  exact .setSpd hspd rfl rfl rfl fun t ht => update_of_ne ht _ _

theorem delFromVector_frame :
    Ensures (delFromVector im spdIndex spd policy) fun r => PolicyFrame im r.1 policy.type := by
  refine .bind_any fun found => ?_
  split
  · exact .pure (.refl im _)
  · exact .pure (.setSpd hspd rfl rfl rfl fun t ht => update_of_ne ht _ _)

end

theorem ipsecAddDelPolicy_frame (isAdd : Bool) :
    Ensures (ipsecAddDelPolicy sas im policy isAdd) fun r => PolicyFrame im r.1 policy.type := by
  unfold ipsecAddDelPolicy
  split
  · exact .pure (.refl im _)
  · refine .bind (Ensures.deref _) fun spd hspd => ?_
    refine .ite (fun _ => ?_) fun _ => .ite (fun _ => ?_) fun _ => delFromVector_frame hspd
    · split
      · exact .pure (.refl im _)
      · exact .ite (fun _ => addToFastPath_frame hspd) fun _ => addToVector_frame hspd
    · split
      · exact .pure (.refl im _)
      · exact delFromFastPath_frame hspd

/-- Creating or deleting an SPD leaves the others and all policies as they are. -/
structure SpdFrame (im im' : IpsecMain) (deleted : Option ℕ) : Prop where
  fpIsEnabled : im'.fpIsEnabled = im.fpIsEnabled
  policies : im'.policies = im.policies
  spds : ∀ k spd, some k ≠ deleted → im.spds.get? k = some spd → im'.spds.get? k = some spd

/-- The SPD that the operation deletes. -/
def deletedSpd (im : IpsecMain) (spdId : BitVec 32) (isAdd : Bool) : Option ℕ :=
  if isAdd then none else im.spdIndexBySpdId spdId

theorem ipsecAddDelSpd_frame (spdId : BitVec 32) (isAdd : Bool) :
    Ensures (ipsecAddDelSpd im spdId isAdd) fun r => SpdFrame im r.1 (deletedSpd im spdId isAdd) := by
  unfold ipsecAddDelSpd
  split
  · exact .pure ⟨rfl, rfl, fun _ _ _ hk => hk⟩
  · exact .pure ⟨rfl, rfl, fun _ _ _ hk => hk⟩
  · next k hid =>
    refine .bind_any fun spd => .pure ?_
    obtain ⟨hashes, hsame⟩ := (foldl_freeTable spd.fpSpd fpTables im).1
    rw [hsame]
    refine ⟨rfl, rfl, fun j spd₂ hj hget => ?_⟩
    have hjk : j ≠ k := by
      rintro rfl
      exact hj hid.symm
    exact (get?_put_ne _ hjk).trans hget
  · have htables : NewTables im _ := NewTables.start.foldl fpTables
    rcases hfold : fpTables.foldl initTable (im, ⟨fun _ => [], fun _ _ => none⟩) with ⟨im₁, fp⟩
    rw [hfold] at htables
    obtain ⟨hashes, hsame⟩ := htables.same
    dsimp only at hsame ⊢
    refine .pure ?_
    rw [hsame]
    refine ⟨rfl, rfl, fun j spd₂ _ hget => ?_⟩
    exact (get?_alloc_of_isSome (by rw [hget]; rfl)).1.trans hget

end

/-! ### The state around a flow cache -/

/-- What distinguishes the two caches: the types of IPv4 policies whose change makes all entries stale, the entry
    of zeros that the table is filled with, and the SPD of a packet that was seen. -/
structure FlowKind (κ γ : Type) where
  types : PolicyType → Bool
  zero : CacheEntry κ ℕ 32
  spdIndex : γ → ℕ
  types_ip4 : ∀ t, types t = true → t.isIpv6 = false
  zero_epoch : zero.epoch = 0

/-- `ipsec_main_t` with one of the flow caches (`ipsec4_out_spd_hash_tbl` with `epoch_count` and
    `ipsec4_out_spd_flow_cache_entries`, or their inbound counterparts), the SPDs of the interfaces, and the
    packets that were seen since the epoch began. -/
structure FlowState (κ γ : Type) where
  spd : SpdHistory
  spdIndexBySwIfIndex : BitVec 32 → Option ℕ
  cache : EpochCache κ ℕ 32
  flowCacheEntries : ℕ
  seen : List γ

/-- `VNET_API_ERROR_SYSCALL_ERROR_1`, `VNET_API_ERROR_SYSCALL_ERROR_2`. -/
inductive InterfaceError where
  | syscallError1 | syscallError2
  deriving DecidableEq

def ipsecSetInterfaceSpd (im : IpsecMain) (bound : BitVec 32 → Option ℕ) (swIfIndex spdId : BitVec 32)
    (isAdd : Bool) : (BitVec 32 → Option ℕ) × Option InterfaceError :=
  match im.spdIndexBySpdId spdId with
  | none => (bound, some .syscallError1)
  | some spdIndex =>
    if isAdd then
      if (bound swIfIndex).isSome then (bound, some .syscallError2)
      else (update bound swIfIndex (some spdIndex), none)
    else (update bound swIfIndex none, none)

/-- The interfaces of an SPD that is deleted lose it. -/
def unbindSpd (bound : BitVec 32 → Option ℕ) (deleted : Option ℕ) (swIfIndex : BitVec 32) : Option ℕ :=
  if bound swIfIndex = deleted then none else bound swIfIndex

inductive ControlOp where
  | addDelSpd (spdId : BitVec 32) (isAdd : Bool)
  | setInterfaceSpd (swIfIndex spdId : BitVec 32) (isAdd : Bool)
  | addDelPolicy (policy : IpsecPolicy) (isAdd : Bool)

section
variable {κ γ : Type}

/-- The part of `ipsec_add_del_policy` that makes the entries of the cache stale. -/
def FlowState.newEpoch (kind : FlowKind κ γ) (s : FlowState κ γ) : FlowState κ γ :=
  { s with cache := s.cache.bump kind.zero, flowCacheEntries := 0, seen := [] }

/-- Is the cache about the policy, and is there its SPD? -/
def FlowState.stales (kind : FlowKind κ γ) (s : FlowState κ γ) (policy : IpsecPolicy) : Bool :=
  (s.spd.im.spdIndexBySpdId policy.id).isSome && !policy.isIpv6 && kind.types policy.type

def FlowState.control (kind : FlowKind κ γ) (sas : SaTable) (s : FlowState κ γ) :
    ControlOp → Except Fault (FlowState κ γ)
  | .addDelSpd spdId isAdd => do
    let spd ← s.spd.step sas (.addDelSpd spdId isAdd)
    return { s with
      spd := spd
      spdIndexBySwIfIndex := unbindSpd s.spdIndexBySwIfIndex (deletedSpd s.spd.im spdId isAdd) }
  | .setInterfaceSpd swIfIndex spdId isAdd =>
    return { s with
      spdIndexBySwIfIndex := (ipsecSetInterfaceSpd s.spd.im s.spdIndexBySwIfIndex swIfIndex spdId isAdd).1 }
  | .addDelPolicy policy isAdd => do
    let spd ← s.spd.step sas (.addDelPolicy policy isAdd)
    let s := if s.stales kind policy then s.newEpoch kind else s
    return { s with spd := spd }

/-- No SPD is deleted that has seen packets in this epoch. -/
def ControlOp.KeepsSeen (kind : FlowKind κ γ) (s : FlowState κ γ) : ControlOp → Prop
  | .addDelSpd spdId isAdd => ∀ g ∈ s.seen, some (kind.spdIndex g) ≠ deletedSpd s.spd.im spdId isAdd
  | _ => True

instance ControlOp.decidableKeepsSeen (kind : FlowKind κ γ) (s : FlowState κ γ) :
    (op : ControlOp) → Decidable (op.KeepsSeen kind s)
  | .addDelSpd spdId isAdd =>
    inferInstanceAs (Decidable (∀ g ∈ s.seen, some (kind.spdIndex g) ≠ deletedSpd s.spd.im spdId isAdd))
  | .setInterfaceSpd _ _ _ => isTrue trivial
  | .addDelPolicy _ _ => isTrue trivial

/-- `ipsec4_out_spd_add_flow_cache_entry` and `ipsec4_input_spd_add_flow_cache_entry`. An entry of zeros counts as
    a free one, and so does a stale one. -/
def FlowState.addEntry (bucket : κ → ℕ) (s : FlowState κ γ) (key : κ) (polId : ℕ) : FlowState κ γ :=
  let e := s.cache.table (bucket key)
  let overwrite := ¬ (e.value = 0 ∧ e.epoch = 0)
  let staleOverwrite := overwrite ∧ s.cache.epoch ≠ e.epoch
  { s with
    cache := s.cache.add bucket key polId
    flowCacheEntries := if ¬ overwrite ∨ staleOverwrite then s.flowCacheEntries + 1 else s.flowCacheEntries }

/-- `ipsec4_out_spd_find_flow_cache_entry` and `ipsec4_input_spd_find_flow_cache_entry`. -/
def FlowState.findEntry [DecidableEq κ] (bucket : κ → ℕ) (s : FlowState κ γ) (key : κ) :
    Except Fault (Option (ℕ × IpsecPolicy)) :=
  match s.cache.find bucket key with
  | none => return none
  | some polId => do
    let p ← deref (s.spd.im.policies.get? polId)
    return some (polId, p)

/-- `ipsec_init` and `ipsec_config`: the flow cache is only turned on where the fast path for the same policies is
    off. -/
def FlowState.init (kind : FlowKind κ γ) (fpIsEnabled : Bool → Bool → Bool) : FlowState κ γ where
  spd := SpdHistory.init fpIsEnabled
  spdIndexBySwIfIndex := fun _ => none
  cache := ⟨fun _ => kind.zero, 0⟩
  flowCacheEntries := 0
  seen := []

/-! ### What holds in one epoch -/

/-- The SPDs that have seen packets have their vectors still, and the policies in them are what they were. -/
def Stable (kind : FlowKind κ γ) (seen : List γ) (im im' : IpsecMain) : Prop :=
  ∀ g ∈ seen, ∀ spd, im.spds.get? (kind.spdIndex g) = some spd →
    ∃ spd', im'.spds.get? (kind.spdIndex g) = some spd' ∧ ∀ t, kind.types t = true →
      spd'.policies t = spd.policies t ∧ ∀ i ∈ spd.policies t, im'.policies.get? i = im.policies.get? i

/-- The linear search reads nothing but the policies that it is given. -/
theorem linearSearch_congr {policies policies' : Pool IpsecPolicy} {hit : IpsecPolicy → Bool} {ids : List ℕ}
    (h : ∀ i ∈ ids, policies'.get? i = policies.get? i) :
    linearSearch policies' hit ids = linearSearch policies hit ids := by
  induction ids with
  | nil => rfl
  | cons i is ih =>
    rw [linearSearch, linearSearch, h i mem_cons_self, ih fun j hj => h j (mem_cons_of_mem i hj)]

/-- What the linear search returns is in the vector. -/
theorem linearSearch_mem {policies : Pool IpsecPolicy} {hit : IpsecPolicy → Bool} {ids : List ℕ}
    {c : ℕ × IpsecPolicy} (h : linearSearch policies hit ids = .ok (some c)) :
    c.1 ∈ ids ∧ policies.get? c.1 = some c.2 := by
  induction ids with
  | nil => cases h
  | cons i is ih =>
    obtain ⟨p, hp, h⟩ := bind_eq_ok.mp h
    split at h
    · cases h
      exact ⟨mem_cons_self, deref_eq_ok.mp hp⟩
    · obtain ⟨hmem, hget⟩ := ih h
      exact ⟨mem_cons_of_mem i hmem, hget⟩

/-- The fast path is off for the types of the cache, every interface has an SPD that exists, and what is said of
    the entries of this epoch (`good`) holds. -/
structure FlowInv (kind : FlowKind κ γ) (sas : SaTable) (good : IpsecMain → List γ → κ → ℕ → Prop)
    (s : FlowState κ γ) : Prop where
  spd : ∃ held, SpdInv sas s.spd held
  slow : ∀ t, kind.types t = true → s.spd.im.fpIsEnabled t.isIpv6 t.isInbound = false
  bound : ∀ swIfIndex k, s.spdIndexBySwIfIndex swIfIndex = some k → (s.spd.im.spds.get? k).isSome
  cache : s.cache.Holds kind.zero (good s.spd.im s.seen)

variable {kind : FlowKind κ γ} {sas : SaTable} {good : IpsecMain → List γ → κ → ℕ → Prop}
    {s : FlowState κ γ}

theorem FlowInv.init (fpIsEnabled : Bool → Bool → Bool)
    (hslow : ∀ t, kind.types t = true → fpIsEnabled t.isIpv6 t.isInbound = false) :
    FlowInv kind sas good (FlowState.init kind fpIsEnabled) :=
  ⟨⟨∅, spdInv_init sas fpIsEnabled⟩, hslow, fun _ _ h => (nomatch h), .new kind.zero_epoch⟩

/-- A type without fast path: its vector lists the live policies. -/
theorem FlowInv.vector (h : FlowInv kind sas good s) {t : PolicyType} (ht : kind.types t = true) {k : ℕ}
    {spd : IpsecSpd} (hk : s.spd.im.spds.get? k = some spd) :
    spd.tableOf t = none ∧ ∀ i, i ∈ spd.policies t ↔ i ∈ s.spd.live spd.id t := by
  obtain ⟨held, hinv⟩ := h.spd
  have htable : spd.tableOf t = none := by
    by_contra hsome
    have hon := hinv.enabled k spd hk t.isIpv6 t.isInbound (isSome_iff_ne_none.mpr hsome)
    rw [h.slow t ht] at hon
    cases hon
  exact ⟨htable, ((hinv.rep k spd hk).vector t htable).2.1⟩

/-- An operation on policies that the cache is not about changes nothing that the linear search reads. -/
theorem FlowInv.stable_policy (h : FlowInv kind sas good s) {policy : IpsecPolicy} {im' : IpsecMain}
    {isAdd : Bool} {reply : SpdReply} (hframe : PolicyFrame s.spd.im im' policy.type)
    (hout : PolicyOutcome sas s.spd policy isAdd im' reply) (htype : kind.types policy.type = false) :
    Stable kind s.seen s.spd.im im' := by
  obtain ⟨held, hinv⟩ := h.spd
  intro g _ spd hk
  obtain ⟨spd', hk', -, hvec⟩ := hframe.spds _ spd hk
  refine ⟨spd', hk', fun t ht => ⟨hvec t (by rintro rfl; rw [ht] at htype; cases htype), fun i hi => ?_⟩⟩
  obtain ⟨p, hp, hpt, -⟩ := (hinv.rep _ spd hk).listed t i (((h.vector ht hk).2 i).mp hi)
  cases hout with
  | unchanged => rfl
  | added _ _ hadd =>
    obtain ⟨m, hget⟩ := hadd.get
    rw [hget, if_neg]
    rintro rfl
    rw [hadd.fresh] at hp
    cases hp
  | deleted hspd _ hmem hvp heq hdel =>
    rw [hdel.get, if_neg]
    rintro rfl
    -- a policy of the other type
    rw [hp] at hvp
    cases hvp
    rw [← type_eq_of_isEqual heq, hpt, ht] at htype
    cases htype

section
variable (hgood : ∀ im im' seen k v, Stable kind seen im im' → good im seen k v → good im' seen k v)
include hgood

/-- Every operation that deletes no SPD with packets of this epoch keeps the invariant. -/
theorem FlowInv.control (h : FlowInv kind sas good s) {op : ControlOp} (hop : op.KeepsSeen kind s) :
    ∃ s', s.control kind sas op = .ok s' ∧ FlowInv kind sas good s' := by
  obtain ⟨held, hinv⟩ := h.spd
  cases op with
  | setInterfaceSpd swIfIndex spdId isAdd =>
    refine ⟨_, rfl, h.spd, h.slow, ?_, h.cache⟩
    intro sw k hk
    unfold ipsecSetInterfaceSpd at hk
    split at hk
    · exact h.bound sw k hk
    · next spdIndex hid =>
      obtain ⟨spd, hspd, -⟩ := hinv.indexed.live _ _ hid
      by_cases hsw : sw = swIfIndex
      · subst hsw
        split at hk
        · split at hk
          · exact h.bound sw k hk
          · simp only [update_self, some.injEq] at hk
            rw [← hk, hspd]; rfl
        · simp at hk
      · have hold : s.spdIndexBySwIfIndex sw = some k := by
          split at hk
          · split at hk
            · exact hk
            · simpa [hsw] using hk
          · simpa [hsw] using hk
        exact h.bound sw k hold
  | addDelSpd spdId isAdd =>
    obtain ⟨im', live', hstep, hinv', hframe⟩ : ∃ im' live', s.spd.step sas (.addDelSpd spdId isAdd) =
        .ok ⟨im', live'⟩ ∧ SpdInv sas ⟨im', live'⟩ held ∧
          SpdFrame s.spd.im im' (deletedSpd s.spd.im spdId isAdd) := by
      have hframe : Ensures (ipsecAddDelSpd s.spd.im spdId isAdd) _ := ipsecAddDelSpd_frame spdId isAdd
      rcases ipsecAddDelSpd_spec hinv spdId isAdd with ⟨error, hres⟩ | ⟨im', hres, -, -, -, hinv'⟩
      · exact ⟨_, _, by rw [SpdHistory.step, hres]; rfl, hinv, hframe _ hres⟩
      · exact ⟨_, _, by rw [SpdHistory.step, hres]; rfl, hinv', hframe _ hres⟩
    refine ⟨_, by rw [FlowState.control, hstep]; rfl, ⟨held, hinv'⟩, ?_, ?_, ?_⟩
    · dsimp only
      rw [hframe.fpIsEnabled]
      exact h.slow
    · intro sw k hk
      dsimp only [unbindSpd] at hk ⊢
      split at hk
      · cases hk
      · next hne =>
        obtain ⟨spd, hspd⟩ := isSome_iff_exists.mp (h.bound sw k hk)
        rw [hframe.spds k spd (by rw [← hk]; exact hne) hspd]; rfl
    · refine h.cache.mono fun k v hkv => hgood _ _ _ k v ?_ hkv
      intro g hg spd hspd
      refine ⟨spd, hframe.spds _ spd (hop g hg) hspd, fun t _ => ⟨rfl, fun i _ => ?_⟩⟩
      rw [hframe.policies]
  | addDelPolicy policy isAdd =>
    obtain ⟨im', reply, held', hres, hout, hinv', -⟩ := ipsecAddDelPolicy_spec hinv policy isAdd
    have hframe := ipsecAddDelPolicy_frame isAdd _ hres
    have hstep : s.spd.step sas (.addDelPolicy policy isAdd) = .ok (s.spd.afterPolicy policy im' reply) := by
      rw [SpdHistory.step, hres]
      rfl
    have hslow : ∀ t, kind.types t = true → im'.fpIsEnabled t.isIpv6 t.isInbound = false := by
      rw [hframe.fpIsEnabled]
      exact h.slow
    have hbound : ∀ sw k, s.spdIndexBySwIfIndex sw = some k → (im'.spds.get? k).isSome := by
      intro sw k hk
      obtain ⟨spd, hspd⟩ := isSome_iff_exists.mp (h.bound sw k hk)
      obtain ⟨spd', hspd', -⟩ := hframe.spds k spd hspd
      rw [hspd']; rfl
    refine ⟨_, by rw [FlowState.control, hstep]; rfl, ?_⟩
    by_cases hstale : s.stales kind policy = true
    · simp only [hstale, if_true]
      exact ⟨⟨held', hinv'⟩, hslow, hbound, h.cache.bump kind.zero_epoch⟩
    · simp only [hstale]
      refine ⟨⟨held', hinv'⟩, hslow, hbound, h.cache.mono fun k v hkv => hgood _ _ _ k v ?_ hkv⟩
      by_cases htype : kind.types policy.type = true
      · -- the cache is about the policy, so there is no SPD of its id and nothing happens
        have hnone : s.spd.im.spdIndexBySpdId policy.id = none := by
          have hip4 : policy.isIpv6 = false := by rw [← policy.type_isIpv6]; exact kind.types_ip4 _ htype
          simpa [FlowState.stales, hip4, htype] using hstale
        have hsame : im' = s.spd.im := by
          rw [ipsecAddDelPolicy, hnone] at hres
          cases hres
          rfl
        intro g _ spd hspd
        exact ⟨spd, by rw [show (s.spd.afterPolicy policy im' reply).im = s.spd.im from hsame]; exact hspd,
          fun t _ => ⟨rfl, fun i _ => by rw [show (s.spd.afterPolicy policy im' reply).im = s.spd.im from hsame]⟩⟩
      · exact h.stable_policy hframe hout (Bool.eq_false_iff.mpr htype)

end

end

end Vpp.Ipsec
