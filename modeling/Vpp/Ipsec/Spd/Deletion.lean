import Vpp.Ipsec.Spd.Agree

/-! What a deletion takes away: `ipsec_add_del_policy` without `is_add`.

    The indices of the policies stand in vectors: one for each SPD and type, and one for each key of a hash table. A
    deletion goes through one of them, the request's own, and takes out the first policy that `ipsec_policy_is_equal`
    finds equal to the request:

        own vector    [a, b, i, c]  ──▶  [a, b, c]       pool of policies: slot i emptied, no other touched
        any other     [..]          ──▶  [..]

    The comparison leaves out 64 bits of an IPv6 policy (`raddr.stop`). The deletion takes out a policy of the request
    exactly where the first one that it finds equal agrees with the request in these bits too. -/

namespace Vpp.Ipsec
open Vpp.Schemes Vpp.Vppinfra List IpsecMain BitVec Option Pool Function
open SpdHistory (step init)

/-! ### Vectors of policy indices -/

/-- Where a vector of policy indices is kept: by SPD index and type, or by hash table and key. -/
inductive VecPlace where
  | byType (spdIndex : ℕ) (type : PolicyType)
  | bucket (isIpv6 : Bool) (hashIdx : ℕ) (key : IpsecFp5tuple)
  deriving DecidableEq

def IpsecMain.vec (im : IpsecMain) : VecPlace → List ℕ
  | .byType k t => ((im.spds.get? k).map fun spd => spd.policies t).getD []
  | .bucket v h key => (((im.lookupHashes v).get? h).bind fun table => table key).getD []

/-- The vectors that a live SPD reads: those of its types without fast path, and those of its hash tables. -/
def IpsecMain.InUse (im : IpsecMain) : VecPlace → Prop
  | .byType k t => ∃ spd, im.spds.get? k = some spd ∧ spd.tableOf t = none
  | .bucket v h _ => ∃ k spd d, im.spds.get? k = some spd ∧ spd.fpSpd.lookupHashIdx v d = some h

/-- By descending priority. -/
def IpsecMain.Sorted (im : IpsecMain) (place : VecPlace) : Prop :=
  Descending im.policies.get? IpsecPolicy.prio (im.vec place)

/-- The vector that a request names: that of the SPD with its id, by its type or by its key. -/
def ownPlace (sas : SaTable) (im : IpsecMain) (policy : IpsecPolicy) : Option VecPlace := do
  let k ← im.spdIndexBySpdId policy.id
  let spd ← im.spds.get? k
  if ipsecIsFpEnabled im spd policy.type then
    let sa ← policySaIndex sas policy
    let h ← spd.tableOf policy.type
    return .bucket policy.isIpv6 h (policyKey sas { policy with saIndex := sa })
  else return .byType k policy.type

/-! ### Equal policies -/

/-- The policies agree on every selector, the action, the priority and the SA. An IPv4 policy has its addresses in
    the low 32 bits of the union. -/
structure AgreesWith (p policy : IpsecPolicy) : Prop where
  priority : p.priority = policy.priority
  type : p.type = policy.type
  action : p.policy = policy.policy
  saId : p.saId = policy.saId
  protocol : p.protocol = policy.protocol
  lport : p.lport = policy.lport
  rport : p.rport = policy.rport
  isIpv6 : p.isIpv6 = policy.isIpv6
  ip6 : policy.isIpv6 = true → p.laddr = policy.laddr ∧ p.raddr = policy.raddr
  ip4 : policy.isIpv6 = false →
    ip4Of p.laddr.start = ip4Of policy.laddr.start ∧ ip4Of p.laddr.stop = ip4Of policy.laddr.stop ∧
    ip4Of p.raddr.start = ip4Of policy.raddr.start ∧ ip4Of p.raddr.stop = ip4Of policy.raddr.stop

/-- Two halves make an address. -/
theorem address_ext {a b : BitVec 128} (hhigh : a.extractLsb' 64 64 = b.extractLsb' 64 64)
    (hlow : a.extractLsb' 0 64 = b.extractLsb' 0 64) : a = b := by
  apply eq_of_toNat_eq
  have hh := congrArg BitVec.toNat hhigh
  have hl := congrArg BitVec.toNat hlow
  simp only [extractLsb'_toNat, Nat.shiftRight_eq_div_pow] at hh hl
  omega

/-- What the comparison leaves out is all that is missing. -/
theorem agreesWith_of_isEqual {p policy : IpsecPolicy} (h : ipsecPolicyIsEqual p policy = true)
    (hstop : policy.isIpv6 = true → p.raddr.stop.extractLsb' 0 64 = policy.raddr.stop.extractLsb' 0 64) :
    AgreesWith p policy := by
  simp only [ipsecPolicyIsEqual, Bool.and_eq_true, beq_iff_eq] at h
  obtain ⟨⟨⟨⟨⟨⟨⟨⟨hprio, htype⟩, haction⟩, hsa⟩, hproto⟩, hlport⟩, hrport⟩,
    hv⟩, haddr⟩ := h
  refine ⟨hprio, htype, haction, hsa, hproto, hlport, hrport, hv, ?_, ?_⟩
  · intro h6
    rw [if_pos h6] at haddr
    simp only [Bool.and_eq_true, beq_iff_eq] at haddr
    obtain ⟨⟨⟨⟨hls, hlt⟩, hrs⟩, hhigh⟩, -⟩ := haddr
    have hrt := address_ext hhigh (hstop h6)
    exact ⟨by cases hp : p.laddr; cases hq : policy.laddr; simp_all,
      by cases hp : p.raddr; cases hq : policy.raddr; simp_all⟩
  · intro h4
    rw [if_neg (by rw [h4]; exact Bool.false_ne_true)] at haddr
    simp only [Bool.and_eq_true, beq_iff_eq] at haddr
    obtain ⟨⟨⟨hls, hlt⟩, hrs⟩, hrt⟩ := haddr
    exact ⟨hls, hlt, hrs, hrt⟩

theorem AgreesWith.isEqual {p policy : IpsecPolicy} (h : AgreesWith p policy) : ipsecPolicyIsEqual p policy = true := by
  simp only [ipsecPolicyIsEqual, Bool.and_eq_true, beq_iff_eq]
  refine ⟨⟨⟨⟨⟨⟨⟨⟨h.priority, h.type⟩, h.action⟩, h.saId⟩, h.protocol⟩, h.lport⟩, h.rport⟩,
    h.isIpv6⟩, ?_⟩
  cases hv : policy.isIpv6 with
  | true =>
    obtain ⟨hl, hr⟩ := h.ip6 hv
    simp [hl, hr]
  | false =>
    obtain ⟨hls, hlt, hrs, hrt⟩ := h.ip4 hv
    simp [hls, hlt, hrs, hrt]

/-- The first policy among some indices that `ipsec_policy_is_equal` finds equal to the request. -/
def firstEqual (policies : Pool IpsecPolicy) (policy : IpsecPolicy) (ids : List ℕ) : Option IpsecPolicy :=
  ids.findSome? fun i => (policies.get? i).filter (ipsecPolicyIsEqual · policy)

variable {policies : Pool IpsecPolicy}

theorem firstEqual_eq_none_iff {policies : Pool IpsecPolicy} {policy : IpsecPolicy} {ids : List ℕ} :
    firstEqual policies policy ids = none ↔
      ∀ i ∈ ids, ∀ p, policies.get? i = some p → ipsecPolicyIsEqual p policy = false := by
  rw [firstEqual, findSome?_eq_none_iff]
  refine forall₂_congr fun i _ => ?_
  cases policies.get? i <;> simp [Option.filter]

theorem FoundEqual.firstEqual_eq {policies : Pool IpsecPolicy} {policy : IpsecPolicy} {ids : List ℕ}
    {found : Option (ℕ × ℕ × IpsecPolicy)} (h : FoundEqual policies policy ids found) :
    firstEqual policies policy ids = found.map fun r => r.2.2 := by
  rcases found with _ | ⟨n, i, vp⟩
  · exact firstEqual_eq_none_iff.mpr h
  · obtain ⟨l₁, l₂, rfl, -, hget, heq, hbefore⟩ := h
    have hnone : firstEqual policies policy l₁ = none := firstEqual_eq_none_iff.mpr hbefore
    rw [firstEqual] at hnone ⊢
    rw [findSome?_append, hnone]
    simp [hget, Option.filter, heq]

/-- The policy of the request's vector that is found equal to an IPv6 request has its low half of `raddr.stop`. -/
def RaddrStopTold (sas : SaTable) (im : IpsecMain) (policy : IpsecPolicy) : Prop :=
  policy.isIpv6 = true →
  ∀ place ∈ ownPlace sas im policy, ∀ vp ∈ firstEqual im.policies policy (im.vec place),
    vp.raddr.stop.extractLsb' 0 64 = policy.raddr.stop.extractLsb' 0 64

/-! ### One deletion -/

/-- The policy `vp` at index `i` was taken out of one vector and out of the pool, and nothing else. -/
structure TakenOut (im im' : IpsecMain) (place : VecPlace) (i : ℕ) (vp : IpsecPolicy) : Prop where
  live : im.policies.get? i = some vp
  vec : ∃ l₁ l₂, im.vec place = l₁ ++ i :: l₂ ∧ im'.vec place = l₁ ++ l₂
  others : ∀ place', place' ≠ place → im'.vec place' = im.vec place'
  pool : ∀ j, im'.policies.get? j = if j = i then none else im.policies.get? j

section
variable {sas : SaTable} {im im' : IpsecMain} {policy vp : IpsecPolicy} {k i n : ℕ} {spd : IpsecSpd}
variable {place : VecPlace} {reply : SpdReply}

section
variable (h : TakenOut im im' place i vp)
include h

theorem TakenOut.mem : i ∈ im.vec place := by
  obtain ⟨l₁, l₂, hvec, -⟩ := h.vec
  rw [hvec]
  simp

/-- Every vector keeps the order of what stays in it. -/
theorem TakenOut.sublist (place' : VecPlace) :
    (im'.vec place').Sublist (im.vec place') := by
  by_cases hplace : place' = place
  · obtain ⟨l₁, l₂, hvec, hvec'⟩ := h.vec
    rw [hplace, hvec, hvec']
    exact (sublist_cons_self i l₂).append_left l₁
  · rw [h.others place' hplace]

theorem TakenOut.sorted {place' : VecPlace} (hsort : im.Sorted place') :
    im'.Sorted place' := by
  refine List.Pairwise.imp ?_ (hsort.sublist (h.sublist place'))
  intro a b hab p q hp hq
  -- an index that still reads a policy reads the one it read before
  have hkept : ∀ {j r}, im'.policies.get? j = some r → im.policies.get? j = some r := by
    intro j r hr
    rw [h.pool j] at hr
    split at hr
    · cases hr
    · exact hr
  exact hab p q (hkept hp) (hkept hq)

end

/-- The first policy of a vector that is found equal to the request is taken out, if there is one. -/
def TakesFirst (im im' : IpsecMain) (policy : IpsecPolicy) (place : VecPlace) : Prop :=
  (im' = im ∧ firstEqual im.policies policy (im.vec place) = none) ∨
    ∃ i vp, TakenOut im im' place i vp ∧ firstEqual im.policies policy (im.vec place) = some vp ∧
      ipsecPolicyIsEqual vp policy = true

/-- A deletion from an SPD without fast path. -/
theorem delFromVector_takes (hk : im.spds.get? k = some spd)
    (h : delFromVector im k spd policy = .ok (im', reply)) :
    TakesFirst im im' policy (.byType k policy.type) := by
  have hvec : im.vec (.byType k policy.type) = spd.policies policy.type := by simp [vec, hk]
  obtain ⟨found, hfound, h⟩ := bind_eq_ok.mp h
  have hfirst := (findEqualPolicy_found hfound).firstEqual_eq
  rw [← hvec] at hfirst
  rcases found with _ | ⟨n, i, vp⟩
  · cases h
    exact .inl ⟨rfl, hfirst⟩
  · cases h
    obtain ⟨l₁, l₂, hsplit, rfl, hget, heq, -⟩ := findEqualPolicy_found hfound
    refine .inr ⟨i, vp, ⟨hget, ⟨l₁, l₂, ?_, ?_⟩, ?_, get?_put hget⟩, hfirst, heq⟩
    · simp [vec, hk, hsplit]
    · simp [vec, setSpd, get?_set hk, hsplit, eraseIdx_append_cons]
    · intro place' hne
      cases place' with
      | bucket v h key => rfl
      | byType k' t =>
        simp only [vec, setSpd, get?_set hk]
        by_cases hk' : k' = k
        · subst hk'
          have ht : t ≠ policy.type := fun ht => hne (by rw [ht])
          rw [if_pos rfl, hk, map_some, map_some]
          dsimp only
          rw [update_of_ne ht]
        · rw [if_neg hk']

/-- A deletion from an SPD with fast path. -/
theorem delFromFastPath_takes (hk : im.spds.get? k = some spd)
    (h : delFromFastPath sas im k spd policy = .ok (im', reply)) :
    ∃ hashIdx, spd.tableOf policy.type = some hashIdx ∧
      TakesFirst im im' policy (.bucket policy.isIpv6 hashIdx (policyKey sas policy)) := by
  rw [delFromFastPath_eq] at h
  obtain ⟨r, hr, h⟩ := bind_eq_ok.mp h
  cases hidx : spd.fpSpd.lookupHashIdx policy.isIpv6 policy.type.isInbound with
  | none => simp [fpDelPolicy, hidx, deref, Bind.bind, Except.bind] at hr
  | some hashIdx =>
  cases htable : (im.lookupHashes policy.isIpv6).get? hashIdx with
  | none => simp [fpDelPolicy, hidx, htable, deref, Bind.bind, Except.bind] at hr
  | some table =>
  refine ⟨hashIdx, by rw [IpsecSpd.tableOf, policy.type_isIpv6, hidx], ?_⟩
  have hvec : im.vec (.bucket policy.isIpv6 hashIdx (policyKey sas policy)) =
      (table (policyKey sas policy)).getD [] := by simp [vec, htable]
  rw [fpDelPolicy_eq hidx htable] at hr
  cases hids : table (policyKey sas policy) with
  | none =>
    rw [hids] at hr hvec
    cases hr
    cases h
    exact .inl ⟨rfl, by rw [hvec]; rfl⟩
  | some ids =>
    rw [hids] at hr hvec
    obtain ⟨found, hfound, hr⟩ := bind_eq_ok.mp hr
    have hfirst := (findEqualPolicy_found hfound).firstEqual_eq
    rw [← show im.vec _ = ids from hvec] at hfirst
    rcases found with _ | ⟨n, i, vp⟩
    · cases hr
      cases h
      exact .inl ⟨rfl, hfirst⟩
    obtain ⟨maskTypes, -, hr⟩ := bind_eq_ok.mp hr
    cases hr
    cases h
    obtain ⟨l₁, l₂, rfl, rfl, hget, heq, -⟩ := findEqualPolicy_found hfound
    refine .inr ⟨i, vp, ⟨hget, ⟨l₁, l₂, hvec, ?_⟩, ?_, get?_put hget⟩, hfirst, heq⟩
    · simp only [vec, setSpd, setTable, update_self, get?_set htable,
        if_true, bind_some, eraseIdx_append_cons]
      -- an empty vector is freed with its key
      by_cases hlen : (l₁ ++ i :: l₂).length = 1
      · have hnil : l₁ ++ l₂ = [] := length_eq_zero_iff.mp (by
          rw [length_append, length_cons] at hlen
          rw [length_append]
          omega)
        rw [if_pos hlen, hnil]
        rfl
      · rw [if_neg hlen]
        rfl
    · intro place' hne
      cases place' with
      | byType k' t =>
        simp only [vec, setSpd, setTable, get?_set hk]
        by_cases hk' : k' = k
        · rw [if_pos hk', hk', hk]
          rfl
        · rw [if_neg hk']
      | bucket v h' key =>
        simp only [vec, setSpd, setTable]
        by_cases hsame : v = policy.isIpv6 ∧ h' = hashIdx
        · obtain ⟨rfl, rfl⟩ := hsame
          have hkey : key ≠ policyKey sas policy := fun hkey => hne (by rw [hkey])
          rw [update_self, get?_set htable, if_pos rfl, htable, bind_some, bind_some,
            update_of_ne hkey]
        · rw [get?_setTable htable hsame]

/-- A deletion takes the first equal policy out of the request's vector; where the request names none, it does
    nothing. -/
theorem delPolicy_takes (h : ipsecAddDelPolicy sas im policy false = .ok (im', reply)) :
    (ownPlace sas im policy = none ∧ im' = im) ∨
      ∃ place, ownPlace sas im policy = some place ∧ TakesFirst im im' policy place := by
  cases hspd : im.spdIndexBySpdId policy.id with
  | none =>
    simp only [ipsecAddDelPolicy, hspd] at h
    cases h
    exact .inl ⟨by rw [ownPlace, hspd]; rfl, rfl⟩
  | some k =>
  cases hk : im.spds.get? k with
  | none => simp [ipsecAddDelPolicy, hspd, hk, deref, Bind.bind, Except.bind] at h
  | some spd =>
  have hdel : ipsecAddDelPolicy sas im policy false = _ :=
    ipsecAddDelPolicy_del (s := ⟨im, fun _ _ => ∅⟩) hspd hk
  have hown : ownPlace sas im policy = if ipsecIsFpEnabled im spd policy.type then
      (policySaIndex sas policy).bind fun sa => (spd.tableOf policy.type).bind fun h =>
        some (.bucket policy.isIpv6 h (policyKey sas { policy with saIndex := sa }))
      else some (.byType k policy.type) := by
    rw [ownPlace, hspd]
    simp only [Option.bind_eq_bind, bind_some, hk]
    rfl
  rw [hdel] at h
  split at h
  · next hfp =>
    rw [if_pos hfp] at hown
    cases hsa : policySaIndex sas policy with
    | none =>
      rw [hsa] at h hown
      cases h
      exact .inl ⟨hown, rfl⟩
    | some sa =>
      rw [hsa] at h hown
      obtain ⟨hashIdx, hidx, htakes⟩ := delFromFastPath_takes hk h
      rw [show spd.tableOf policy.type = some hashIdx from hidx] at hown
      exact .inr ⟨_, hown, htakes⟩
  · next hfp =>
    rw [if_neg hfp] at hown
    exact .inr ⟨_, hown, delFromVector_takes hk h⟩

end

/-! ### Deletions in runs -/

/-- In a state that satisfies the invariant every vector in use is sorted. -/
theorem SpdInv.sorted {sas : SaTable} {s : SpdHistory} {held : Finset ℕ} (hinv : SpdInv sas s held)
    {place : VecPlace} (huse : s.im.InUse place) : s.im.Sorted place := by
  cases place with
  | byType k t =>
    obtain ⟨spd, hk, hslow⟩ := huse
    obtain ⟨-, -, hdesc⟩ := (hinv.rep k spd hk).vector t hslow
    simpa [IpsecMain.Sorted, vec, hk] using hdesc
  | bucket v h key =>
    obtain ⟨k, spd, d, hk, hidx⟩ := huse
    obtain ⟨table, hget, hb⟩ := (hinv.rep k spd hk).table v d h hidx
    simp only [IpsecMain.Sorted, vec, hget, bind_some]
    cases hids : table key with
    | none => exact List.Pairwise.nil
    | some ids => exact (hb.bucket key ids hids).2.2

/-- The request names a policy: one in its vector agrees with it. -/
def Names (sas : SaTable) (im : IpsecMain) (policy : IpsecPolicy) : Prop :=
  ∃ place ∈ ownPlace sas im policy, ∃ i ∈ im.vec place, ∃ vp, im.policies.get? i = some vp ∧
    AgreesWith vp policy

/-- A policy that the request names is taken out, and nothing else; where it names none, nothing changes. -/
structure DeletesExactly (sas : SaTable) (im : IpsecMain) (policy : IpsecPolicy) (im' : IpsecMain) : Prop where
  taken : Names sas im policy → ∃ place i vp, ownPlace sas im policy = some place ∧ TakenOut im im' place i vp ∧
    AgreesWith vp policy
  kept : ¬ Names sas im policy → im' = im

section
variable {sas : SaTable} {im im' : IpsecMain} {policy : IpsecPolicy} {reply : SpdReply}

section
variable (h : ipsecAddDelPolicy sas im policy false = .ok (im', reply))
include h

theorem deletesExactly_iff :
    DeletesExactly sas im policy im' ↔ RaddrStopTold sas im policy := by
  rcases delPolicy_takes h with
    ⟨hnone, rfl⟩ | ⟨place, hown, ⟨rfl, hfirst⟩ | ⟨i, vp, htaken, hfirst, heq⟩⟩
  · -- no vector
    have hnames : ¬ Names sas im' policy := by
      rintro ⟨place, hplace, -⟩
      rw [hnone] at hplace
      cases hplace
    refine iff_of_true ⟨fun hn => absurd hn hnames, fun _ => rfl⟩ fun _ place hplace => ?_
    rw [hnone] at hplace
    cases hplace
  · -- no policy that is found equal
    have hnames : ¬ Names sas im' policy := by
      rintro ⟨place', hplace, i, hi, p, hp, hagree⟩
      rw [hown] at hplace
      cases hplace
      have hne := firstEqual_eq_none_iff.mp hfirst i hi p hp
      rw [hagree.isEqual] at hne
      cases hne
    refine iff_of_true ⟨fun hn => absurd hn hnames, fun _ => rfl⟩ fun _ place' hplace vp hvp => ?_
    rw [hown] at hplace
    cases hplace
    rw [hfirst] at hvp
    cases hvp
  · constructor
    · intro hexact h6 place' hplace vp' hvp
      rw [hown] at hplace
      cases hplace
      rw [hfirst] at hvp
      cases hvp
      have hgone : im'.policies.get? i = none := by rw [htaken.pool, if_pos rfl]
      have hagree : AgreesWith vp policy := by
        by_cases hnames : Names sas im policy
        · obtain ⟨_, i', vp', -, htaken', hagree⟩ := hexact.taken hnames
          -- the slot that was emptied is the one of this policy
          have hi : i = i' := by
            by_contra hne
            rw [htaken'.pool, if_neg hne, htaken.live] at hgone
            cases hgone
          subst hi
          rw [← some.inj (htaken.live.symm.trans htaken'.live)] at hagree
          exact hagree
        · rw [hexact.kept hnames, htaken.live] at hgone
          cases hgone
      rw [(hagree.ip6 h6).2]
    · intro htold
      have hagree := agreesWith_of_isEqual heq fun h6 => htold h6 place hown vp hfirst
      exact ⟨fun _ => ⟨place, i, vp, hown, htaken, hagree⟩,
        fun hnames => absurd ⟨place, hown, i, htaken.mem, vp, htaken.live, hagree⟩ hnames⟩

theorem delPolicy_sorted {place : VecPlace}
    (hsort : im.Sorted place) : im'.Sorted place := by
  rcases delPolicy_takes h with ⟨-, rfl⟩ | ⟨_, -, ⟨rfl, -⟩ | ⟨i, vp, htaken, -⟩⟩
  · exact hsort
  · exact hsort
  · exact htaken.sorted hsort

end

end

/-! ### Where a live policy is kept -/

/-- The SA of every policy is the one that its id names. -/
def SaResolved (sas : SaTable) (im : IpsecMain) : Prop :=
  ∀ i p, im.policies.get? i = some p → policySaIndex sas p = some p.saIndex

section
variable {sas : SaTable} {s : SpdHistory} {held : Finset ℕ}

theorem SpdInv.step_saResolved (hinv : SpdInv sas s held) (hsa : SaResolved sas s.im) (op : SpdOp) :
    ∃ s' held', s.step sas op = .ok s' ∧ SpdInv sas s' held' ∧ SaResolved sas s'.im := by
  obtain ⟨s', held', hstep, hinv'⟩ := s.step_inv hinv op
  refine ⟨s', held', hstep, hinv', ?_⟩
  cases op with
  | addDelSpd spdId isAdd =>
    rcases ipsecAddDelSpd_spec hinv spdId isAdd with ⟨error, hspd⟩ | ⟨im', hspd, hpolicies, -⟩ <;>
      rw [step, hspd] at hstep <;> cases hstep
    · exact hsa
    · rw [SaResolved, hpolicies]
      exact hsa
  | addDelPolicy policy isAdd =>
    obtain ⟨im', reply, -, hop, hout, -⟩ := ipsecAddDelPolicy_spec hinv policy isAdd
    rw [step, hop] at hstep
    cases hstep
    intro i p hp
    cases hout with
    | unchanged => exact hsa i p hp
    | added _ hfound hadd =>
      obtain ⟨m, hget⟩ := hadd.get
      rw [show im'.policies.get? i = _ from hget i] at hp
      split at hp
      · cases hp
        exact hfound
      · exact hsa i p hp
    | deleted _ _ _ _ _ hdel =>
      rw [show im'.policies.get? i = _ from hdel.get i] at hp
      split at hp
      · cases hp
      · exact hsa i p hp

theorem run_saResolved {fpIsEnabled : Bool → Bool → Bool} {ops : List SpdOp}
    (hrun : runM (step sas) (init fpIsEnabled) ops = .ok s) : ∃ held, SpdInv sas s held ∧ SaResolved sas s.im := by
  have hstep : ∀ (s : SpdHistory) (op : SpdOp), (∃ held, SpdInv sas s held ∧ SaResolved sas s.im) → True →
      ∃ s', s.step sas op = .ok s' ∧ ∃ held, SpdInv sas s' held ∧ SaResolved sas s'.im := by
    rintro s op ⟨held, hinv, hsa⟩ -
    obtain ⟨s', held', hs', h⟩ := hinv.step_saResolved hsa op
    exact ⟨s', hs', held', h⟩
  obtain ⟨s', hrun', h⟩ := runM_total hstep (fun op (_ : op ∈ ops) => trivial)
    ⟨∅, spdInv_init sas fpIsEnabled, by simp [SaResolved, init]⟩
  rw [hrun] at hrun'
  cases hrun'
  exact h

/-- Policies that agree have the same key. -/
theorem AgreesWith.policyKey {p policy : IpsecPolicy} (h : AgreesWith p policy) (hsa : p.saIndex = policy.saIndex) :
    policyKey sas p = policyKey sas policy := by
  have hspi (inbound : Bool) (m : IpsecFp5tuple) : setSpiMask p inbound m = setSpiMask policy inbound m := by
    simp only [setSpiMask, ipsecFpGetPolicyPortsMask, h.type, h.protocol, h.lport, h.rport]
  have htunnel : byTunnel sas p = byTunnel sas policy := by rw [byTunnel, byTunnel, h.type, hsa]
  have haddr (t : IpsecFp5tuple) : setAddresses t policy.isIpv6 p.laddr.start p.raddr.start =
      setAddresses t policy.isIpv6 policy.laddr.start policy.raddr.start := by
    cases hv : policy.isIpv6 with
    | true => rw [(h.ip6 hv).1, (h.ip6 hv).2]
    | false =>
      obtain ⟨hls, -, hrs, -⟩ := h.ip4 hv
      simp only [setAddresses, Bool.false_eq_true, if_false, hls, hrs]
  have htuple (inbound : Bool) :
      ipsecFpGetPolicy5tuple sas p inbound = ipsecFpGetPolicy5tuple sas policy inbound := by
    simp only [ipsecFpGetPolicy5tuple, h.isIpv6, haddr, h.type, hsa, h.protocol, h.lport, h.rport]
  have hmask : ipsecFpGetPolicyMask sas p = ipsecFpGetPolicyMask sas policy := by
    simp only [ipsecFpGetPolicyMask, ipsecFpIp6GetPolicyMask, ipsecFpIp4GetPolicyMask, hspi, htunnel, h.isIpv6, h.type]
    cases hv : policy.isIpv6 with
    | true => rw [(h.ip6 hv).1, (h.ip6 hv).2]
    | false =>
      obtain ⟨hls, hlt, hrs, hrt⟩ := h.ip4 hv
      simp only [ip4RangeMask, hls, hlt, hrs, hrt, Bool.false_eq_true, if_false]
  rw [Ipsec.policyKey, Ipsec.policyKey, h.isIpv6, h.type, htuple, hmask]

/-- A live policy that agrees with a request is in the vector that the request names. -/
theorem SpdInv.mem_ownPlace (hinv : SpdInv sas s held) (hsa : SaResolved sas s.im) {policy vp : IpsecPolicy} {i : ℕ}
    (hspd : (s.im.spd? policy.id).isSome) (hi : i ∈ s.live policy.id policy.type)
    (hvp : s.im.policies.get? i = some vp) (hagree : AgreesWith vp policy) :
    ∃ place ∈ ownPlace sas s.im policy, i ∈ s.im.vec place := by
  obtain ⟨spd, hspd⟩ := isSome_iff_exists.mp hspd
  obtain ⟨k, hidx, hk⟩ := bind_eq_some_iff.mp hspd
  obtain ⟨spd', hk', hid⟩ := hinv.indexed.live policy.id k hidx
  rw [hk] at hk'
  cases hk'
  have hrep := hinv.rep k spd hk
  rw [hid] at hrep
  have hfp := hinv.fpEnabled hk policy.type
  cases htable : spd.tableOf policy.type with
  | none =>
    refine ⟨.byType k policy.type, ?_, ?_⟩
    · simp [ownPlace, hidx, hk, hfp, htable]
    · have hmem := ((hrep.vector policy.type htable).2.1 i).mpr hi
      simpa [vec, hk] using hmem
  | some h =>
    have hfound : policySaIndex sas policy = some vp.saIndex := by
      rw [← hsa i vp hvp, policySaIndex, policySaIndex, hagree.action, hagree.saId]
    refine ⟨.bucket policy.isIpv6 h (policyKey sas { policy with saIndex := vp.saIndex }), ?_, ?_⟩
    · simp [ownPlace, hidx, hk, hfp, htable, hfound]
    · obtain ⟨table, hget, hbuckets⟩ := hrep.table _ _ h htable
      obtain ⟨p, ids, hp, hids, hmem⟩ := hbuckets.complete i ⟨policy.type, rfl, rfl, hi⟩
      rw [hvp] at hp
      cases hp
      have hkey : policyKey sas vp = policyKey sas { policy with saIndex := vp.saIndex } :=
        AgreesWith.policyKey ⟨hagree.priority, hagree.type, hagree.action, hagree.saId, hagree.protocol, hagree.lport,
          hagree.rport, hagree.isIpv6, hagree.ip6, hagree.ip4⟩ rfl
      rw [policy.type_isIpv6] at hget
      rw [hkey] at hids
      simpa [vec, hget, hids] using hmem

end

/-- A deletion that returns takes out what the request names exactly where the first policy found equal to it has its
    `raddr.stop`, and sorted vectors stay sorted. In the states that runs reach the deletion does return, the vectors in
    use are sorted, and a live policy that agrees with the request is named by it. -/
theorem delPolicy_exact_iff (sas : SaTable) (im : IpsecMain) (policy : IpsecPolicy) :
    (∀ im' reply, ipsecAddDelPolicy sas im policy false = .ok (im', reply) →
      (DeletesExactly sas im policy im' ↔ RaddrStopTold sas im policy) ∧
        ∀ place, im.Sorted place → im'.Sorted place) ∧
    ∀ fpIsEnabled ops s, runM (step sas) (init fpIsEnabled) ops = .ok s → s.im = im →
      (∃ im' reply, ipsecAddDelPolicy sas im policy false = .ok (im', reply)) ∧
      (∀ place, im.InUse place → im.Sorted place) ∧
      ((im.spd? policy.id).isSome → ∀ i ∈ s.live policy.id policy.type, ∀ vp, im.policies.get? i = some vp →
        AgreesWith vp policy → Names sas im policy) := by
  refine ⟨fun im' reply h => ⟨deletesExactly_iff h, fun place hsort => delPolicy_sorted h hsort⟩, ?_⟩
  rintro fpIsEnabled ops s hrun rfl
  obtain ⟨held, hinv, hsa⟩ := run_saResolved hrun
  obtain ⟨im', reply, -, hstep, -⟩ := ipsecAddDelPolicy_spec hinv policy false
  refine ⟨⟨im', reply, hstep⟩, fun place huse => hinv.sorted huse, fun hspd i hi vp hvp hagree => ?_⟩
  obtain ⟨place, hown, hmem⟩ := hinv.mem_ownPlace hsa hspd hi hvp hagree
  exact ⟨place, hown, i, hmem, vp, hvp, hagree⟩

/-! ### Two ranges with one beginning -/

/-- A policy for the IPv6 packets to the addresses up to the given one. -/
def ip6OutboundTo (stop : BitVec 128) : IpsecPolicy :=
  { IpsecPolicy.forAll 1 true true .discard .ip6Outbound rfl with raddr := ⟨0, stop⟩ }

/-- SPD 1 is created and gets a policy for each of the given ends. -/
def ip6OutboundOps (stops : List (BitVec 128)) : List SpdOp :=
  .addDelSpd 1 true :: stops.map fun stop => .addDelPolicy (ip6OutboundTo stop) true

/-- The ends of the remote ranges of all policies in the pool. -/
def stopsOf (im : IpsecMain) : List (ℕ × BitVec 128) := im.policies.toList.map fun e => (e.1, e.2.raddr.stop)

/-- The end of the policy that a deletion finds first. -/
def firstStop (im : IpsecMain) (policy : IpsecPolicy) : Option (BitVec 128) :=
  (ownPlace noSas im policy).bind fun place => (firstEqual im.policies policy (im.vec place)).map (·.raddr.stop)

/-- What is in the pool before and after a deletion, and what it finds. -/
theorem stops_of_delete (stops : List (BitVec 128)) (policy : IpsecPolicy) (before after : List (ℕ × BitVec 128))
    (first : Option (BitVec 128)) (h : (runM (step noSas) (init fun _ _ => false) (ip6OutboundOps stops)).map
      (fun s => (stopsOf s.im, firstStop s.im policy,
        (ipsecAddDelPolicy noSas s.im policy false).toOption.map fun r => stopsOf r.1)) =
        .ok (before, first, some after)) :
    ∃ s im' reply,
      runM (step noSas) (init fun _ _ => false) (ip6OutboundOps stops) = .ok s ∧
      ipsecAddDelPolicy noSas s.im policy false = .ok (im', reply) ∧ stopsOf s.im = before ∧
      firstStop s.im policy = first ∧ stopsOf im' = after := by
  obtain ⟨s, hrun, hobs⟩ := exists_of_runM_map h
  obtain ⟨hbefore, hobs⟩ := Prod.mk.inj hobs
  obtain ⟨hfirst, hafter⟩ := Prod.mk.inj hobs
  obtain ⟨⟨im', reply⟩, hdel, hafter⟩ := map_eq_some_iff.mp hafter
  exact ⟨s, im', reply, hrun, eq_ok_of_toOption hdel, hbefore, hfirst, hafter⟩

/-- Two ranges that end one address apart, the one of the request added last: it stands first in the vector and is
    deleted. -/
theorem delPolicy_exact_newest : ∃ s im' reply,
    runM (step noSas) (init fun _ _ => false) (ip6OutboundOps [2, 1]) = .ok s ∧
    ipsecAddDelPolicy noSas s.im (ip6OutboundTo 1) false = .ok (im', reply) ∧
    RaddrStopTold noSas s.im (ip6OutboundTo 1) ∧ DeletesExactly noSas s.im (ip6OutboundTo 1) im' ∧
    stopsOf s.im = [(0, 2), (1, 1)] ∧ stopsOf im' = [(0, 2)] := by
  obtain ⟨s, im', reply, hrun, hdel, hbefore, hfirst, hafter⟩ :=
    stops_of_delete [2, 1] (ip6OutboundTo 1) [(0, 2), (1, 1)] [(0, 2)] (some 1) (by decide +kernel)
  have htold : RaddrStopTold noSas s.im (ip6OutboundTo 1) := by
    intro _ place hplace vp hvp
    rw [firstStop, hplace, bind_some, hvp] at hfirst
    rw [show vp.raddr.stop = 1 from some.inj hfirst]
    rfl
  have hexact := ((delPolicy_exact_iff noSas s.im (ip6OutboundTo 1)).1 im' reply hdel).1
  exact ⟨s, im', reply, hrun, hdel, htold, hexact.mpr htold, hbefore, hafter⟩

/-- Two ranges that end one address apart. The one that was added last stands first in the vector, and is deleted in
    the place of the one in the request. -/
theorem delPolicy_takes_neighbour : ∃ s im' reply vp,
    runM (step noSas) (init fun _ _ => false) (ip6OutboundOps [1, 2]) = .ok s ∧
    ipsecAddDelPolicy noSas s.im (ip6OutboundTo 1) false = .ok (im', reply) ∧
    s.im.policies.get? 1 = some vp ∧ ¬ AgreesWith vp (ip6OutboundTo 1) ∧
    stopsOf s.im = [(0, 1), (1, 2)] ∧ stopsOf im' = [(0, 1)] := by
  obtain ⟨s, im', reply, hrun, hdel, hbefore, -, hafter⟩ :=
    stops_of_delete [1, 2] (ip6OutboundTo 1) [(0, 1), (1, 2)] [(0, 1)] (some 2) (by decide +kernel)
  have hmem : ((1, 2) : ℕ × BitVec 128) ∈ stopsOf s.im := by rw [hbefore]; simp
  obtain ⟨⟨i, vp⟩, hvp, heq⟩ := mem_map.mp hmem
  obtain ⟨rfl, hstop⟩ := Prod.mk.inj heq
  refine ⟨s, im', reply, vp, hrun, hdel, mem_toList.mp hvp, ?_, hbefore, hafter⟩
  intro hagree
  have hraddr := (hagree.ip6 rfl).2
  rw [hraddr] at hstop
  exact absurd hstop (by decide +kernel)

end Vpp.Ipsec
