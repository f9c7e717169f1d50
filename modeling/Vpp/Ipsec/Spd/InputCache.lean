import Vpp.Ipsec.Spd.FlowCache
import Vpp.Ipsec.Spd.Input

/-! The inbound flow cache of IPv4 and `ipsec_esp_packet_process` (`vnet/ipsec/ipsec_input.c`).

    A packet is looked up three times: for a PROTECT, a BYPASS and a DISCARD policy. With the cache on, all three
    lookups go to the cache first, and only when all fail are they repeated by linear search:

        cache:   PROTECT ─▶ BYPASS ─▶ DISCARD ─▶ linear:   PROTECT ─▶ BYPASS ─▶ DISCARD ─▶ drop

    The key of an entry is the source, the destination and the type of the policy. The search for a PROTECT policy
    also depends on the SPI, so packets with different SPIs between the same endpoints can take each other's
    policies. -/

namespace Vpp.Ipsec
open Vpp.Schemes Vpp.Vppinfra List Option FlowState

/-- `ipsec4_inbound_spd_tuple_t`. -/
structure Ip4InboundSpdTuple where
  srcAddr : BitVec 32
  destAddr : BitVec 32
  policyType : PolicyType
  deriving DecidableEq

/-- An ESP packet that arrives on an interface. `hasSpace` says that the buffer holds the ESP header. -/
structure InPacket where
  swIfIndex : BitVec 32
  sa : BitVec 32
  da : BitVec 32
  spi : BitVec 32
  hasSpace : Bool
  deriving DecidableEq

/-- A packet that was looked up, with its SPD. -/
structure InSeen where
  sa : BitVec 32
  da : BitVec 32
  spdIndex : ℕ
  spi : BitVec 32
  hasSpace : Bool
  deriving DecidableEq

/-- The cache of inbound policies. The type of the zero entry is `IPSEC_SPD_POLICY_IP4_OUTBOUND`. -/
def inKind : FlowKind Ip4InboundSpdTuple InSeen where
  types t := t == .ip4InboundProtect || t == .ip4InboundBypass || t == .ip4InboundDiscard
  zero := ⟨⟨0, 0, .ip4Outbound⟩, 0, 0⟩
  spdIndex := InSeen.spdIndex
  types_ip4 := by
    intro t ht
    cases t <;> first | rfl | cases ht
  zero_epoch := rfl

abbrev InState := FlowState Ip4InboundSpdTuple InSeen

/-- What becomes of a packet: decrypted with the SA of a policy, passed on, dropped by a policy, or dropped for
    want of one. -/
inductive Verdict where
  | protect (saIndex : Option ℕ)
  | bypass
  | discard
  | drop
  deriving DecidableEq

section
variable (bucket : Ip4InboundSpdTuple → ℕ) (sas : SaTable)

/-- What `ipsec_input_policy_match` and `ipsec_input_protect_policy_match` have in common: the linear search, and the
    entry for what it finds where the cache is on. -/
def inputMatch (flag : Bool) (test : IpsecPolicy → Bool) (s : InState) (spd : IpsecSpd) (sa da : BitVec 32)
    (type : PolicyType) : Except Fault (InState × Option (ℕ × IpsecPolicy)) := do
  match ← linearSearch s.spd.im.policies test (spd.policies type) with
  | none => return (s, none)
  | some c => return (if flag then s.addEntry bucket ⟨sa, da, type⟩ c.1 else s, some c)

def ipsecInputPolicyMatch (flag : Bool) (s : InState) (spd : IpsecSpd) (sa da : BitVec 32) (type : PolicyType) :=
  inputMatch bucket flag (ip4InputMatch sa da) s spd sa da type

def ipsecInputProtectPolicyMatch (flag : Bool) (s : InState) (spd : IpsecSpd) (sa da spi : BitVec 32) :=
  inputMatch bucket flag (ip4ProtectMatch sas sa da spi) s spd sa da .ip4InboundProtect

/-- One of the three lookups. The 5-tuple for the fast path is built on the stack, over `tuple`. -/
def espLookup (flag searchFlowCache : Bool) (tuple : IpsecFp5tuple) (spd : IpsecSpd) (pkt : InPacket)
    (type : PolicyType) (s : InState) : Except Fault (InState × Option (ℕ × IpsecPolicy)) :=
  if ipsecIsFpEnabled s.spd.im spd .ip4InboundProtect then do
    let found ← ipsecFpInPolicyMatchN sas s.spd.im spd.fpSpd false
      [ipsecFpIn5tupleFromIp4Range tuple pkt.sa pkt.da pkt.spi type]
    return (s, found.head?.join)
  else if searchFlowCache then do
    return (s, ← s.findEntry bucket ⟨pkt.sa, pkt.da, type⟩)
  else if type = .ip4InboundProtect then ipsecInputProtectPolicyMatch bucket sas flag s spd pkt.sa pkt.da pkt.spi
  else ipsecInputPolicyMatch bucket flag s spd pkt.sa pkt.da type

end

/-- The three lookups in turn. A PROTECT policy counts only for a packet with the whole ESP header. -/
def espPass (lookup : PolicyType → InState → Except Fault (InState × Option (ℕ × IpsecPolicy)))
    (hasSpace : Bool)
    (s : InState) : Except Fault (InState × Option Verdict) := do
  let (s, p0) ← lookup .ip4InboundProtect s
  match p0, hasSpace with
  | some (_, p), true => return (s, some (.protect p.saIndex))
  | _, _ =>
    let (s, p0) ← lookup .ip4InboundBypass s
    if p0.isSome then return (s, some .bypass)
    else
      let (s, p0) ← lookup .ip4InboundDiscard s
      if p0.isSome then return (s, some .discard) else return (s, none)

/-- `ipsec_esp_packet_process`, where `flag` is `input_flow_cache_flag`. -/
def ipsecEspPacketProcess (bucket : Ip4InboundSpdTuple → ℕ) (sas : SaTable) (flag : Bool) (tuple : IpsecFp5tuple)
    (spd : IpsecSpd) (pkt : InPacket) (s : InState) : Except Fault (InState × Verdict) :=
  if pkt.spi = 0 then return (s, .drop)
  else do
    let (s, verdict) ←
      if flag then espPass (espLookup bucket sas flag true tuple spd pkt) pkt.hasSpace s else pure (s, none)
    match verdict with
    | some v => return (s, v)
    | none =>
      let (s, verdict) ← espPass (espLookup bucket sas flag false tuple spd pkt) pkt.hasSpace s
      return (s, verdict.getD .drop)

/-- The packet as it is remembered. -/
def InPacket.seen (pkt : InPacket) (spdIndex : ℕ) : InSeen := ⟨pkt.sa, pkt.da, spdIndex, pkt.spi, pkt.hasSpace⟩

/-- A packet on an interface; without an SPD the packet does not get here. A packet that is dropped for its SPI is
    not looked up. -/
def ipsec4Input (bucket : Ip4InboundSpdTuple → ℕ) (sas : SaTable) (tuple : IpsecFp5tuple) (pkt : InPacket)
    (s : InState) : Except Fault (InState × Option Verdict) :=
  match s.spdIndexBySwIfIndex pkt.swIfIndex with
  | none => return (s, none)
  | some spdIndex => do
    let spd ← deref (s.spd.im.spds.get? spdIndex)
    let s := if pkt.spi = 0 then s else { s with seen := pkt.seen spdIndex :: s.seen }
    let (s, verdict) ← ipsecEspPacketProcess bucket sas true tuple spd pkt s
    return (s, some verdict)

inductive InOp where
  | control (op : ControlOp)
  | packet (tuple : IpsecFp5tuple) (pkt : InPacket)

def InState.step (bucket : Ip4InboundSpdTuple → ℕ) (sas : SaTable) (s : InState) : InOp → Except Fault InState
  | .control op => s.control inKind sas op
  | .packet tuple pkt => do
    let (s, _) ← ipsec4Input bucket sas tuple pkt s
    return s

/-- In this epoch the packets between the same endpoints had the same SPD, the same SPI and the ESP header or not
    alike. -/
def InPacket.Safe (s : InState) (pkt : InPacket) : Prop :=
  pkt.spi ≠ 0 → ∀ k ∈ s.spdIndexBySwIfIndex pkt.swIfIndex, ∀ g ∈ s.seen, g.sa = pkt.sa → g.da = pkt.da →
    g = pkt.seen k

def InOp.Safe (s : InState) : InOp → Prop
  | .control op => op.KeepsSeen inKind s
  | .packet _ pkt => pkt.Safe s

instance InPacket.decidableSafe (s : InState) (pkt : InPacket) : Decidable (pkt.Safe s) :=
  inferInstanceAs (Decidable (_ → _))

instance InOp.decidableSafe (s : InState) : (op : InOp) → Decidable (op.Safe s)
  | .control op => inferInstanceAs (Decidable (op.KeepsSeen inKind s))
  | .packet _ pkt => inferInstanceAs (Decidable (pkt.Safe s))

/-! ### The linear searches -/

/-- The test of the linear search for a packet. -/
def InSeen.test (sas : SaTable) (g : InSeen) (type : PolicyType) : IpsecPolicy → Bool :=
  if type = .ip4InboundProtect then ip4ProtectMatch sas g.sa g.da g.spi else ip4InputMatch g.sa g.da

/-- What the linear searches return for a packet. -/
def Searched (sas : SaTable) (im : IpsecMain) (spd : IpsecSpd) (g : InSeen)
    (found : PolicyType → Option (ℕ × IpsecPolicy)) : Prop :=
  ∀ t, inKind.types t = true → linearSearch im.policies (g.test sas t) (spd.policies t) = .ok (found t)

/-- The verdict that three lookups lead to, if any. -/
def passVerdict (hasSpace : Bool) (found : PolicyType → Option (ℕ × IpsecPolicy)) : Option Verdict :=
  match found .ip4InboundProtect, hasSpace with
  | some (_, p), true => some (.protect p.saIndex)
  | _, _ =>
    if (found .ip4InboundBypass).isSome then some .bypass
    else if (found .ip4InboundDiscard).isSome then some .discard
    else none

/-- The search was made for a packet, and the ones before it did not decide. -/
def Reached (hasSpace : Bool) (found : PolicyType → Option (ℕ × IpsecPolicy)) : PolicyType → Prop
  | .ip4InboundProtect => True
  | .ip4InboundBypass => hasSpace = true → found .ip4InboundProtect = none
  | .ip4InboundDiscard => (hasSpace = true → found .ip4InboundProtect = none) ∧ found .ip4InboundBypass = none
  | _ => False

/-- The entry is what the linear search found for a packet between the same endpoints. -/
def InGood (sas : SaTable) (im : IpsecMain) (seen : List InSeen) (key : Ip4InboundSpdTuple) (v : ℕ) : Prop :=
  ∃ g ∈ seen, g.sa = key.srcAddr ∧ g.da = key.destAddr ∧ ∃ spd found, im.spds.get? g.spdIndex = some spd ∧
    Searched sas im spd g found ∧ Reached g.hasSpace found key.policyType ∧
    (found key.policyType).map (·.1) = some v

section
variable {bucket : Ip4InboundSpdTuple → ℕ} {sas : SaTable} {s : InState} {pkt : InPacket} {k : ℕ} {spd : IpsecSpd}
variable {found : PolicyType → Option (ℕ × IpsecPolicy)} {tuple : IpsecFp5tuple} {t : PolicyType}
    {hasSpace : Bool} {good : IpsecMain → List InSeen → Ip4InboundSpdTuple → ℕ → Prop}

theorem InGood.mono {im : IpsecMain} {seen : List InSeen} {key : Ip4InboundSpdTuple} {v : ℕ}
    (h : InGood sas im seen key v) (g : InSeen) : InGood sas im (g :: seen) key v := by
  obtain ⟨g', hg', hfound⟩ := h
  exact ⟨g', mem_cons_of_mem g hg', hfound⟩

theorem Reached.type (h : Reached hasSpace found t) : inKind.types t = true := by
  cases t <;> first | rfl | cases h

theorem Reached.congr {found' : PolicyType → Option (ℕ × IpsecPolicy)}
    (h : Reached hasSpace found t) (hsame : ∀ t, inKind.types t = true → found' t = found t) :
    Reached hasSpace found' t := by
  cases t <;> simp_all [Reached, inKind]

theorem InGood.stable {im im' : IpsecMain} {seen : List InSeen} {key : Ip4InboundSpdTuple} {v : ℕ}
    (h : InGood sas im seen key v) (hstable : Stable inKind seen im im') : InGood sas im' seen key v := by
  obtain ⟨g, hg, hsa, hda, spd, found, hspd, hsearched, hreached, hv⟩ := h
  obtain ⟨spd', hspd', hvec⟩ := hstable g hg spd hspd
  refine ⟨g, hg, hsa, hda, spd', found, hspd', ?_, hreached, hv⟩
  intro t ht
  obtain ⟨hids, hget⟩ := hvec t ht
  rw [hids, linearSearch_congr hget]
  exact hsearched t ht

section
variable (h : FlowInv inKind sas good s) (hk : s.spd.im.spds.get? k = some spd)
include h hk

/-- The linear searches return. -/
theorem exists_searched (g : InSeen) : ∃ found, Searched sas s.spd.im spd g found := by
  obtain ⟨held, hinv⟩ := h.spd
  have hsearch : ∀ t, inKind.types t = true →
      ∃ r, linearSearch s.spd.im.policies (g.test sas t) (spd.policies t) = .ok r := by
    intro t ht
    obtain ⟨r, hr, -⟩ : ∃ r, linearSearch s.spd.im.policies (g.test sas t) (spd.policies t) = .ok r ∧ _ :=
      linearSearch_spec fun i hi => hinv.live_isSome hk (((h.vector ht hk).2 i).mp hi)
    exact ⟨r, hr⟩
  choose! found hfound using hsearch
  exact ⟨found, hfound⟩

/-! ### The lookups -/

/-- The fast path is off. -/
theorem FlowInv.slowInput :
    ipsecIsFpEnabled s.spd.im spd .ip4InboundProtect = false := by
  obtain ⟨held, hinv⟩ := h.spd
  obtain ⟨htable, -⟩ : spd.tableOf .ip4InboundProtect = none ∧ _ := h.vector rfl hk
  rw [hinv.fpEnabled hk, htable]
  rfl

end

/-- The state after a linear search. -/
def InState.remember (bucket : Ip4InboundSpdTuple → ℕ) (flag : Bool) (pkt : InPacket) (type : PolicyType)
    (s : InState) : Option (ℕ × IpsecPolicy) → InState
  | none => s
  | some c => if flag then s.addEntry bucket ⟨pkt.sa, pkt.da, type⟩ c.1 else s

/-- What a linear lookup does. -/
theorem espLookup_linear (hslow : ipsecIsFpEnabled s.spd.im spd .ip4InboundProtect = false)
    (hsearched : Searched sas s.spd.im spd (pkt.seen k) found) (flag : Bool)
    (ht : inKind.types t = true) :
    espLookup bucket sas flag false tuple spd pkt t s = .ok (s.remember bucket flag pkt t (found t), found t) := by
  have hlinear := hsearched t ht
  have hmatch : ∀ test, linearSearch s.spd.im.policies test (spd.policies t) = .ok (found t) →
      inputMatch bucket flag test s spd pkt.sa pkt.da t = .ok (s.remember bucket flag pkt t (found t), found t) := by
    intro test hres
    simp only [inputMatch, hres, bind_ok]
    cases found t <;> rfl
  rw [espLookup, if_neg (by simp [hslow]), if_neg Bool.false_ne_true]
  by_cases hprotect : t = .ip4InboundProtect
  · subst hprotect
    rw [if_pos rfl]
    exact hmatch _ hlinear
  · rw [if_neg hprotect]
    rw [InSeen.test, if_neg hprotect] at hlinear
    exact hmatch _ hlinear

theorem remember_im (flag : Bool) (t : PolicyType) (r : Option (ℕ × IpsecPolicy)) :
    (s.remember bucket flag pkt t r).spd = s.spd ∧ (s.remember bucket flag pkt t r).seen = s.seen := by
  cases r with
  | none => exact ⟨rfl, rfl⟩
  | some c => cases flag <;> exact ⟨rfl, rfl⟩

/-- Three lookups in turn, where `P` holds of the state after each that is made. -/
theorem espPass_spec
    {lookup : PolicyType → InState → Except Fault (InState × Option (ℕ × IpsecPolicy))}
    {s₁ s₂ s₃ : InState} {P : InState → Prop}
    (h₁ : lookup .ip4InboundProtect s = .ok (s₁, found .ip4InboundProtect)) (hP₁ : P s₁)
    (h₂ : lookup .ip4InboundBypass s₁ = .ok (s₂, found .ip4InboundBypass))
    (hP₂ : Reached hasSpace found .ip4InboundBypass → P s₂)
    (h₃ : lookup .ip4InboundDiscard s₂ = .ok (s₃, found .ip4InboundDiscard))
    (hP₃ : Reached hasSpace found .ip4InboundDiscard → P s₃) :
    ∃ s', espPass lookup hasSpace s = .ok (s', passVerdict hasSpace found) ∧ P s' := by
  -- after the first lookup
  have hrest : Reached hasSpace found .ip4InboundBypass → ∃ s',
      (do let (s, p0) ← lookup .ip4InboundBypass s₁
          if p0.isSome then return (s, some .bypass)
          else
            let (s, p0) ← lookup .ip4InboundDiscard s
            if p0.isSome then return (s, some .discard) else return (s, none)) =
        (.ok (s', if (found .ip4InboundBypass).isSome then some .bypass
          else if (found .ip4InboundDiscard).isSome then some .discard
          else none) : Except Fault (InState × Option Verdict)) ∧ P s' := by
    intro hreached
    simp only [h₂, bind_ok]
    cases hbypass : found .ip4InboundBypass with
    | some c => exact ⟨s₂, rfl, hP₂ hreached⟩
    | none =>
      refine ⟨s₃, ?_, hP₃ ⟨hreached, hbypass⟩⟩
      simp only [isSome_none, Bool.false_eq_true, if_false, h₃, bind_ok]
      cases found .ip4InboundDiscard <;> rfl
  simp only [espPass, passVerdict, h₁, bind_ok]
  cases hprotect : found .ip4InboundProtect with
  | none => exact hrest fun _ => hprotect
  | some c =>
    cases hasSpace with
    | false => exact hrest (by rintro ⟨⟩)
    | true => exact ⟨s₁, rfl, hP₁⟩

/-- What the cache says of the packet, if anything, is the verdict of the linear searches. -/
theorem passVerdict_cached {cached : PolicyType → Option (ℕ × IpsecPolicy)}
    (h : ∀ t, inKind.types t = true → cached t = none ∨ cached t = found t ∧ Reached hasSpace found t) :
    passVerdict hasSpace cached = none ∨ passVerdict hasSpace cached = passVerdict hasSpace found := by
  have hprotect := h .ip4InboundProtect rfl
  have hbypass := h .ip4InboundBypass rfl
  have hdiscard := h .ip4InboundDiscard rfl
  -- a lookup that succeeds decides for both, since the linear searches before it do not
  by_cases hp : (cached .ip4InboundProtect).isSome ∧ hasSpace = true
  · obtain ⟨hsome, rfl⟩ := hp
    obtain ⟨c, hc⟩ := isSome_iff_exists.mp hsome
    rcases hprotect with hnone | ⟨heq, -⟩
    · rw [hnone] at hsome
      cases hsome
    · right
      simp only [passVerdict, ← heq, hc]
  · have hskip : ∀ f : PolicyType →
      Option (ℕ × IpsecPolicy), (hasSpace = true → f .ip4InboundProtect = none) →
        passVerdict hasSpace f = if (f .ip4InboundBypass).isSome then some .bypass
          else if (f .ip4InboundDiscard).isSome then some .discard else none := by
      intro f hf
      unfold passVerdict
      cases hasSpace with
      | false => cases f .ip4InboundProtect <;> rfl
      | true => rw [hf rfl]
    have hcached : hasSpace = true → cached .ip4InboundProtect = none := by
      intro hspace
      by_contra hsome
      exact hp ⟨isSome_iff_ne_none.mpr hsome, hspace⟩
    rw [hskip cached hcached]
    cases hb : cached .ip4InboundBypass with
    | some c =>
      rw [hb] at hbypass
      obtain ⟨heq, hreached⟩ := hbypass.resolve_left (by simp)
      right
      rw [hskip found hreached, ← heq]
      rfl
    | none =>
      cases hd : cached .ip4InboundDiscard with
      | none => exact .inl rfl
      | some c =>
        rw [hd] at hdiscard
        obtain ⟨heq, hreached, hnone⟩ := hdiscard.resolve_left (by simp)
        right
        rw [hskip found hreached, hnone, ← heq]

/-- The verdict of the linear searches. -/
def espVerdict (pkt : InPacket) (found : PolicyType → Option (ℕ × IpsecPolicy)) : Verdict :=
  if pkt.spi = 0 then .drop else (passVerdict pkt.hasSpace found).getD .drop

section
variable (h : FlowInv inKind sas (InGood sas) s) (hk : s.spd.im.spds.get? k = some spd)
    (hsearched : Searched sas s.spd.im spd (pkt.seen k) found)
include h hk hsearched

/-- The cache has nothing for the packet, or what the linear search finds when it gets that far. -/
theorem findEntry_spec (hflow : ∀ g ∈ s.seen, g.sa = pkt.sa → g.da = pkt.da → g = pkt.seen k)
    (ht : inKind.types t = true) :
    ∃ r, s.findEntry bucket ⟨pkt.sa, pkt.da, t⟩ = .ok r ∧
      (r = none ∨ r = found t ∧ Reached pkt.hasSpace found t) := by
  cases hfind : s.cache.find bucket ⟨pkt.sa, pkt.da, t⟩ with
  | none => exact ⟨none, by rw [findEntry, hfind]; rfl, .inl rfl⟩
  | some v =>
    rcases h.cache.find hfind with ⟨g, hg, hsa, hda, spd', found', hspd', hsearched', hreached, hv⟩ | ⟨hkey, -⟩
    · obtain rfl := hflow g hg hsa hda
      rw [show s.spd.im.spds.get? (pkt.seen k).spdIndex = _ from hk] at hspd'
      cases hspd'
      have hsame : ∀ t, inKind.types t = true → found t = found' t := by
        intro t ht
        exact Except.ok.inj ((hsearched t ht).symm.trans (hsearched' t ht))
      rw [← hsame t ht] at hv
      obtain ⟨⟨i, p⟩, hc, hi⟩ := map_eq_some_iff.mp hv
      obtain rfl : i = v := hi
      obtain ⟨-, hp⟩ : _ ∧ s.spd.im.policies.get? i = some p :=
        linearSearch_mem ((hsearched t ht).trans (by rw [hc]))
      refine ⟨some (i, p), ?_, .inr ⟨hc.symm, hreached.congr hsame⟩⟩
      simp only [findEntry, hfind, hp, deref_some, bind_ok]
      rfl
    · obtain rfl : t = .ip4Outbound := congrArg Ip4InboundSpdTuple.policyType hkey
      cases ht

/-- The pass through the cache. -/
theorem espPass_cached (hflow : ∀ g ∈ s.seen, g.sa = pkt.sa → g.da = pkt.da → g = pkt.seen k) (flag : Bool) :
    ∃ r, espPass (espLookup bucket sas flag true tuple spd pkt) pkt.hasSpace s = .ok (s, r) ∧
      (r = none ∨ r = passVerdict pkt.hasSpace found) := by
  have hcache : ∀ t, inKind.types t = true → ∃ r, s.findEntry bucket ⟨pkt.sa, pkt.da, t⟩ = .ok r ∧ _ :=
    fun t ht => findEntry_spec h hk hsearched hflow ht
  choose! cached hcached using hcache
  have hlookup : ∀ t, inKind.types t = true →
      espLookup bucket sas flag true tuple spd pkt t s = .ok (s, cached t) := by
    intro t ht
    rw [espLookup, if_neg (by simp [h.slowInput hk]), if_pos rfl, (hcached t ht).1]
    rfl
  obtain ⟨s', hpass, rfl⟩ : ∃ s', espPass (espLookup bucket sas flag true tuple spd pkt) pkt.hasSpace s =
      .ok (s', passVerdict pkt.hasSpace cached) ∧ s' = s :=
    espPass_spec (hlookup _ rfl) rfl (hlookup _ rfl) (fun _ => rfl) (hlookup _ rfl) fun _ => rfl
  exact ⟨_, hpass, passVerdict_cached fun t ht => (hcached t ht).2⟩

/-- The entry that a linear search adds is good. -/
theorem FlowInv.remember (hmem : pkt.seen k ∈ s.seen) (hreached : Reached pkt.hasSpace found t) (flag : Bool) :
    FlowInv inKind sas (InGood sas) (s.remember bucket flag pkt t (found t)) := by
  cases hfound : found t with
  | none => exact h
  | some c =>
    cases flag with
    | false => exact h
    | true =>
      refine ⟨h.spd, h.slow, h.bound, h.cache.add ?_⟩
      exact ⟨pkt.seen k, hmem, rfl, rfl, spd, found, hk, hsearched, hreached, by rw [hfound]; rfl⟩

/-- The pass by linear search, where the cache is on or off. -/
theorem espPass_linear (flag : Bool) :
    ∃ s', espPass (espLookup bucket sas flag false tuple spd pkt) pkt.hasSpace s =
        .ok (s', passVerdict pkt.hasSpace found) ∧
      (pkt.seen k ∈ s.seen → FlowInv inKind sas (InGood sas) s') := by
  set s₁ := s.remember bucket flag pkt .ip4InboundProtect (found .ip4InboundProtect) with hs₁
  set s₂ := s₁.remember bucket flag pkt .ip4InboundBypass (found .ip4InboundBypass) with hs₂
  obtain ⟨himm₁, hseen₁⟩ : s₁.spd = s.spd ∧ s₁.seen = s.seen := remember_im flag _ _
  obtain ⟨himm₂, hseen₂⟩ : s₂.spd = s₁.spd ∧ s₂.seen = s₁.seen := remember_im flag _ _
  have hslow := h.slowInput hk
  have hk₁ : s₁.spd.im.spds.get? k = some spd := by rw [himm₁]; exact hk
  have hk₂ : s₂.spd.im.spds.get? k = some spd := by rw [himm₂]; exact hk₁
  have hsearched₁ : Searched sas s₁.spd.im spd (pkt.seen k) found := by rw [himm₁]; exact hsearched
  have hsearched₂ : Searched sas s₂.spd.im spd (pkt.seen k) found := by rw [himm₂]; exact hsearched₁
  have hinv₁ : pkt.seen k ∈ s.seen → FlowInv inKind sas (InGood sas) s₁ :=
    fun hmem => h.remember hk hsearched hmem (show Reached _ _ .ip4InboundProtect from trivial) flag
  have hinv₂ : Reached pkt.hasSpace found .ip4InboundBypass → pkt.seen k ∈ s.seen →
      FlowInv inKind sas (InGood sas) s₂ :=
    fun hreached hmem => (hinv₁ hmem).remember hk₁ hsearched₁ (by rw [hseen₁]; exact hmem) hreached flag
  refine espPass_spec (espLookup_linear hslow hsearched flag rfl) hinv₁
    (espLookup_linear (by rw [himm₁]; exact hslow) hsearched₁ flag rfl) hinv₂
    (espLookup_linear (by rw [himm₂, himm₁]; exact hslow) hsearched₂ flag rfl) ?_
  intro hreached hmem
  exact (hinv₂ hreached.1 hmem).remember hk₂ hsearched₂ (by rw [hseen₂, hseen₁]; exact hmem) hreached flag

/-- With the cache or without, the verdict on a safe packet is the one of the linear searches. -/
theorem ipsecEspPacketProcess_spec
    (hflow : pkt.spi ≠ 0 → ∀ g ∈ s.seen, g.sa = pkt.sa → g.da = pkt.da → g = pkt.seen k) (flag : Bool) :
    ∃ s', ipsecEspPacketProcess bucket sas flag tuple spd pkt s = .ok (s', espVerdict pkt found) ∧
      ((pkt.spi ≠ 0 → pkt.seen k ∈ s.seen) → FlowInv inKind sas (InGood sas) s') := by
  unfold ipsecEspPacketProcess espVerdict
  by_cases hspi : pkt.spi = 0
  · simp only [hspi, if_true]
    exact ⟨s, rfl, fun _ => h⟩
  · simp only [hspi, if_false]
    obtain ⟨s', hlinear, hinv'⟩ : ∃ s', espPass (espLookup bucket sas flag false tuple spd pkt) pkt.hasSpace s =
        .ok (s', passVerdict pkt.hasSpace found) ∧ _ := espPass_linear h hk hsearched flag
    have hrest : (do
        let (s, verdict) ← espPass (espLookup bucket sas flag false tuple spd pkt) pkt.hasSpace s
        return (s, verdict.getD .drop) : Except Fault (InState × Verdict)) =
          .ok (s', (passVerdict pkt.hasSpace found).getD .drop) := by
      rw [hlinear]
      rfl
    cases flag with
    | false => exact ⟨s', hrest, fun hmem => hinv' (hmem hspi)⟩
    | true =>
      obtain ⟨r, hcached, hr⟩ : ∃ r, espPass (espLookup bucket sas true true tuple spd pkt) pkt.hasSpace s =
          .ok (s, r) ∧ _ := espPass_cached h hk hsearched (hflow hspi) true
      simp only [if_true, hcached, bind_ok]
      cases r with
      | none => exact ⟨s', hrest, fun hmem => hinv' (hmem hspi)⟩
      | some v =>
        rw [← hr.resolve_left (by simp)]
        exact ⟨s, rfl, fun _ => h⟩

end

/-! ### Runs -/

section
variable (h : FlowInv inKind sas (InGood sas) s)
include h

theorem ipsec4Input_inv (hsafe : pkt.Safe s) (tuple : IpsecFp5tuple) :
    ∃ s' r, ipsec4Input bucket sas tuple pkt s = .ok (s', r) ∧ FlowInv inKind sas (InGood sas) s' := by
  cases hbound : s.spdIndexBySwIfIndex pkt.swIfIndex with
  | none => exact ⟨s, none, by rw [ipsec4Input, hbound]; rfl, h⟩
  | some k =>
    obtain ⟨spd, hk⟩ := isSome_iff_exists.mp (h.bound _ k hbound)
    set s₁ : InState := if pkt.spi = 0 then s else { s with seen := pkt.seen k :: s.seen } with hs₁
    have hs₁spd : s₁.spd = s.spd := by rw [hs₁]; split <;> rfl
    have hinv₁ : FlowInv inKind sas (InGood sas) s₁ := by
      rw [hs₁]
      split
      · exact h
      · exact ⟨h.spd, h.slow, h.bound, h.cache.mono fun key v hgood => hgood.mono _⟩
    have hmem : pkt.spi ≠ 0 → pkt.seen k ∈ s₁.seen := by
      intro hspi
      rw [hs₁, if_neg hspi]
      exact mem_cons_self
    have hflow : pkt.spi ≠ 0 → ∀ g ∈ s₁.seen, g.sa = pkt.sa → g.da = pkt.da → g = pkt.seen k := by
      intro hspi g hg hsa hda
      rw [hs₁, if_neg hspi] at hg
      rcases mem_cons.mp hg with rfl | hold
      · rfl
      · exact hsafe hspi k hbound g hold hsa hda
    have hk₁ : s₁.spd.im.spds.get? k = some spd := by rw [hs₁spd]; exact hk
    obtain ⟨found, hsearched⟩ := exists_searched hinv₁ hk₁ (pkt.seen k)
    obtain ⟨s', hprocess, hinv'⟩ : ∃ s', ipsecEspPacketProcess bucket sas true tuple spd pkt s₁ =
      .ok (s', _) ∧ _ :=
      ipsecEspPacketProcess_spec hinv₁ hk₁ hsearched hflow true
    refine ⟨s', some (espVerdict pkt found), ?_, hinv' hmem⟩
    simp only [ipsec4Input, hbound, hk, deref_some, bind_ok, ← hs₁, hprocess]
    rfl

theorem InState.step_inv {op : InOp} (hsafe : op.Safe s) :
    ∃ s', s.step bucket sas op = .ok s' ∧ FlowInv inKind sas (InGood sas) s' := by
  cases op with
  | control op => exact h.control (fun im im' seen key v hstable hgood => hgood.stable hstable) hsafe
  | packet tuple pkt =>
    obtain ⟨s', r, hin, hinv⟩ :=
      (ipsec4Input_inv h hsafe tuple : ∃ s' r, ipsec4Input bucket sas tuple pkt s = _ ∧ _)
    exact ⟨s', by rw [InState.step, hin]; rfl, hinv⟩

end

/-- In every run whose packets are safe, the verdict on a safe packet is the same with the cache and without. -/
theorem inputFlowCache_agrees (bucket : Ip4InboundSpdTuple → ℕ) (sas : SaTable)
    (fpIsEnabled : Bool → Bool → Bool)
    (hcache : fpIsEnabled false true = false) (ops : List InOp)
    (hsafe : AllStepsM (fun s op => op.Safe s) (InState.step bucket sas) (init inKind fpIsEnabled) ops) :
    ∃ s, runM (InState.step bucket sas) (init inKind fpIsEnabled) ops = .ok s ∧
      ∀ pkt : InPacket, pkt.Safe s → ∀ k spd, s.spdIndexBySwIfIndex pkt.swIfIndex = some k →
        s.spd.im.spds.get? k = some spd → ∀ tuple, ∃ s₁ s₂ v,
          ipsecEspPacketProcess bucket sas true tuple spd pkt s = .ok (s₁, v) ∧
          ipsecEspPacketProcess bucket sas false tuple spd pkt s = .ok (s₂, v) := by
  have hslow : ∀ t, inKind.types t = true → fpIsEnabled t.isIpv6 t.isInbound = false := by
    intro t ht
    cases t <;> first | exact hcache | cases ht
  obtain ⟨s, hrun, hinv⟩ := runM_total_of_allSteps (fun s op h hop => InState.step_inv h hop) hsafe
    (FlowInv.init fpIsEnabled hslow : FlowInv inKind sas (InGood sas) _)
  refine ⟨s, hrun, fun pkt hpkt k spd hbound hk tuple => ?_⟩
  obtain ⟨found, hsearched⟩ := exists_searched hinv hk (pkt.seen k)
  have hprocess : ∀ flag, ∃ s', ipsecEspPacketProcess bucket sas flag tuple spd pkt s = .ok (s', _) ∧ _ :=
    ipsecEspPacketProcess_spec hinv hk hsearched fun hspi => hpkt hspi k hbound
  obtain ⟨s₁, h₁, -⟩ := hprocess true
  obtain ⟨s₂, h₂, -⟩ := hprocess false
  exact ⟨s₁, s₂, _, h₁, h₂⟩

end

/-- A PROTECT policy for all packets, with the given SA. -/
def protectIn (saId : BitVec 32) : IpsecPolicy := { protectFrom ⟨0, 0xffffffff⟩ with saId := saId }

/-- SAs in transport mode whose index is their id, and whose SPI is 256 more. -/
def numberedSas : SaTable :=
  ⟨fun id => some id.toNat, fun i => BitVec.ofNat 32 (i + 256), fun _ => false, fun _ => 0, fun _ => 0⟩

/-- An SPD with an interface and two PROTECT policies, for SA 0 and SA 1, and a packet for SA 0. -/
def twoSas : List InOp :=
  [.control (.addDelSpd 1 true), .control (.setInterfaceSpd 1 1 true),
    .control (.addDelPolicy (protectIn 0) true), .control (.addDelPolicy (protectIn 1) true),
    .packet .zero ⟨1, 7, 8, 256, true⟩]

def inRun (ops : List InOp) : Except Fault InState :=
  runM (InState.step (fun _ => 0) numberedSas) (init inKind fun _ _ => false) ops

/-- The verdicts on a packet with the cache and without. -/
structure InObserved where
  safe : Bool
  cached : Option Verdict
  uncached : Option Verdict
  deriving DecidableEq

def inObserve (pkt : InPacket) (s : InState) : InObserved where
  safe := decide (pkt.Safe s)
  cached := ((s.spdIndexBySwIfIndex pkt.swIfIndex).bind s.spd.im.spds.get?).bind fun spd =>
    (ipsecEspPacketProcess (fun _ => 0) numberedSas true .zero spd pkt s).toOption.map (·.2)
  uncached := ((s.spdIndexBySwIfIndex pkt.swIfIndex).bind s.spd.im.spds.get?).bind fun spd =>
    (ipsecEspPacketProcess (fun _ => 0) numberedSas false .zero spd pkt s).toOption.map (·.2)

/-- What an observation says of the state. -/
theorem inObserve_eq {pkt : InPacket} {s : InState} {v v₀ : Verdict} {safe : Bool}
    (h : inObserve pkt s = ⟨safe, some v, some v₀⟩) : decide (pkt.Safe s) = safe ∧
      ∃ k spd s₁ s₂, s.spdIndexBySwIfIndex pkt.swIfIndex = some k ∧ s.spd.im.spds.get? k = some spd ∧
        ipsecEspPacketProcess (fun _ => 0) numberedSas true .zero spd pkt s = .ok (s₁, v) ∧
        ipsecEspPacketProcess (fun _ => 0) numberedSas false .zero spd pkt s = .ok (s₂, v₀) := by
  simp only [inObserve, InObserved.mk.injEq] at h
  obtain ⟨hsafe, hcached, huncached⟩ := h
  obtain ⟨spd, hspd, hcached⟩ := bind_eq_some_iff.mp hcached
  rw [hspd, bind_some] at huncached
  obtain ⟨k, hk, hspd⟩ := bind_eq_some_iff.mp hspd
  obtain ⟨⟨s₁, _⟩, hs₁, rfl⟩ := map_eq_some_iff.mp hcached
  obtain ⟨⟨s₂, _⟩, hs₂, rfl⟩ := map_eq_some_iff.mp huncached
  exact ⟨hsafe, k, spd, s₁, s₂, hk, hspd, eq_ok_of_toOption hs₁, eq_ok_of_toOption hs₂⟩

/-- The second packet with the same SPI. -/
theorem inputFlowCache_agrees_same_spi : ∃ s k spd s₁ s₂ v, inRun twoSas = .ok s ∧
    s.spdIndexBySwIfIndex 1 = some k ∧ s.spd.im.spds.get? k = some spd ∧
    ipsecEspPacketProcess (fun _ => 0) numberedSas true .zero spd ⟨1, 7, 8, 256, true⟩ s = .ok (s₁, v) ∧
    ipsecEspPacketProcess (fun _ => 0) numberedSas false .zero spd ⟨1, 7, 8, 256, true⟩ s = .ok (s₂, v) ∧
    v = .protect (some 0) := by
  obtain ⟨s, hrun, hagree⟩ := inputFlowCache_agrees (fun _ => 0) numberedSas (fun _ _ => false) rfl twoSas
    (by decide +kernel)
  obtain ⟨s', hrun', hobs⟩ := exists_of_runM_map
    (show (inRun twoSas).map (inObserve ⟨1, 7, 8, 256, true⟩) =
      .ok ⟨true, some (.protect (some 0)), some (.protect (some 0))⟩ by decide +kernel)
  rw [hrun] at hrun'
  cases hrun'
  obtain ⟨hsafe, k, spd, _, _, hk, hspd, hcached, -⟩ := inObserve_eq hobs
  obtain ⟨s₁, s₂, v, h₁, h₂⟩ := hagree _ (of_decide_eq_true hsafe) k spd hk hspd .zero
  have hv : v = .protect (some 0) := congrArg Prod.snd (Except.ok.inj (h₁.symm.trans hcached))
  exact ⟨s, k, spd, s₁, s₂, v, hrun, hk, hspd, h₁, h₂, hv⟩

/-- A packet with another SPI between the same endpoints is decrypted with the SA of the first. -/
theorem inputFlowCache_confuses_spis : ∃ s k spd s₁ s₂, inRun twoSas = .ok s ∧
    s.spdIndexBySwIfIndex 1 = some k ∧ s.spd.im.spds.get? k = some spd ∧
    ipsecEspPacketProcess (fun _ => 0) numberedSas true .zero spd ⟨1, 7, 8, 257, true⟩ s =
      .ok (s₁, .protect (some 0)) ∧
    ipsecEspPacketProcess (fun _ => 0) numberedSas false .zero spd ⟨1, 7, 8, 257, true⟩ s =
      .ok (s₂, .protect (some 1)) := by
  obtain ⟨s, hrun, hobs⟩ := exists_of_runM_map
    (show (inRun twoSas).map (inObserve ⟨1, 7, 8, 257, true⟩) =
      .ok ⟨false, some (.protect (some 0)), some (.protect (some 1))⟩ by decide +kernel)
  obtain ⟨-, k, spd, s₁, s₂, hk, hspd, h₁, h₂⟩ := inObserve_eq hobs
  exact ⟨s, k, spd, s₁, s₂, hrun, hk, hspd, h₁, h₂⟩

end Vpp.Ipsec
