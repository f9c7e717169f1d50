import Vpp.Ipsec.Spd.Agree
import Vpp.Ipsec.Spd.FlowCache

/-! The outbound flow cache of IPv4 (`vnet/ipsec/ipsec_output.h`, `vnet/ipsec/ipsec_output.c`).

    The key of an entry is the 5-tuple of the packet, without the SPD of the interface that the packet leaves
    through: a packet of the same flow on an interface of another SPD finds the policy of the first. And the
    table starts out as zeros, in epoch 0, so that the packet whose 5-tuple is all zeros finds policy 0. -/

namespace Vpp.Ipsec
open Vpp.Schemes Vpp.Vppinfra Option IpsecFp5tuple FlowState

/-- `ipsec4_spd_5tuple_t`. -/
structure Ip4Spd5tuple where
  laddr : BitVec 32
  raddr : BitVec 32
  lport : BitVec 16
  rport : BitVec 16
  proto : BitVec 8
  deriving DecidableEq

/-- A packet that leaves through an interface. -/
structure OutPacket where
  swIfIndex : BitVec 32
  pr : BitVec 8
  la : BitVec 32
  ra : BitVec 32
  lp : BitVec 16
  rp : BitVec 16
  deriving DecidableEq

/-- The 5-tuple, with ports only where the protocol has them. -/
def OutPacket.key (pkt : OutPacket) : Ip4Spd5tuple where
  laddr := pkt.la
  raddr := pkt.ra
  lport := if hasPorts pkt.pr then pkt.lp else 0
  rport := if hasPorts pkt.pr then pkt.rp else 0
  proto := pkt.pr

/-- The cache of outbound policies. A packet was seen with its 5-tuple and the SPD it was looked up in. -/
def outKind : FlowKind Ip4Spd5tuple (Ip4Spd5tuple × ℕ) where
  types t := t == .ip4Outbound
  zero := ⟨⟨0, 0, 0, 0, 0⟩, 0, 0⟩
  spdIndex := Prod.snd
  types_ip4 := by
    intro t ht
    rw [beq_iff_eq.mp ht]
    rfl
  zero_epoch := rfl

abbrev OutState := FlowState Ip4Spd5tuple (Ip4Spd5tuple × ℕ)

section
variable (bucket : Ip4Spd5tuple → ℕ)

def ipsec4OutSpdFindFlowCacheEntry (s : OutState) (pkt : OutPacket) : Except Fault (Option (ℕ × IpsecPolicy)) :=
  s.findEntry bucket pkt.key

/-- `ipsec_output_policy_match` for a packet, without the flow cache. -/
def OutPacket.uncachedMatch (pkt : OutPacket) (im : IpsecMain) (spd : IpsecSpd) (tuple : IpsecFp5tuple) :
    Except Fault (Option (ℕ × IpsecPolicy)) :=
  ipsecOutputPolicyMatch im (some spd) tuple pkt.pr pkt.la pkt.ra pkt.lp pkt.rp

/-- The search for the policy of one packet in `ipsec_output_inline`. Packets get here only on interfaces that
    have an SPD. -/
def ipsecOutput (s : OutState) (tuple : IpsecFp5tuple) (pkt : OutPacket) :
    Except Fault (OutState × Option (ℕ × IpsecPolicy)) :=
  match s.spdIndexBySwIfIndex pkt.swIfIndex with
  | none => return (s, none)
  | some spdIndex => do
    let spd ← deref (s.spd.im.spds.get? spdIndex)
    let s := { s with seen := (pkt.key, spdIndex) :: s.seen }
    match ← ipsec4OutSpdFindFlowCacheEntry bucket s pkt with
    | some c => return (s, some c)
    | none =>
      match ← pkt.uncachedMatch s.spd.im spd tuple with
      | some c => return (s.addEntry bucket pkt.key c.1, some c)
      | none => return (s, none)

inductive OutOp where
  | control (op : ControlOp)
  | packet (tuple : IpsecFp5tuple) (pkt : OutPacket)

def OutState.step (sas : SaTable) (s : OutState) : OutOp → Except Fault OutState
  | .control op => s.control outKind sas op
  | .packet tuple pkt => do
    let (s, _) ← ipsecOutput bucket s tuple pkt
    return s

end

/-- The flow was seen in this epoch on interfaces of the same SPD only, and the packet is not the one whose
    5-tuple is all zeros in an epoch whose number is zero. -/
def OutPacket.Safe (s : OutState) (pkt : OutPacket) : Prop :=
  (∀ k ∈ s.spdIndexBySwIfIndex pkt.swIfIndex, ∀ g ∈ s.seen, g.1 = pkt.key → g.2 = k) ∧
    (pkt.key ≠ outKind.zero.key ∨ s.cache.epoch ≠ 0)

/-- Packets are safe, and no SPD is deleted that has seen packets in this epoch. -/
def OutOp.Safe (s : OutState) : OutOp → Prop
  | .control op => op.KeepsSeen outKind s
  | .packet _ pkt => pkt.Safe s

instance OutPacket.decidableSafe (s : OutState) (pkt : OutPacket) : Decidable (pkt.Safe s) :=
  inferInstanceAs (Decidable (_ ∧ _))

instance OutOp.decidableSafe (s : OutState) : (op : OutOp) → Decidable (op.Safe s)
  | .control op => inferInstanceAs (Decidable (op.KeepsSeen outKind s))
  | .packet _ pkt => inferInstanceAs (Decidable (pkt.Safe s))

/-! ### The entries of one epoch -/

/-- The test of the linear search, for a key. -/
def Ip4Spd5tuple.test (key : Ip4Spd5tuple) (p : IpsecPolicy) : Bool :=
  ip4OutputMatch p key.proto key.laddr key.raddr key.lport key.rport

/-- The entry is what the linear search finds in the SPD of a packet that was seen. -/
def OutGood (im : IpsecMain) (seen : List (Ip4Spd5tuple × ℕ)) (key : Ip4Spd5tuple) (v : ℕ) : Prop :=
  ∃ spdIndex spd p, (key, spdIndex) ∈ seen ∧ im.spds.get? spdIndex = some spd ∧
    linearSearch im.policies key.test (spd.policies .ip4Outbound) = .ok (some (v, p))

/-- Ports are only compared where the protocol has them. -/
theorem OutPacket.test_key (pkt : OutPacket) (p : IpsecPolicy) :
    pkt.key.test p = ip4OutputMatch p pkt.pr pkt.la pkt.ra pkt.lp pkt.rp := by
  cases hports : hasPorts pkt.pr <;>
    simp [Ip4Spd5tuple.test, OutPacket.key, ip4OutputMatch, portsMatch, hports]

section
variable {bucket : Ip4Spd5tuple → ℕ} {sas : SaTable} {s : OutState} {pkt : OutPacket} {k : ℕ} {spd : IpsecSpd}

theorem OutGood.stable {im im' : IpsecMain} {seen : List (Ip4Spd5tuple × ℕ)} {key : Ip4Spd5tuple} {v : ℕ}
    (h : OutGood im seen key v) (hstable : Stable outKind seen im im') : OutGood im' seen key v := by
  obtain ⟨spdIndex, spd, p, hmem, hspd, hfound⟩ := h
  obtain ⟨spd', hspd', hvec⟩ := hstable _ hmem spd hspd
  obtain ⟨hids, hget⟩ := hvec .ip4Outbound rfl
  exact ⟨spdIndex, spd', p, hmem, hspd', by rw [hids, linearSearch_congr hget]; exact hfound⟩

theorem OutGood.mono {im : IpsecMain} {seen : List (Ip4Spd5tuple × ℕ)} {key : Ip4Spd5tuple} {v : ℕ}
    (h : OutGood im seen key v) (g : Ip4Spd5tuple × ℕ) : OutGood im (g :: seen) key v := by
  obtain ⟨spdIndex, spd, p, hmem, hfound⟩ := h
  exact ⟨spdIndex, spd, p, List.mem_cons_of_mem g hmem, hfound⟩

section

variable (h : FlowInv outKind sas OutGood s)
include h

/-- The search without the cache is the linear search, and what it finds is live. -/
theorem uncachedMatch_eq (hk : s.spd.im.spds.get? k = some spd) (tuple : IpsecFp5tuple) :
    ∃ r, pkt.uncachedMatch s.spd.im spd tuple = .ok r ∧
      linearSearch s.spd.im.policies pkt.key.test (spd.policies .ip4Outbound) = .ok r ∧
      ∀ c ∈ r, s.spd.im.policies.get? c.1 = some c.2 ∧ c.1 ∈ s.spd.live spd.id .ip4Outbound := by
  obtain ⟨held, hinv⟩ := h.spd
  obtain ⟨htable, hmem⟩ : spd.tableOf .ip4Outbound = none ∧ _ := h.vector rfl hk
  have hslow : ipsecIsFpEnabled s.spd.im spd .ip4Outbound = false := by
    rw [hinv.fpEnabled hk, htable]; rfl
  obtain ⟨r, hr, -⟩ : ∃ r, linearSearch s.spd.im.policies pkt.key.test
    (spd.policies .ip4Outbound) = .ok r ∧ _ :=
    linearSearch_spec fun i hi => hinv.live_isSome hk ((hmem i).mp hi)
  refine ⟨r, ?_, hr, ?_⟩
  · have htest : pkt.key.test = (ip4OutputMatch · pkt.pr pkt.la pkt.ra pkt.lp pkt.rp) := funext pkt.test_key
    rw [OutPacket.uncachedMatch, ipsecOutputPolicyMatch]
    simp only [hslow]
    rw [← htest]
    exact hr
  · rintro c rfl
    obtain ⟨hin, hp⟩ := linearSearch_mem hr
    exact ⟨hp, (hmem c.1).mp hin⟩

/-- For a safe packet the cache has nothing, or what the search without the cache finds. -/
theorem cached_agrees (hsafe : pkt.Safe s) (hbound : s.spdIndexBySwIfIndex pkt.swIfIndex = some k)
    (hk : s.spd.im.spds.get? k = some spd) (tuple : IpsecFp5tuple) :
    ∃ r r₀, ipsec4OutSpdFindFlowCacheEntry bucket s pkt = .ok r ∧
      pkt.uncachedMatch s.spd.im spd tuple = .ok r₀ ∧
      ∀ c, r = some c → r₀ = some c ∧ c.1 ∈ s.spd.live spd.id .ip4Outbound := by
  obtain ⟨r₀, hr₀, hlinear, hlive⟩ :=
    (uncachedMatch_eq h hk tuple : ∃ r, pkt.uncachedMatch s.spd.im spd tuple = .ok r ∧ _)
  cases hfind : s.cache.find bucket pkt.key with
  | none =>
    refine ⟨none, r₀, ?_, hr₀, by simp⟩
    rw [ipsec4OutSpdFindFlowCacheEntry, findEntry, hfind]
    rfl
  | some v =>
    rcases h.cache.find hfind with ⟨spdIndex, spd', p, hmem, hspd', hfound⟩ | ⟨hkey, -, hepoch⟩
    · -- the entry comes from the same SPD, where the search still finds the same
      obtain rfl : spdIndex = k := hsafe.1 k hbound _ hmem rfl
      rw [hk] at hspd'
      cases hspd'
      rw [hlinear] at hfound
      cases hfound
      obtain ⟨hp, hmem'⟩ := hlive _ rfl
      refine ⟨some (v, p), some (v, p), ?_, hr₀, ?_⟩
      · rw [ipsec4OutSpdFindFlowCacheEntry, findEntry, hfind]
        simp only [hp, deref_some, bind_ok]
        rfl
      · intro c hc
        cases hc
        exact ⟨rfl, hmem'⟩
    · rcases hsafe.2 with hne | hne
      · exact absurd hkey hne
      · exact absurd hepoch hne

/-- A safe packet finds a policy or none, and the cache stays good. -/
theorem ipsecOutput_inv (hsafe : pkt.Safe s) (tuple : IpsecFp5tuple) :
    ∃ s' r, ipsecOutput bucket s tuple pkt = .ok (s', r) ∧ FlowInv outKind sas OutGood s' := by
  cases hbound : s.spdIndexBySwIfIndex pkt.swIfIndex with
  | none => exact ⟨s, none, by rw [ipsecOutput, hbound]; rfl, h⟩
  | some k =>
    obtain ⟨spd, hk⟩ := isSome_iff_exists.mp (h.bound _ k hbound)
    set s₁ : OutState := { s with seen := (pkt.key, k) :: s.seen } with hs₁
    have hinv₁ : FlowInv outKind sas OutGood s₁ :=
      ⟨h.spd, h.slow, h.bound, h.cache.mono fun key v hgood => hgood.mono _⟩
    obtain ⟨r, r₀, hfind, huncached, -⟩ :
        ∃ r r₀, ipsec4OutSpdFindFlowCacheEntry bucket s pkt = .ok r ∧ _ := cached_agrees h hsafe hbound hk tuple
    have hfind₁ : ipsec4OutSpdFindFlowCacheEntry bucket s₁ pkt = .ok r := hfind
    obtain ⟨r', huncached', hlinear, -⟩ :=
      (uncachedMatch_eq h hk tuple : ∃ r', pkt.uncachedMatch _ _ _ = .ok r' ∧ _)
    rw [huncached] at huncached'
    cases huncached'
    have houtput : ipsecOutput bucket s tuple pkt =
        r.elim (r₀.elim (.ok (s₁, none)) fun c => .ok (s₁.addEntry bucket pkt.key c.1, some c))
          fun c => .ok (s₁, some c) := by
      simp only [ipsecOutput, hbound, hk, deref_some, bind_ok, ← hs₁, hfind₁]
      cases r with
      | some c => rfl
      | none =>
        simp only [huncached, bind_ok]
        cases r₀ <;> rfl
    rw [houtput]
    cases r with
    | some c => exact ⟨s₁, some c, rfl, hinv₁⟩
    | none =>
      cases r₀ with
      | none => exact ⟨s₁, none, rfl, hinv₁⟩
      | some c =>
        refine ⟨_, some c, rfl, h.spd, h.slow, h.bound, ?_⟩
        exact hinv₁.cache.add ⟨k, spd, c.2, List.mem_cons_self, hk, hlinear⟩

theorem OutState.step_inv {op : OutOp} (hsafe : op.Safe s) :
    ∃ s', s.step bucket sas op = .ok s' ∧ FlowInv outKind sas OutGood s' := by
  cases op with
  | control op => exact h.control (fun im im' seen key v hstable hgood => hgood.stable hstable) hsafe
  | packet tuple pkt =>
    obtain ⟨s', r, hout, hinv⟩ :=
      (ipsecOutput_inv h hsafe tuple : ∃ s' r, ipsecOutput bucket s tuple pkt = _ ∧ _)
    exact ⟨s', by rw [OutState.step, hout]; rfl, hinv⟩

end

/-- In every run whose packets are safe, a safe packet finds in the cache nothing but the live policy that the
    search without the cache returns for the SPD of its interface. -/
theorem outputFlowCache_agrees (bucket : Ip4Spd5tuple → ℕ) (sas : SaTable) (fpIsEnabled : Bool → Bool → Bool)
    (hcache : fpIsEnabled false false = false) (ops : List OutOp)
    (hsafe : AllStepsM (fun s op => op.Safe s) (OutState.step bucket sas) (init outKind fpIsEnabled) ops) :
    ∃ s, runM (OutState.step bucket sas) (init outKind fpIsEnabled) ops = .ok s ∧
      ∀ pkt : OutPacket, pkt.Safe s → ∀ k spd, s.spdIndexBySwIfIndex pkt.swIfIndex = some k →
        s.spd.im.spds.get? k = some spd → ∀ tuple, ∃ r r₀,
          ipsec4OutSpdFindFlowCacheEntry bucket s pkt = .ok r ∧ pkt.uncachedMatch s.spd.im spd tuple = .ok r₀ ∧
          ∀ c, r = some c → r₀ = some c ∧ c.1 ∈ s.spd.live spd.id .ip4Outbound := by
  have hslow : ∀ t, outKind.types t = true → fpIsEnabled t.isIpv6 t.isInbound = false := by
    intro t ht
    rw [beq_iff_eq.mp ht]
    exact hcache
  obtain ⟨s, hrun, hinv⟩ := runM_total_of_allSteps (fun s op h hop => OutState.step_inv h hop) hsafe
    (FlowInv.init fpIsEnabled hslow : FlowInv outKind sas OutGood _)
  exact ⟨s, hrun, fun pkt hpkt k spd hbound hk tuple => cached_agrees hinv hpkt hbound hk tuple⟩

end

/-- Two SPDs, each with an interface and an outbound policy of its own. -/
def twoInterfaces : List OutOp :=
  [.control (.addDelSpd 1 true), .control (.addDelSpd 2 true),
    .control (.setInterfaceSpd 1 1 true), .control (.setInterfaceSpd 2 2 true),
    .control (.addDelPolicy (anyIp4Outbound 1 10) true),
    .control (.addDelPolicy (.forAll 2 true false .discard .ip4Outbound rfl) true)]

/-- An SPD with an interface and an inbound policy. -/
def inboundOnly : List OutOp :=
  [.control (.addDelSpd 1 true), .control (.setInterfaceSpd 1 1 true),
    .control (.addDelPolicy (.forAll 1 false false .bypass .ip4InboundBypass rfl) true)]

/-- The run of operations with a cache of one bucket, and no fast path. -/
def outRun (ops : List OutOp) : Except Fault OutState :=
  runM (OutState.step (fun _ => 0) noSas) (init outKind fun _ _ => false) ops

/-- A packet of UDP, on the given interface. -/
def udpOn (swIfIndex : BitVec 32) : OutPacket := ⟨swIfIndex, 17, 1, 2, 3, 4⟩

/-- What a packet finds in the cache and without it, as indices of policies. -/
structure OutObserved where
  cached : Option (Option ℕ)
  uncached : Option (Option ℕ)
  deriving DecidableEq

def outObserve (pkt : OutPacket) (s : OutState) : OutObserved where
  cached := (ipsec4OutSpdFindFlowCacheEntry (fun _ => 0) s pkt).toOption.map (·.map (·.1))
  uncached := ((s.spdIndexBySwIfIndex pkt.swIfIndex).bind s.spd.im.spds.get?).bind fun spd =>
    (pkt.uncachedMatch s.spd.im spd zero).toOption.map (·.map (·.1))

/-- What an observation says of the state. -/
theorem outObserve_eq {pkt : OutPacket} {s : OutState} {i j : Option ℕ}
    (h : outObserve pkt s = ⟨some i, some j⟩) :
    ∃ k spd r r₀, s.spdIndexBySwIfIndex pkt.swIfIndex = some k ∧ s.spd.im.spds.get? k = some spd ∧
      ipsec4OutSpdFindFlowCacheEntry (fun _ => 0) s pkt = .ok r ∧ r.map (·.1) = i ∧
      pkt.uncachedMatch s.spd.im spd zero = .ok r₀ ∧ r₀.map (·.1) = j := by
  simp only [outObserve, OutObserved.mk.injEq] at h
  obtain ⟨hcached, huncached⟩ := h
  obtain ⟨r, hr, rfl⟩ := map_eq_some_iff.mp hcached
  obtain ⟨spd, hspd, huncached⟩ := bind_eq_some_iff.mp huncached
  obtain ⟨k, hk, hspd⟩ := bind_eq_some_iff.mp hspd
  obtain ⟨r₀, hr₀, rfl⟩ := map_eq_some_iff.mp huncached
  exact ⟨k, spd, r, r₀, hk, hspd, eq_ok_of_toOption hr, rfl, eq_ok_of_toOption hr₀, rfl⟩

/-- The second packet of a flow finds the policy of the first. -/
theorem outputFlowCache_agrees_udp : ∃ s k spd r r₀, outRun (twoInterfaces ++ [.packet .zero (udpOn 1)]) = .ok s ∧
    s.spdIndexBySwIfIndex 1 = some k ∧ s.spd.im.spds.get? k = some spd ∧
    ipsec4OutSpdFindFlowCacheEntry (fun _ => 0) s (udpOn 1) = .ok r ∧
    (udpOn 1).uncachedMatch s.spd.im spd zero = .ok r₀ ∧ r.map (·.1) = some 0 ∧ r = r₀ := by
  obtain ⟨s, hrun, hagree⟩ := outputFlowCache_agrees (fun _ => 0) noSas (fun _ _ => false) rfl
    (twoInterfaces ++ [.packet .zero (udpOn 1)]) (by decide +kernel)
  obtain ⟨s', hrun', hobs⟩ := exists_of_runM_map
    (show (outRun (twoInterfaces ++ [.packet .zero (udpOn 1)])).map
      (fun s => (decide ((udpOn 1).Safe s), outObserve (udpOn 1) s)) =
      .ok (true, ⟨some (some 0), some (some 0)⟩) by decide +kernel)
  rw [hrun] at hrun'
  cases hrun'
  simp only [Prod.mk.injEq, decide_eq_true_eq] at hobs
  obtain ⟨hsafe, hobs⟩ := hobs
  obtain ⟨k, spd, r, r₀, hk, hspd, hr, hri, hr₀, -⟩ := outObserve_eq hobs
  obtain ⟨r', r₀', hr', hr₀', hsame⟩ := hagree (udpOn 1) hsafe k spd hk hspd zero
  rw [hr] at hr'
  rw [hr₀] at hr₀'
  cases hr'
  cases hr₀'
  obtain ⟨c, hc, -⟩ := map_eq_some_iff.mp hri
  exact ⟨s, k, spd, r, r₀, hrun, hk, hspd, hr, hr₀, hri, by rw [(hsame c hc).1, hc]⟩

/-- The same flow on the interface of another SPD finds the policy of the first, and the packet of zeros finds an
    inbound policy. -/
theorem outputFlowCache_confuses_spds :
    (∃ s k spd c c₀, outRun (twoInterfaces ++ [.packet .zero (udpOn 1)]) = .ok s ∧
      s.spdIndexBySwIfIndex 2 = some k ∧ s.spd.im.spds.get? k = some spd ∧
      ipsec4OutSpdFindFlowCacheEntry (fun _ => 0) s (udpOn 2) = .ok (some c) ∧
      (udpOn 2).uncachedMatch s.spd.im spd zero = .ok (some c₀) ∧ c.1 = 0 ∧ c₀.1 = 1) ∧
    ∃ s k spd c, outRun inboundOnly = .ok s ∧
      s.spdIndexBySwIfIndex 1 = some k ∧ s.spd.im.spds.get? k = some spd ∧
      ipsec4OutSpdFindFlowCacheEntry (fun _ => 0) s ⟨1, 0, 0, 0, 0, 0⟩ = .ok (some c) ∧
      (⟨1, 0, 0, 0, 0, 0⟩ : OutPacket).uncachedMatch s.spd.im spd zero = .ok none ∧ c.1 = 0 := by
  constructor
  · obtain ⟨s, hrun, hobs⟩ := exists_of_runM_map
      (show (outRun (twoInterfaces ++ [.packet .zero (udpOn 1)])).map (outObserve (udpOn 2)) =
        .ok ⟨some (some 0), some (some 1)⟩ by decide +kernel)
    obtain ⟨k, spd, r, r₀, hk, hspd, hr, hri, hr₀, hrj⟩ := outObserve_eq hobs
    obtain ⟨c, rfl, hc⟩ := map_eq_some_iff.mp hri
    obtain ⟨c₀, rfl, hc₀⟩ := map_eq_some_iff.mp hrj
    exact ⟨s, k, spd, c, c₀, hrun, hk, hspd, hr, hr₀, hc, hc₀⟩
  · obtain ⟨s, hrun, hobs⟩ := exists_of_runM_map
      (show (outRun inboundOnly).map (outObserve ⟨1, 0, 0, 0, 0, 0⟩) = .ok ⟨some (some 0), some none⟩ by
        decide +kernel)
    obtain ⟨k, spd, r, r₀, hk, hspd, hr, hri, hr₀, hrj⟩ := outObserve_eq hobs
    obtain ⟨c, rfl, hc⟩ := map_eq_some_iff.mp hri
    obtain rfl := map_eq_none_iff.mp hrj
    exact ⟨s, k, spd, c, hrun, hk, hspd, hr, hr₀, hc⟩

end Vpp.Ipsec
