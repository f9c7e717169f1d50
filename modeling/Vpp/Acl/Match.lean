import Vpp.Schemes.Memory

/-! The linear search of an access list, for IPv6 packets.

    A rule is taken when its prefixes contain the addresses of the packet and its other fields match. Behind the whole
    bytes of a prefix, the bits that remain are looked for one byte too far:

        prefixlen 12          byte 0    byte 1            byte 2
        to be compared        all       the first four
        compared              all                         the first four -/

namespace Vpp.Acl
open Vpp.Schemes List

structure Ip6Address where
  bytes : Bytes
  length_eq : bytes.length = 16

structure AclRule where
  isPermit : Byte
  isIpv6 : Bool
  src : Ip6Address
  srcPrefixlen : Byte
  dst : Ip6Address
  dstPrefixlen : Byte
  proto : Byte
  (srcPortOrTypeFirst srcPortOrTypeLast dstPortOrCodeFirst dstPortOrCodeLast : BitVec 16)
  (tcpFlagsValue tcpFlagsMask : Byte)

/-- What is known of a packet; `addr0` and `port0` are its source. -/
structure Fa5tuple where
  (addr0 addr1 : Ip6Address)
  proto : Byte
  (port0 port1 : BitVec 16)
  (isNonfirstFragment l4Valid tcpFlagsValid : Bool)
  tcpFlags : Byte

structure AclMain where
  acls : ℕ → Option (List AclRule)
  l4MatchNonfirstFragment : Bool

variable (am : AclMain) (pkt : Fa5tuple)

/-- The bits of a byte that belong to the prefix. -/
def mask0 (prefixlen : ℕ) : Byte := 0xff - ((1 <<< (8 - prefixlen % 8)) - 1)

def faAclMatchIp6Addr (addr1 addr2 : Ip6Address) (prefixlen : ℕ) : Except Fault Bool := do
  if prefixlen = 0 then return true
  if (← slice addr1.bytes 0 (prefixlen / 8)) ≠ (← slice addr2.bytes 0 (prefixlen / 8)) then return false
  if prefixlen % 8 ≠ 0 then
    let b1 := field8 (← slice addr1.bytes (1 + prefixlen / 8) 1) 0
    let b2 := field8 (← slice addr2.bytes (1 + prefixlen / 8) 1) 0
    return decide (b1 &&& mask0 prefixlen = b2)
  return true

def faAclMatchPort (port portFirst portLast : BitVec 16) : Bool := decide (portFirst ≤ port ∧ port ≤ portLast)

/-- The fields besides the addresses: `none` goes on to the next rule, `some true` takes a fragment without ports. -/
def matchFields (r : AclRule) : Option Bool :=
  if r.proto = 0 then some false
  else if pkt.proto ≠ r.proto then none
  else if pkt.isNonfirstFragment && am.l4MatchNonfirstFragment then some true
  else if !pkt.l4Valid then none
  else if !faAclMatchPort pkt.port0 r.srcPortOrTypeFirst r.srcPortOrTypeLast then none
  else if !faAclMatchPort pkt.port1 r.dstPortOrCodeFirst r.dstPortOrCodeLast then none
  else if pkt.tcpFlagsValid && (pkt.tcpFlags &&& r.tcpFlagsMask) != r.tcpFlagsValue then none
  else some false

def matchRule (r : AclRule) : Except Fault (Option Bool) := do
  if !r.isIpv6 then return none
  if !(← faAclMatchIp6Addr pkt.addr1 r.dst r.dstPrefixlen.toNat) then return none
  if !(← faAclMatchIp6Addr pkt.addr0 r.src r.srcPrefixlen.toNat) then return none
  return matchFields am pkt r

/-- The loop from rule `i` on: `r_rule_match_p`, `r_action`, and whether `trace_bitmap` gets its bit. -/
def matchRules : ℕ → List AclRule → Except Fault (Option (ℕ × Byte × Bool))
  | _, [] => return none
  | i, r :: rules => do
    match ← matchRule am pkt r with
    | some fragment => return some (i, r.isPermit, fragment)
    | none => matchRules (i + 1) rules

def singleAclMatch5tuple (aclIndex : ℕ) : Except Fault (Option (ℕ × Byte × Bool)) :=
  match am.acls aclIndex with
  | none => return none
  | some rules => matchRules am pkt 0 rules

/-! ### What a rule is for -/

/-- Bit `k` of an address, from the left. -/
def Ip6Address.bit (a : Ip6Address) (k : ℕ) : Bool := (field8 a.bytes (k / 8)).getMsbD (k % 8)

def InPrefix (a p : Ip6Address) (len : ℕ) : Prop := ∀ k < len, a.bit k = p.bit k

instance (a p : Ip6Address) (len : ℕ) : Decidable (InPrefix a p len) := Nat.decidableBallLT len _

/-- The fields besides the prefixes. -/
def FieldsMatch (r : AclRule) : Prop :=
  r.proto = 0 ∨ pkt.proto = r.proto ∧ (pkt.isNonfirstFragment ∧ am.l4MatchNonfirstFragment ∨
    pkt.l4Valid ∧ (r.srcPortOrTypeFirst ≤ pkt.port0 ∧ pkt.port0 ≤ r.srcPortOrTypeLast) ∧
      (r.dstPortOrCodeFirst ≤ pkt.port1 ∧ pkt.port1 ≤ r.dstPortOrCodeLast) ∧
      (pkt.tcpFlagsValid → pkt.tcpFlags &&& r.tcpFlagsMask = r.tcpFlagsValue))
deriving Decidable

def Applies (r : AclRule) : Prop :=
  r.isIpv6 ∧ InPrefix pkt.addr1 r.dst r.dstPrefixlen.toNat ∧ InPrefix pkt.addr0 r.src r.srcPrefixlen.toNat ∧
    FieldsMatch am pkt r
deriving Decidable

/-- What the comparison takes for a prefix: the whole bytes agree, and so do the bits that remain, one byte too far. -/
def FoundIn (a p : Ip6Address) (len : ℕ) : Prop :=
  InPrefix a p (8 * (len / 8)) ∧ (len % 8 ≠ 0 →
    field8 a.bytes (1 + len / 8) &&& mask0 len = field8 p.bytes (1 + len / 8))
deriving Decidable

/-- The byte that is looked at belongs to the addresses, or none is looked at. -/
def Inside (a p : Ip6Address) (len : ℕ) : Prop := len % 8 = 0 ∨ len < 120 ∨ ¬ InPrefix a p (8 * (len / 8))
deriving Decidable

/-- A rule is judged by what it is for, without a read beyond the addresses. -/
def Judged (r : AclRule) : Prop :=
  r.isIpv6 →
    let inDst := FoundIn pkt.addr1 r.dst r.dstPrefixlen.toNat
    let inSrc := FoundIn pkt.addr0 r.src r.srcPrefixlen.toNat
    Inside pkt.addr1 r.dst r.dstPrefixlen.toNat ∧ (inDst → Inside pkt.addr0 r.src r.srcPrefixlen.toNat) ∧
      (inDst ∧ inSrc ∧ FieldsMatch am pkt r ↔ Applies am pkt r)
deriving Decidable

/-! ### Comparing prefixes -/

theorem inPrefix_iff (a p : Ip6Address) {n : ℕ} (hn : n ≤ 16) :
    InPrefix a p (8 * n) ↔ (a.bytes.drop 0).take n = (p.bytes.drop 0).take n := by
  constructor
  · intro h
    refine ext_getElem (by simp [a.length_eq, p.length_eq]) fun i hi _ => ?_
    have hin : i < n := by simp at hi; omega
    have hbyte : field8 a.bytes i = field8 p.bytes i := BitVec.eq_of_getMsbD_eq fun k hk => by
      have hbit := h (8 * i + k) (by omega)
      rwa [Ip6Address.bit, Ip6Address.bit, show (8 * i + k) / 8 = i by omega, show (8 * i + k) % 8 = k by omega] at hbit
    simpa [field8, a.length_eq, p.length_eq, show i < 16 by omega] using hbyte
  · intro h k hk
    have hbyte := congrArg (field8 · (k / 8)) h
    simp only [field8_take_drop (show k / 8 < n by omega), zero_add] at hbyte
    rw [Ip6Address.bit, Ip6Address.bit, hbyte]

theorem faAclMatchIp6Addr_eq (a p : Ip6Address) {len : ℕ} (hlen : len ≤ 128) :
    faAclMatchIp6Addr a p len = if Inside a p len then .ok (decide (FoundIn a p len)) else .error .outOfBounds := by
  have hslice (x : Ip6Address) : slice x.bytes 0 (len / 8) = .ok ((x.bytes.drop 0).take (len / 8)) := by
    rw [slice, if_pos (by rw [x.length_eq]; omega)]
  rcases eq_or_ne len 0 with rfl | h0
  · simp [faAclMatchIp6Addr, Inside, FoundIn, InPrefix, pure, Except.pure]
  have hbytes := inPrefix_iff a p (show len / 8 ≤ 16 by omega)
  rw [faAclMatchIp6Addr, if_neg h0, hslice, hslice, bind_ok, bind_ok]
  by_cases heq : InPrefix a p (8 * (len / 8))
  · rw [if_neg (not_not.mpr (hbytes.mp heq))]
    by_cases h8 : len % 8 = 0
    · simp [Inside, FoundIn, heq, h8, pure, Except.pure]
    · rw [if_pos h8]
      by_cases hlt : len < 120
      · have hbyte (x : Ip6Address) : slice x.bytes (1 + len / 8) 1 = .ok ((x.bytes.drop (1 + len / 8)).take 1) := by
          rw [slice, if_pos (by rw [x.length_eq]; omega)]
        simp [Inside, FoundIn, heq, h8, hlt, hbyte, field8_take_drop, pure, Except.pure]
      · have hbyte : slice a.bytes (1 + len / 8) 1 = .error .outOfBounds := by
          rw [slice, if_neg (by rw [a.length_eq]; omega)]
        simp [Inside, heq, h8, hlt, hbyte, Bind.bind, Except.bind]
  · rw [if_pos (fun h => heq (hbytes.mpr h))]
    simp [Inside, FoundIn, heq, pure, Except.pure]

/-! ### The search -/

theorem matchFields_isSome (r : AclRule) :
    (matchFields am pkt r).isSome ↔ FieldsMatch am pkt r := by
  have hport (x y z : BitVec 16) : y ≤ x ∧ x ≤ z ↔ faAclMatchPort x y z = true := decide_eq_true_iff.symm
  simp only [matchFields, FieldsMatch, hport]
  split_ifs <;> simp_all

/-- The prefix lengths of a rule are those of IPv6. -/
def PrefixesFit (r : AclRule) : Prop := r.dstPrefixlen.toNat ≤ 128 ∧ r.srcPrefixlen.toNat ≤ 128
deriving Decidable

/-- What becomes of a rule is what it is for just when it is judged by that. -/
theorem matchRule_iff {r : AclRule} (hr : PrefixesFit r) :
    (∃ o, matchRule am pkt r = .ok o ∧ (o.isSome ↔ Applies am pkt r)) ↔ Judged am pkt r := by
  cases h6 : r.isIpv6 with
  | false => simp [matchRule, Judged, Applies, h6, pure, Except.pure]
  | true =>
    simp only [matchRule, Judged, h6, faAclMatchIp6Addr_eq _ _ hr.1, faAclMatchIp6Addr_eq _ _ hr.2,
      ← matchFields_isSome am pkt r]
    by_cases hdst : Inside pkt.addr1 r.dst r.dstPrefixlen.toNat
    · by_cases hfound : FoundIn pkt.addr1 r.dst r.dstPrefixlen.toNat
      · by_cases hsrc : Inside pkt.addr0 r.src r.srcPrefixlen.toNat
        · by_cases hfound' : FoundIn pkt.addr0 r.src r.srcPrefixlen.toNat <;>
            simp [hdst, hfound, hsrc, hfound', pure, Except.pure]
        · simp [hdst, hfound, hsrc, Bind.bind, Except.bind]
      · simp [hdst, hfound, pure, Except.pure]
    · simp [hdst, Bind.bind, Except.bind]

theorem matchRules_index {i : ℕ} {rules : List AclRule} {m : ℕ × Byte × Bool}
    (h : matchRules am pkt i rules = .ok (some m)) : i ≤ m.1 := by
  induction rules generalizing i with
  | nil => cases h
  | cons r rules ih =>
    obtain ⟨o, -, ho⟩ := bind_eq_ok.mp h
    cases o with
    | some fragment => cases ho; exact le_refl i
    | none => exact (Nat.le_succ i).trans (ih ho)

theorem matchRules_iff (i : ℕ) {rules : List AclRule} (hrules : ∀ r ∈ rules, PrefixesFit r) :
    (∃ found, matchRules am pkt i rules = .ok found ∧ found.map (fun m => (m.1, m.2.1)) =
      ((rules.zipIdx i).find? (Applies am pkt ·.1)).map fun x => (x.2, x.1.isPermit)) ↔
      ∀ k r, rules[k]? = some r → (∀ r' ∈ rules.take k, ¬ Applies am pkt r') → Judged am pkt r := by
  induction rules generalizing i with
  | nil => simp [matchRules, pure, Except.pure]
  | cons r rules ih =>
    obtain ⟨hr, hrules⟩ := forall_mem_cons.mp hrules
    -- the first rule, and the others if it does not apply
    have hsplit : (∀ k r', (r :: rules)[k]? = some r' → (∀ r'' ∈ (r :: rules).take k, ¬ Applies am pkt r'') →
        Judged am pkt r') ↔ Judged am pkt r ∧ (¬ Applies am pkt r → ∀ k r', rules[k]? = some r' →
          (∀ r'' ∈ rules.take k, ¬ Applies am pkt r'') → Judged am pkt r') := by
      constructor
      · exact fun h => ⟨h 0 r rfl (by simp), fun hn k r' hk hall =>
          h (k + 1) r' hk (by simpa [take_succ_cons] using ⟨hn, hall⟩)⟩
      · rintro ⟨h0, h⟩ k r' hk hall
        cases k with
        | zero => cases hk; exact h0
        | succ k =>
          obtain ⟨hn, hall⟩ := forall_mem_cons.mp hall
          exact h hn k r' hk hall
    rw [hsplit, ← matchRule_iff am pkt hr, ← ih (i + 1) hrules, matchRules, zipIdx_cons, find?_cons]
    cases hm : matchRule am pkt r with
    | error e => simp [Bind.bind, Except.bind]
    | ok o =>
      rw [bind_ok]
      by_cases happ : Applies am pkt r
      · cases o with
        | some fragment => simp [happ, pure, Except.pure]
        | none =>
          -- a later rule cannot be found under the index of this one
          suffices ∀ found, matchRules am pkt (i + 1) rules = .ok found →
              found.map (fun m => (m.1, m.2.1)) ≠ some (i, r.isPermit) by simpa [happ]
          rintro (_ | m) hfound heq
          · cases heq
          · have hi := matchRules_index am pkt hfound
            simp only [Option.map_some, Option.some.injEq, Prod.mk.injEq] at heq
            omega
      · cases o with
        | some fragment =>
          suffices some (i, r.isPermit) ≠ ((rules.zipIdx (i + 1)).find? (Applies am pkt ·.1)).map
              fun x => (x.2, x.1.isPermit) by simpa [happ, pure, Except.pure]
          intro heq
          obtain ⟨x, hx, hxi⟩ := Option.map_eq_some_iff.mp heq.symm
          have hi := le_snd_of_mem_zipIdx (mem_of_find?_eq_some hx)
          simp only [Prod.mk.injEq] at hxi
          omega
        | none => simp [happ]

/-- An address that starts with the given bytes. -/
def Ip6Address.ofStart (b0 b1 : Byte) : Ip6Address := ⟨b0 :: b1 :: replicate 14 0, rfl⟩

/-- A rule that denies what comes from a prefix. -/
def denyFrom (src : Ip6Address) (len : Byte) : AclRule :=
  ⟨0, true, src, len, .ofStart 0 0, 0, 0, 0, 0, 0, 0, 0, 0⟩

def aclOf (rules : List AclRule) : AclMain := ⟨fun _ => some rules, false⟩

def pkt1 : Fa5tuple := ⟨.ofStart 0 0x10, .ofStart 0 0, 0, 0, 0, false, false, false, 0⟩

end Vpp.Acl
