import Vpp.Schemes.Memory
import Vpp.Vlib.Chain
import Vpp.Ip.Reass.Ip4
import Vpp.Ip.Reass.Ip6

/-! TCP options on the wire (`tcp_options_parse`, `tcp_options_write`).

    The parser is given the bytes behind the 20-byte header and counts them in a `u8`, the data offset
    times four less twenty. It reads nothing behind these bytes; but with a data offset below five the
    count wraps around, and `tcp_input_lookup_buffer` lets such a segment pass. -/

namespace Vpp.Tcp
open Vpp.Schemes Vpp.Vlib Vpp.Ip List

structure SackBlock where
  first : BitVec 32
  stop : BitVec 32
  deriving DecidableEq

/-- The bits of `to->flags`. -/
structure TcpOptsFlags where
  mss : Bool := false
  tstamp : Bool := false
  wscale : Bool := false
  sackPermitted : Bool := false
  sack : Bool := false
  deriving DecidableEq

structure TcpOptions where
  flags : TcpOptsFlags := {}
  sacks : List SackBlock := []
  tsval : BitVec 32 := 0
  tsecr : BitVec 32 := 0
  mss : BitVec 16 := 0
  wscale : Byte := 0
  nSackBlocks : Byte := 0
  deriving DecidableEq

/-! ### Parsing -/

/-- `data[k]`, and a field of `n` bytes at `data + k` in network order. -/
def byteAt (data : Bytes) (k : ℕ) : Except Fault Byte := (slice data k 1).map fun bs => field8 bs 0
def beAt (data : Bytes) (k n : ℕ) : Except Fault ℕ := (slice data k n).map ofBe

/-- The loop over the blocks of a SACK option. -/
def parseSackBlocks : ℕ → Bytes → Except Fault (List SackBlock)
  | 0, _ => .ok []
  | n + 1, data => do
    let first ← beAt data 0 4
    let stop ← beAt data 4 4
    let rest ← parseSackBlocks n (data.drop 8)
    return ⟨BitVec.ofNat 32 first, BitVec.ofNat 32 stop⟩ :: rest

/-- The body of the switch over `kind`; `syn` is `tcp_syn (th)`. -/
def parseOption (syn isSyn : Bool) (kind : Byte) (optLen : ℕ) (data : Bytes) (to' : TcpOptions) :
    Except Fault TcpOptions :=
  if kind = 2 then
    if isSyn = true ∧ optLen = 4 ∧ syn = true then do
      let mss ← beAt data 2 2
      return { to' with flags.mss := true, mss := BitVec.ofNat 16 mss }
    else .ok to'
  else if kind = 3 then
    if isSyn = true ∧ optLen = 3 ∧ syn = true then do
      let wscale ← byteAt data 2
      return { to' with flags.wscale := true, wscale := if wscale > 14 then 14 else wscale }
    else .ok to'
  else if kind = 8 then
    let to' := { to' with flags.tstamp := to'.flags.tstamp || isSyn }
    if to'.flags.tstamp = true ∧ optLen = 10 then do
      let tsval ← beAt data 2 4
      let tsecr ← beAt data 6 4
      return { to' with tsval := BitVec.ofNat 32 tsval, tsecr := BitVec.ofNat 32 tsecr }
    else .ok to'
  else if kind = 4 then
    if isSyn = true ∧ optLen = 2 ∧ syn = true then .ok { to' with flags.sackPermitted := true }
    else .ok to'
  else if kind = 5 then
    if to'.flags.sackPermitted = false ∨ syn = true then .ok to'
    else if optLen < 10 ∨ (optLen - 2) % 8 ≠ 0 then .ok to'
    else do
      let n := (optLen - 2) / 8
      let sacks ← parseSackBlocks n (data.drop 2)
      return { to' with flags.sack := true, nSackBlocks := BitVec.ofNat 8 n, sacks := sacks }
  else .ok to'

/-- The loop of `tcp_options_parse` with the bytes from `data` on: the options, and whether the result
    is 0. -/
def parseOptions (syn isSyn : Bool) : ℕ → Bytes → ℕ → TcpOptions → Except Fault (TcpOptions × Bool)
  | 0, _, _, _ => .error .divergence
  | fuel + 1, data, optsLen, to' =>
    if optsLen = 0 then .ok (to', true)
    else do
      let kind ← byteAt data 0
      if kind = 0 then return (to', true)
      else if kind = 1 then parseOptions syn isSyn fuel (data.drop 1) (optsLen - 1) to'
      else if optsLen < 2 then return (to', false)
      else
        let optLen ← byteAt data 1
        if optLen.toNat < 2 ∨ optsLen < optLen.toNat then return (to', false)
        else
          let to' ← parseOption syn isSyn kind optLen.toNat data to'
          parseOptions syn isSyn fuel (data.drop optLen.toNat) (optsLen - optLen.toNat) to'

/-- `tcp_options_parse` of a header with data offset `doff`; `data` is what may be read behind it. -/
def tcpOptionsParse (syn isSyn : Bool) (doff : ℕ) (data : Bytes) (to' : TcpOptions) :
    Except Fault (TcpOptions × Bool) :=
  parseOptions syn isSyn 256 data ((4 * doff + 236) % 256) { to' with flags.sack := false }

/-! ### A segment in a buffer -/

section
variable (isIp4 : Bool) (b : VlibBuffer)

/-- Where the TCP header starts, and the length of the packet by its IP header. -/
def tcpOffset : ℕ := if isIp4 then ip4HeaderBytes b else 40
def ipLength : ℕ := if isIp4 then ip4Length b else 40 + ip6PayloadLength b

def tcpDoff : ℕ := (b.current (tcpOffset isIp4 b + 12)).toNat / 16

/-- The length checks of `tcp_input_lookup_buffer`. -/
def tcpInputLookupBuffer : Bool :=
  decide (tcpOffset isIp4 b + 20 ≤ b.currentLength) &&
    decide (tcpOffset isIp4 b + 4 * tcpDoff isIp4 b ≤ ipLength isIp4 b)

/-- The bytes of the header behind its first twenty. -/
def optionBytes : Bytes :=
  (range (4 * tcpDoff isIp4 b - 20)).map fun k => b.current (tcpOffset isIp4 b + 20 + k)

end

/-! ### Reads stay inside -/

section
variable {data : Bytes} {k n : ℕ}

theorem byteAt_eq (h : k < data.length) : byteAt data k = .ok (field8 data k) := by
  rw [byteAt, slice, if_pos (by omega)]
  exact congrArg Except.ok (field8_take_drop (by omega))

theorem beAt_eq (h : k + n ≤ data.length) : beAt data k n = .ok (fieldBe data k n) := by
  rw [beAt, slice, if_pos h]
  rfl

theorem parseSackBlocks_ok (h : 8 * n ≤ data.length) : ∃ sacks, parseSackBlocks n data = .ok sacks := by
  induction n generalizing data with
  | zero => exact ⟨[], rfl⟩
  | succ n ih =>
    obtain ⟨rest, hrest⟩ := @ih (data.drop 8) (by rw [length_drop]; omega)
    rw [parseSackBlocks, beAt_eq (by omega), beAt_eq (by omega), hrest]
    exact ⟨_, rfl⟩

variable (syn isSyn : Bool) (to' : TcpOptions)

/-- An option is read up to its length at most. -/
theorem parseOption_ok (kind : Byte) (h : n ≤ data.length) :
    ∃ r, parseOption syn isSyn kind n data to' = .ok r := by
  unfold parseOption
  split_ifs
  all_goals try exact ⟨_, rfl⟩
  -- the options that are read: MSS, window scale, timestamps and SACK blocks
  · rw [beAt_eq (by omega)]
    exact ⟨_, rfl⟩
  · rw [byteAt_eq (by omega)]
    exact ⟨_, rfl⟩
  · dsimp only
    split_ifs
    · rw [beAt_eq (by omega), beAt_eq (by omega)]
      exact ⟨_, rfl⟩
    · exact ⟨_, rfl⟩
  · obtain ⟨sacks, hsacks⟩ := @parseSackBlocks_ok (data.drop 2) ((n - 2) / 8) (by rw [length_drop]; omega)
    dsimp only
    rw [hsacks]
    exact ⟨_, rfl⟩

/-- The loop returns, and reads none but the bytes it counts. -/
theorem parseOptions_ok {fuel : ℕ} (hfuel : data.length < fuel) :
    ∃ r, parseOptions syn isSyn fuel data data.length to' = .ok r := by
  induction fuel generalizing data to' with
  | zero => omega
  | succ fuel ih =>
    have hnext (m : ℕ) (hm : 0 < m) (hle : m ≤ data.length) (to' : TcpOptions) :
        ∃ r, parseOptions syn isSyn fuel (data.drop m) (data.length - m) to' = .ok r := by
      rw [← length_drop]
      exact ih to' (by rw [length_drop]; omega)
    rw [parseOptions]
    split
    · exact ⟨_, rfl⟩
    rw [byteAt_eq (by omega), bind_ok]
    split
    · exact ⟨_, rfl⟩
    split
    · exact hnext 1 (by omega) (by omega) to'
    split
    · exact ⟨_, rfl⟩
    rw [byteAt_eq (by omega), bind_ok]
    split
    · exact ⟨_, rfl⟩
    obtain ⟨r, hr⟩ := @parseOption_ok data (field8 data 1).toNat syn isSyn to' (field8 data 0) (by omega)
    rw [hr, bind_ok]
    exact hnext _ (by omega) (by omega) r

/-- Parsing ends, and reads bytes of the header behind its first twenty only, all of them in the segment, just when
    the data offset is five or more. -/
theorem tcpOptionsParse_inside_iff (isIp4 : Bool) (b : VlibBuffer) (haccept : tcpInputLookupBuffer isIp4 b = true)
    (hlen : ipLength isIp4 b ≤ b.currentLength) :
    (tcpOffset isIp4 b + 4 * tcpDoff isIp4 b ≤ b.currentLength ∧
      ∃ r, tcpOptionsParse syn isSyn (tcpDoff isIp4 b) (optionBytes isIp4 b) to' = .ok r) ↔
      5 ≤ tcpDoff isIp4 b := by
  simp only [tcpInputLookupBuffer, Bool.and_eq_true, decide_eq_true_eq] at haccept
  have hlt : tcpDoff isIp4 b < 16 := Nat.div_lt_of_lt_mul (BitVec.isLt _)
  have hbytes : (optionBytes isIp4 b).length = 4 * tcpDoff isIp4 b - 20 := by
    rw [optionBytes, length_map, length_range]
  constructor
  · rintro ⟨-, r, hr⟩
    by_contra hdoff
    -- there is no byte to read, but the count has wrapped around
    have hnone : optionBytes isIp4 b = [] := length_eq_zero_iff.mp (by omega)
    rw [tcpOptionsParse, parseOptions, if_neg (by omega), hnone] at hr
    cases hr
  · intro hdoff
    refine ⟨by omega, ?_⟩
    have hcount : (4 * tcpDoff isIp4 b + 236) % 256 = (optionBytes isIp4 b).length := by omega
    rw [tcpOptionsParse, hcount]
    exact parseOptions_ok syn isSyn _ (by omega)

end

/-- An IPv4 packet with a TCP header, whose data offset need not tell where the options end. -/
def segmentOf (doff : Byte) (options : Bytes) : VlibBuffer :=
  bufferOf ([0x45, 0, 0, BitVec.ofNat 8 (40 + options.length)] ++ replicate 28 0 ++ [doff] ++ replicate 7 0 ++ options)

/-- A segment with the option MSS. -/
theorem tcpOptionsParse_inside_mss :
    ∃ r, tcpOptionsParse true true 6 (optionBytes true (segmentOf 0x60 [2, 4, 5, 180])) {} = .ok r :=
  ((tcpOptionsParse_inside_iff true true {} true (segmentOf 0x60 [2, 4, 5, 180]) (by decide) (by decide)).mpr
    (by decide)).2

/-- A data offset of 0 is accepted, and an option is read where there is none. -/
theorem tcpOptionsParse_outside : tcpInputLookupBuffer true (segmentOf 0 []) = true ∧
    ipLength true (segmentOf 0 []) = (segmentOf 0 []).currentLength ∧ tcpDoff true (segmentOf 0 []) = 0 ∧
    tcpOptionsParse true true 0 (optionBytes true (segmentOf 0 [])) {} = .error .outOfBounds := by
  decide

end Vpp.Tcp
