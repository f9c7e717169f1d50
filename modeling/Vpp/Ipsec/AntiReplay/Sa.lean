import Vpp.Vppinfra.BitmapRanges

/-! Anti-replay of an inbound IPsec SA (`vnet/ipsec/ipsec_sa.h`).

    The SA keeps the highest accepted sequence number (`seq`, with `seq_hi` above it when extended
    sequence numbers are on) and a window of marks below it. `ipsec_sa_anti_replay_and_sn_advance`
    runs twice per packet: before decryption, where it picks the high half used to decrypt, and after,
    where it decides. `ipsec_sa_anti_replay_advance` then records the packet. All arithmetic is the
    32-bit wrapping arithmetic of the source; a shift count is taken modulo 64, as the target's shift
    instructions do when the source's count leaves the word.

        pre-decrypt check ──▶ decrypt with hi_seq ──▶ post-decrypt check ──▶ advance -/

namespace Vpp.Ipsec
open Vpp.Vppinfra

/-- The union of `ipsec_sa_t`: `replay_window`, or `replay_window_huge` when the SA has
    `IPSEC_SA_FLAG_ANTI_REPLAY_HUGE`. Every caller passes that flag as `ar_huge`. -/
inductive ReplayWindow where
  | word (replayWindow : BitVec 64)
  | huge (replayWindowHuge : List Uword)
  deriving DecidableEq

/-- The fields of `ipsec_sa_t` that anti-replay reads and writes. -/
structure IpsecSa where
  seq : BitVec 32
  seqHi : BitVec 32
  window : ReplayWindow
  useEsn : Bool
  useAntiReplay : Bool
  deriving DecidableEq

/-- `IPSEC_SA_ANTI_REPLAY_WINDOW_SIZE_KNOWN_WIN`. -/
def ReplayWindow.size : ReplayWindow → BitVec 32
  | .word _ => 64
  | .huge bm => BitVec.ofNat 32 (bm.length * 8 * 8)

/-- `IPSEC_SA_ANTI_REPLAY_WINDOW_N_SEEN_KNOWN_WIN`. -/
def ReplayWindow.nSeen : ReplayWindow → ℕ
  | .word w => countSetBits w
  | .huge bm => clibBitmapCountSetBits bm

/-- `IPSEC_SA_ANTI_REPLAY_WINDOW_LOWER_BOUND_KNOWN_WIN`: `Bl = Tl - W + 1`. -/
def IpsecSa.windowLowerBound (sa : IpsecSa) : BitVec 32 := sa.seq - sa.window.size + 1

/-- `ipsec_sa_add_and_lock`: the anti-replay state of a new SA. A window above 64 is rounded up to
    the next power of two; all marks start set. -/
def ipsecSaAddAndLock (useEsn useAntiReplay : Bool) (antiReplayWindowSize : BitVec 32) : IpsecSa where
  seq := 0
  seqHi := 0
  useEsn := useEsn
  useAntiReplay := useAntiReplay
  window :=
    if useAntiReplay && decide (antiReplayWindowSize > 64) then
      -- `pow2_mask` is asked for less than 64 bits only, where every build has the same mask
      .huge ((clibBitmapSetRegion true [] 0 true (1#32 <<< maxLog2 antiReplayWindowSize.toNat).toNat).getD [])
    else .word (BitVec.allOnes 64)

/-- `ipsec_sa_anti_replay_check`: is the mark of `seq` set? Only meaningful inside the window. -/
def ipsecSaAntiReplayCheck (sa : IpsecSa) (seq : BitVec 32) : Bool :=
  match sa.window with
  | .huge bm => clibBitmapGet bm (seq &&& (sa.window.size - 1)).toNat
  | .word w => (w >>> ((sa.window.size + seq - sa.seq - 1).toNat % 64)).getLsbD 0

/-- `ipsec_sa_anti_replay_and_sn_advance`: drop the packet?, and the `*hi_seq_req` that the
    pre-decrypt call fills in (the post-decrypt call has no such argument and ignores it). -/
def ipsecSaAntiReplayAndSnAdvance (sa : IpsecSa) (seq hiSeqUsed : BitVec 32) (postDecrypt : Bool) :
    Bool × BitVec 32 :=
  let windowSize := sa.window.size
  let windowLowerBound := sa.windowLowerBound
  if !sa.useEsn then
    if !sa.useAntiReplay then (false, 0)
    else if seq > sa.seq then (false, 0)
    -- falls out on the left of the window
    else if sa.seq ≥ seq + windowSize then (true, 0)
    else (ipsecSaAntiReplayCheck sa seq, 0)
  else if !sa.useAntiReplay then
    if seq ≥ sa.seq then (false, sa.seqHi)
    else if sa.seq - seq > 1 <<< 30 then (false, sa.seqHi + 1)
    else (false, sa.seqHi)
  else if sa.seq ≥ windowSize - 1 then
    -- case A of RFC4303 appendix A: the window does not reach below zero
    if seq < windowLowerBound then
      if postDecrypt then (decide (hiSeqUsed = sa.seqHi), sa.seqHi)
      else (false, sa.seqHi + 1)
    else if seq ≤ sa.seq then (ipsecSaAntiReplayCheck sa seq, sa.seqHi)
    else (false, sa.seqHi)
  else
    -- case B: the lower bound has wrapped around to a large number
    if seq < windowLowerBound then
      if seq ≤ sa.seq then (ipsecSaAntiReplayCheck sa seq, sa.seqHi)
      else (false, sa.seqHi)
    else (ipsecSaAntiReplayCheck sa seq, sa.seqHi - 1)

/-- The loops over the whole words of the huge window shift, which count and clear them and wrap around
    at the end of the ring: eight at once while there are as many, then one at a time. -/
def clearFullWords (nBlocks : ℕ) : ℕ → ℕ → List Uword → ℕ → List Uword × ℕ × ℕ
  | fullWords + 8, iBlock, window, seen =>
    let blocks := iBlock :: [1, 2, 3, 4, 5, 6, 7].map fun i => (iBlock + i) &&& (nBlocks - 1)
    clearFullWords nBlocks fullWords ((iBlock + 8) &&& (nBlocks - 1))
      (blocks.foldl (fun window i => window.set i 0) window)
      (seen + (blocks.map fun i => countSetBits (window.getD i 0)).sum)
  | fullWords + 1, iBlock, window, seen =>
    clearFullWords nBlocks fullWords ((iBlock + 1) &&& (nBlocks - 1)) (window.set iBlock 0)
      (seen + countSetBits (window.getD iBlock 0))
  | 0, iBlock, window, seen => (window, iBlock, seen)

/-- Clear the marks of the `inc` numbers that leave the window, from bit `lowerBound` on around the
    ring, and count those that were set. -/
def clearMarks (bmi2 : Bool) (window : List Uword) (nBlocks lowerBound nextLowerBound inc : ℕ) :
    List Uword × ℕ :=
  let iBlock := lowerBound >>> 6
  let iWordStart := lowerBound &&& 63
  let iWordEnd := nextLowerBound &&& 63
  let first := window.getD iBlock 0
  if iWordStart + inc ≤ 64 then
    -- we stay in the same word
    let mask := pow2Mask bmi2 inc <<< iWordStart
    (window.set iBlock (first &&& ~~~mask), countSetBits (first &&& mask))
  else
    let fullWords := (inc + iWordStart - 64 - iWordEnd) >>> 6
    let mask := BitVec.allOnes 64 <<< iWordStart
    let r := clearFullWords nBlocks fullWords ((iBlock + 1) &&& (nBlocks - 1))
      (window.set iBlock (first &&& ~~~mask)) (countSetBits (first &&& mask))
    -- the last word
    let lastMask := pow2Mask bmi2 iWordEnd
    let last := r.1.getD r.2.1 0
    (r.1.set r.2.1 (last &&& ~~~lastMask), r.2.2 + countSetBits (last &&& lastMask))

/-- The huge-bitmap branch of `ipsec_sa_anti_replay_window_shift` for `inc < window_size`. -/
def hugeWindowShift (bmi2 : Bool) (window : List Uword) (seq windowSize inc : BitVec 32) :
    List Uword × ℕ :=
  let lowerBound := (seq + 1) &&& (windowSize - 1)
  let nextLowerBound := (lowerBound + inc) &&& (windowSize - 1)
  let r := clearMarks bmi2 window (windowSize.toNat >>> 6) lowerBound.toNat nextLowerBound.toNat
    inc.toNat
  (clibBitmapSetNoCheck r.1 ((seq + inc) &&& (windowSize - 1)).toNat true, r.2)

/-- `ipsec_sa_anti_replay_window_shift`: the moved window, and the number of lost packets. -/
def ipsecSaAntiReplayWindowShift (bmi2 : Bool) (sa : IpsecSa) (inc : BitVec 32) :
    ReplayWindow × BitVec 32 :=
  let windowSize := sa.window.size
  if inc < windowSize then
    match sa.window with
    | .huge bm =>
      let (bm', seen) := hugeWindowShift bmi2 bm sa.seq windowSize inc
      (.huge bm', inc - BitVec.ofNat 32 seen)
    | .word w =>
      let seen := countSetBits (w &&& pow2Mask bmi2 inc.toNat)
      (.word ((w >>> (inc.toNat % 64)) ||| (1#64 <<< ((windowSize - 1).toNat % 64))),
        inc - BitVec.ofNat 32 seen)
  else
    let nLost := windowSize - BitVec.ofNat 32 sa.window.nSeen + (inc - windowSize)
    match sa.window with
    | .huge bm =>
      (.huge (clibBitmapSetNoCheck (clibBitmapZero bm) ((sa.seq + inc) &&& (windowSize - 1)).toNat true),
        nLost)
    | .word _ => (.word (1#64 <<< ((windowSize - 1).toNat % 64)), nLost)

/-- `ipsec_sa_anti_replay_get_64b_window`: the last 64 marks, that of `seq` at bit 63. -/
def ipsecSaAntiReplayGet64bWindow (bmi2 : Bool) (sa : IpsecSa) : BitVec 64 :=
  match sa.window with
  | .word w => w
  | .huge bm =>
    let windowSize := sa.window.size
    let tlWinIndex := sa.seq &&& (windowSize - 1)
    if tlWinIndex ≥ 63 then clibBitmapGetMultiple bm (tlWinIndex - 63).toNat 64
    else
      (clibBitmapGetMultipleNoCheck bmi2 bm 0 (tlWinIndex + 1).toNat <<< (63 - tlWinIndex).toNat) |||
        clibBitmapGetMultipleNoCheck bmi2 bm (windowSize - 63 + tlWinIndex).toNat (63 - tlWinIndex).toNat

/-- Record a number at or below the highest one: set its mark, `pos` places down. -/
def IpsecSa.setMark (sa : IpsecSa) (seq pos : BitVec 32) : ReplayWindow :=
  match sa.window with
  | .huge bm => .huge (clibBitmapSetNoCheck bm (seq &&& (sa.window.size - 1)).toNat true)
  | .word w => .word (w ||| (1#64 <<< ((sa.window.size - 1 - pos).toNat % 64)))

/-- `ipsec_sa_anti_replay_advance`: the SA after the packet, and the number of lost packets. -/
def ipsecSaAntiReplayAdvance (bmi2 : Bool) (sa : IpsecSa) (seq hiSeq : BitVec 32) :
    IpsecSa × BitVec 32 :=
  if sa.useEsn then
    let wrap := hiSeq - sa.seqHi
    if wrap = 0 ∧ seq > sa.seq then
      let r := ipsecSaAntiReplayWindowShift bmi2 sa (seq - sa.seq)
      ({ sa with window := r.1, seq := seq }, r.2)
    else if wrap.toInt > 0 then
      let r := ipsecSaAntiReplayWindowShift bmi2 sa (seq + ~~~sa.seq + 1)
      ({ sa with window := r.1, seq := seq, seqHi := hiSeq }, r.2)
    else if wrap.toInt < 0 then
      ({ sa with window := sa.setMark seq (~~~seq + sa.seq + 1) }, 0)
    else
      ({ sa with window := sa.setMark seq (sa.seq - seq) }, 0)
  else if seq > sa.seq then
    let r := ipsecSaAntiReplayWindowShift bmi2 sa (seq - sa.seq)
    ({ sa with window := r.1, seq := seq }, r.2)
  else
    ({ sa with window := sa.setMark seq (sa.seq - seq) }, 0)

/-- The 64-bit number that a high and a low half stand for. -/
def fullSn (hi lo : BitVec 32) : ℕ := hi.toNat * 2 ^ 32 + lo.toNat

end Vpp.Ipsec
