import Vpp.Tcp.Options

/-! What `tcp_options_write` writes, `tcp_options_parse` reads.

    The text is a sequence of options and padding. `Reads` says that the parser passes over a piece of it,
    whatever comes behind, and turns one state of `tcp_options_t` into another; pieces are put together. -/

namespace Vpp.Tcp
open Vpp.Schemes List SackBlock

/-- An option of the wire, with its length. -/
def optionText (kind : Byte) (body : Bytes) : Bytes := kind :: BitVec.ofNat 8 (body.length + 2) :: body

def SackBlock.text (s : SackBlock) : Bytes := toBe 4 s.first.toNat ++ toBe 4 s.stop.toNat

/-- The text that `tcp_options_write` writes; its length is what the function returns. -/
def tcpOptionsWrite (opts : TcpOptions) : Bytes :=
  let text :=
    (if opts.flags.mss then optionText 2 (toBe 2 opts.mss.toNat) else []) ++
    ((if opts.flags.wscale then optionText 3 [opts.wscale] else []) ++
    ((if opts.flags.sackPermitted then optionText 4 [] else []) ++
    ((if opts.flags.tstamp then optionText 8 (toBe 4 opts.tsval.toNat ++ toBe 4 opts.tsecr.toNat) else []) ++
    if opts.flags.sack ∧ opts.nSackBlocks ≠ 0 then
      optionText 5 ((opts.sacks.take opts.nSackBlocks.toNat).flatMap SackBlock.text) else [])))
  text ++ replicate ((4 - text.length % 4) % 4) 1

/-- What a segment may carry: on a SYN no SACK blocks, on any other segment what was agreed on before. -/
structure Encodable (syn : Bool) (opts to' : TcpOptions) : Prop where
  fits : (tcpOptionsWrite opts).length ≤ 40
  onSyn : (opts.flags.mss || opts.flags.wscale || opts.flags.sackPermitted) = true → syn = true
  wscale : opts.flags.wscale = true → opts.wscale.toNat ≤ 14
  tstamp : opts.flags.tstamp = true → (to'.flags.tstamp || syn) = true
  sack : opts.flags.sack = true → syn = false ∧ to'.flags.sackPermitted = true ∧
    opts.nSackBlocks.toNat ≤ opts.sacks.length

/-- There are SACK blocks to tell of; without any, nothing is written. -/
def TcpOptions.tellsSacks (opts : TcpOptions) : Bool := opts.flags.sack && decide (opts.nSackBlocks ≠ 0)

/-- The SACK blocks of a segment, the first of those that the sender keeps. -/
def TcpOptions.toldSacks (opts : TcpOptions) : List SackBlock := opts.sacks.take opts.nSackBlocks.toNat

/-- The options came through; flags from the SYN are kept. -/
structure Received (opts to' r : TcpOptions) : Prop where
  flags : r.flags = ⟨to'.flags.mss || opts.flags.mss, to'.flags.tstamp || opts.flags.tstamp,
    to'.flags.wscale || opts.flags.wscale, to'.flags.sackPermitted || opts.flags.sackPermitted, opts.tellsSacks⟩
  mss : opts.flags.mss = true → r.mss = opts.mss
  wscale : opts.flags.wscale = true → r.wscale = opts.wscale
  tstamp : opts.flags.tstamp = true → r.tsval = opts.tsval ∧ r.tsecr = opts.tsecr
  sacks : opts.tellsSacks = true → r.sacks = opts.toldSacks ∧ r.nSackBlocks = opts.nSackBlocks

/-! ### Passing over a piece -/

section
variable {syn isSyn : Bool} {a a' a'' : TcpOptions} {text text' body : Bytes}

def Reads (syn isSyn : Bool) (text : Bytes) (a a' : TcpOptions) : Prop :=
  ∀ rest fuel, text.length + rest.length < fuel → ∃ fuel', rest.length < fuel' ∧
    parseOptions syn isSyn fuel (text ++ rest) (text.length + rest.length) a =
      parseOptions syn isSyn fuel' rest rest.length a'

theorem Reads.append (h : Reads syn isSyn text a a') (h' : Reads syn isSyn text' a' a'') :
    Reads syn isSyn (text ++ text') a a'' := by
  intro rest fuel hfuel
  rw [length_append] at hfuel ⊢
  obtain ⟨fuel₁, hlt, heq⟩ := h (text' ++ rest) fuel (by rw [length_append]; omega)
  rw [length_append] at hlt heq
  obtain ⟨fuel₂, hlt', heq'⟩ := h' rest fuel₁ hlt
  exact ⟨fuel₂, hlt', by rw [append_assoc, add_assoc, heq, heq']⟩

theorem Reads.nil : Reads syn isSyn [] a a := fun rest fuel hfuel => ⟨fuel, by simpa using hfuel, by simp⟩

/-- An option, from what the switch makes of it. -/
theorem Reads.option {kind : Byte} (h0 : kind ≠ 0) (h1 : kind ≠ 1) (hlen : body.length + 2 < 256)
    (h : ∀ rest, parseOption syn isSyn kind (body.length + 2) (optionText kind body ++ rest) a = .ok a') :
    Reads syn isSyn (optionText kind body) a a' := by
  rintro rest (_ | fuel) hfuel
  · omega
  have hlength : (optionText kind body).length = body.length + 2 := rfl
  have hnat : (BitVec.ofNat 8 (body.length + 2)).toNat = body.length + 2 := by simpa using hlen
  rw [hlength] at hfuel ⊢
  refine ⟨fuel, by omega, ?_⟩
  rw [parseOptions, if_neg (by omega), byteAt_eq (by simp [optionText]), bind_ok,
    byteAt_eq (by simp [optionText]), bind_ok]
  simp only [field8, optionText, cons_append, getD_cons_zero, getD_cons_succ, hnat, h0, h1, if_false]
  rw [if_neg (by omega), if_neg (by omega), ← cons_append, ← cons_append, ← optionText, h, bind_ok,
    Nat.add_sub_cancel_left, ← hlength, drop_left]

theorem Reads.padding (n : ℕ) : Reads syn isSyn (replicate n 1) a a := by
  induction n with
  | zero => exact .nil
  | succ n ih =>
    rintro rest (_ | fuel) hfuel
    · omega
    rw [length_replicate] at hfuel ⊢
    obtain ⟨fuel', hlt, heq⟩ := ih rest fuel (by rw [length_replicate]; omega)
    refine ⟨fuel', hlt, ?_⟩
    rw [length_replicate] at heq
    rw [parseOptions, if_neg (by omega), byteAt_eq (by simp [replicate_succ]), bind_ok]
    simp only [field8, replicate_succ, cons_append, getD_cons_zero]
    rw [if_neg (by decide), if_pos trivial, show n + 1 + rest.length - 1 = n + rest.length by omega]
    exact heq

end

/-! ### The options -/

theorem beAt_toBe (pre post : Bytes) {k n : ℕ} (v : BitVec (8 * n)) (hk : pre.length = k) :
    beAt (pre ++ (toBe n v.toNat ++ post)) k n = .ok v.toNat := by
  have hlt := v.isLt
  rw [pow_mul] at hlt
  rw [beAt_eq (by simp [hk]), fieldBe_toBe hk hlt]

theorem length_sacksText (sacks : List SackBlock) : (sacks.flatMap SackBlock.text).length = 8 * sacks.length := by
  simp [length_flatMap, text, mul_comm]

theorem parseSackBlocks_text (sacks : List SackBlock) (rest : Bytes) :
    parseSackBlocks sacks.length (sacks.flatMap SackBlock.text ++ rest) = .ok sacks := by
  induction sacks with
  | nil => rfl
  | cons s sacks ih =>
    have htext : (s :: sacks).flatMap text ++ rest =
        toBe 4 s.first.toNat ++ (toBe 4 s.stop.toNat ++ (sacks.flatMap text ++ rest)) := by
      simp [text]
    have hfirst := @beAt_toBe [] (toBe 4 s.stop.toNat ++ (sacks.flatMap text ++ rest)) 0 4 s.first rfl
    have hstop := @beAt_toBe (toBe 4 s.first.toNat) (sacks.flatMap text ++ rest) 4 4 s.stop (length_toBe _ _)
    have hdrop : (toBe 4 s.first.toNat ++ (toBe 4 s.stop.toNat ++ (sacks.flatMap text ++ rest))).drop 8 =
        sacks.flatMap text ++ rest := by
      rw [← append_assoc]
      exact drop_left' (by simp)
    rw [nil_append] at hfirst
    rw [length_cons, parseSackBlocks, htext, hfirst, hstop, hdrop, ih]
    simp only [bind_ok, BitVec.ofNat_toNat, BitVec.setWidth_eq]
    rfl

section
variable {a : TcpOptions} {syn : Bool} (c : Bool)

theorem reads_mss (v : BitVec 16) (hs : c = true → syn = true) :
    Reads syn syn (if c then optionText 2 (toBe 2 v.toNat) else []) a
      { a with flags.mss := a.flags.mss || c, mss := if c then v else a.mss } := by
  cases c with
  | false => simpa using .nil
  | true =>
    rw [if_pos rfl, if_pos rfl, Bool.or_true, hs rfl]
    refine .option (by decide) (by decide) (by simp) fun rest => ?_
    have hread := @beAt_toBe [2, 4] rest 2 2 v rfl
    rw [optionText, length_toBe, parseOption, if_pos rfl, if_pos ⟨rfl, rfl, rfl⟩]
    exact (congrArg (· >>= _) hread).trans (by simp)

theorem reads_wscale {v : Byte} (hv : c = true → v.toNat ≤ 14) (hs : c = true → syn = true) :
    Reads syn syn (if c then optionText 3 [v] else []) a
      { a with flags.wscale := a.flags.wscale || c, wscale := if c then v else a.wscale } := by
  cases c with
  | false => simpa using .nil
  | true =>
    rw [if_pos rfl, if_pos rfl, Bool.or_true, hs rfl]
    refine .option (by decide) (by decide) (by simp) fun rest => ?_
    rw [parseOption, if_neg (by decide), if_pos rfl, if_pos ⟨rfl, rfl, rfl⟩,
      byteAt_eq (by simp [optionText]), bind_ok]
    have hfield : field8 (optionText 3 [v] ++ rest) 2 = v := rfl
    have hmax : ¬ v > 14 := not_lt.mpr (hv rfl)
    rw [hfield, if_neg hmax]
    rfl

theorem reads_sackPermitted (hs : c = true → syn = true) :
    Reads syn syn (if c then optionText 4 [] else []) a
      { a with flags.sackPermitted := a.flags.sackPermitted || c } := by
  cases c with
  | false => simpa using .nil
  | true =>
    rw [if_pos rfl, Bool.or_true, hs rfl]
    exact .option (by decide) (by decide) (by decide) fun _ => rfl

theorem reads_tstamp (x y : BitVec 32) (h : c = true → (a.flags.tstamp || syn) = true) :
    Reads syn syn (if c then optionText 8 (toBe 4 x.toNat ++ toBe 4 y.toNat) else []) a
      { a with flags.tstamp := a.flags.tstamp || c, tsval := if c then x else a.tsval,
               tsecr := if c then y else a.tsecr } := by
  cases c with
  | false => simpa using .nil
  | true =>
    rw [if_pos rfl, if_pos rfl, if_pos rfl, Bool.or_true]
    refine .option (by decide) (by decide) (by simp) fun rest => ?_
    have htsval := @beAt_toBe [8, 10] (toBe 4 y.toNat ++ rest) 2 4 x rfl
    have htsecr := @beAt_toBe ([8, 10] ++ toBe 4 x.toNat) rest 6 4 y (by simp)
    have hlen : (toBe 4 x.toNat ++ toBe 4 y.toNat).length + 2 = 10 := by simp
    have htext : optionText 8 (toBe 4 x.toNat ++ toBe 4 y.toNat) ++ rest =
        [8, 10] ++ (toBe 4 x.toNat ++ (toBe 4 y.toNat ++ rest)) := by
      simp [optionText]
    rw [append_assoc] at htsecr
    rw [hlen, htext, parseOption, if_neg (by decide), if_neg (by decide), if_pos rfl]
    rw [h rfl, if_pos ⟨rfl, rfl⟩, htsval, htsecr]
    simp only [bind_ok, BitVec.ofNat_toNat, BitVec.setWidth_eq]
    rfl

theorem reads_sacks {sacks : List SackBlock} (hfit : c = true → 8 * sacks.length + 2 < 256)
    (h : c = true → syn = false ∧ a.flags.sackPermitted = true ∧ sacks ≠ []) :
    Reads syn syn (if c then optionText 5 (sacks.flatMap SackBlock.text) else []) a
      { a with flags.sack := a.flags.sack || c, sacks := if c then sacks else a.sacks,
               nSackBlocks := if c then BitVec.ofNat 8 sacks.length else a.nSackBlocks } := by
  cases c with
  | false => simpa using .nil
  | true =>
    obtain ⟨rfl, hperm, hne⟩ := h rfl
    have hlen := length_sacksText sacks
    have hpos := length_pos_iff.mpr hne
    have hlt := hfit rfl
    rw [if_pos rfl, if_pos rfl, if_pos rfl, Bool.or_true]
    refine .option (by decide) (by decide) (by omega) fun rest => ?_
    have hdrop : (optionText 5 (sacks.flatMap text) ++ rest).drop 2 =
        sacks.flatMap text ++ rest := rfl
    rw [hlen, parseOption, if_neg (by decide), if_neg (by decide), if_neg (by decide), if_neg (by decide), if_pos rfl,
      if_neg (by simp [hperm]), if_neg (by omega), show (8 * sacks.length + 2 - 2) / 8 = sacks.length by omega, hdrop]
    dsimp only
    rw [parseSackBlocks_text]
    rfl

end

/-- A SYN carries any options but SACK blocks, another segment those agreed on: the parser reads what was
    written, a multiple of four bytes. -/
theorem tcpOptions_roundTrip (syn : Bool) (opts to' : TcpOptions) (h : Encodable syn opts to') :
    (tcpOptionsWrite opts).length % 4 = 0 ∧
      ∃ r, tcpOptionsParse syn syn (5 + (tcpOptionsWrite opts).length / 4) (tcpOptionsWrite opts) to' =
        .ok (r, true) ∧
        Received opts to' r := by
  obtain ⟨hfits, honSyn, hwscale, htstamp, hsack⟩ := h
  have hmod : (tcpOptionsWrite opts).length % 4 = 0 := by
    simp only [tcpOptionsWrite, length_append, length_replicate]
    omega
  refine ⟨hmod, ?_⟩
  have hcount : (4 * (5 + (tcpOptionsWrite opts).length / 4) + 236) % 256 = (tcpOptionsWrite opts).length := by omega
  have hsome (hc : opts.tellsSacks = true) : opts.flags.sack = true ∧ opts.nSackBlocks ≠ 0#8 := by
    simpa [TcpOptions.tellsSacks] using hc
  have hsackText : (if opts.flags.sack = true ∧ opts.nSackBlocks ≠ 0 then
      optionText 5 ((opts.sacks.take opts.nSackBlocks.toNat).flatMap text) else []) =
      if opts.tellsSacks then optionText 5 (opts.toldSacks.flatMap text) else [] := by
    simp only [TcpOptions.tellsSacks, TcpOptions.toldSacks, Bool.and_eq_true, decide_eq_true_eq]
  have htold (hs : opts.tellsSacks = true) : opts.toldSacks.length = opts.nSackBlocks.toNat :=
    length_take_of_le (hsack (hsome hs).1).2.2
  have hfit (hs : opts.tellsSacks = true) : 8 * opts.toldSacks.length + 2 < 256 := by
    have hlen := length_sacksText opts.toldSacks
    simp only [tcpOptionsWrite] at hfits
    rw [hsackText, if_pos hs] at hfits
    simp only [length_append, optionText, length_cons] at hfits
    omega
  have hread : ∃ r, Reads syn syn (tcpOptionsWrite opts) { to' with flags.sack := false } r ∧
    Received opts to' r := by
    simp only [tcpOptionsWrite]
    rw [hsackText]
    refine ⟨_, ((reads_mss _ _ fun hc => honSyn (by simp [hc])).append
      ((reads_wscale _ hwscale fun hc => honSyn (by simp [hc])).append
      ((reads_sackPermitted _ fun hc => honSyn (by simp [hc])).append
      ((reads_tstamp _ _ _ fun hc => ?_).append (reads_sacks _ hfit fun hc => ?_))))).append (.padding _), ?_⟩
    · exact htstamp hc
    · obtain ⟨hs, hne⟩ := hsome hc
      refine ⟨(hsack hs).1, by simp [(hsack hs).2.1], fun hnil => hne ?_⟩
      rw [← BitVec.toNat_inj, ← htold hc, hnil]
      rfl
    refine ⟨by simp, fun hc => if_pos hc, fun hc => if_pos hc, fun hc => ⟨if_pos hc, if_pos hc⟩,
      fun hc => ⟨if_pos hc, (if_pos hc).trans ?_⟩⟩
    rw [htold hc]
    simp
  obtain ⟨r, hreads, hreceived⟩ := hread
  obtain ⟨fuel, hfuel, hparse⟩ := hreads [] 256 (by simp; omega)
  obtain ⟨n, rfl⟩ : ∃ n, fuel = n + 1 := ⟨fuel - 1, by simp at hfuel; omega⟩
  rw [append_nil, length_nil, add_zero] at hparse
  exact ⟨r, by rw [tcpOptionsParse, hcount, hparse]; rfl, hreceived⟩

/-- Timestamps and two SACK blocks. -/
def ackOptions : TcpOptions := ⟨{ tstamp := true, sack := true }, [⟨5, 9⟩, ⟨0xfffffff0, 2⟩], 7, 3, 0, 0, 2⟩

/-- A segment of a connection that agreed on both. -/
theorem tcpOptions_roundTrip_sacks :
    ∃ r, tcpOptionsParse false false 12 (tcpOptionsWrite ackOptions)
      { flags := { tstamp := true, sackPermitted := true } } = .ok (r, true) ∧ r.sacks = ackOptions.sacks :=
  have h := tcpOptions_roundTrip false ackOptions { flags := { tstamp := true, sackPermitted := true } }
    ⟨by decide, by decide, by decide, by decide, by decide⟩
  let ⟨r, hr, hreceived⟩ := h.2
  ⟨r, hr, (hreceived.sacks rfl).1⟩

end Vpp.Tcp
