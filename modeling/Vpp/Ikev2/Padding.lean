import Vpp.Ikev2.ParserSafety

/-! The padding of an SK payload, and the length of the plaintext that is reported without it.

    `ikev2_payload_chain_add_padding` fills the payloads up to a multiple of the block size, with the
    number of bytes before the last one in the last one. The receiver subtracts what it finds there, in
    32 bits:

        | IV | payloads          | 0 .. 0 | n |        out_len = len - n - 1

    The subtraction is not checked. The reported length is at most the number of decrypted bytes minus
    one exactly when the last byte is smaller than that number; otherwise it is about `2 ^ 32`. -/

namespace Vpp.Ikev2
open Vpp.Schemes List Crypto
open BitVec (ofNat toNat_ofNat)

/-- The ciphers are inverse to each other and keep lengths. CBC is used for whole blocks only. -/
structure Crypto.InversePair (cr : Crypto) : Prop where
  decrypt_length : ∀ tr key iv data plain, cr.decrypt tr key iv data = some plain → plain.length = data.length
  decrypt_encrypt : ∀ tr key iv data, data.length % tr.blockSize = 0 →
    cr.decrypt tr key iv (cr.encrypt tr key iv data) = some data
  decryptAead_length : ∀ tr key nonce aad data tag plain,
    cr.decryptAead tr key nonce aad data tag = some plain → plain.length = data.length
  decryptAead_encryptAead : ∀ tr key nonce aad data,
    cr.decryptAead tr key nonce aad (cr.encryptAead tr key nonce aad data) (cr.aeadTag tr key nonce aad data) =
      some data

/-! ### The length -/

/-- The padding that the last byte announces lies inside the decrypted bytes. -/
def PadFits (plain : Bytes) : Prop := (plain.getLastD 0).toNat < plain.length
deriving Decidable

variable {plain iv : Bytes}

theorem getLastD_append (hne : plain ≠ []) (d : Byte) :
    (iv ++ plain).getLastD d = plain.getLastD d := by
  rw [getLastD_eq_getLast?, getLastD_eq_getLast?, getLast?_append_of_ne_nil iv hne]

theorem padOutLen_of_fits (hfits : PadFits plain) :
    padOutLen iv plain = ofNat 32 (plain.length - (plain.getLastD 0).toNat - 1) := by
  have hlt : (plain.getLastD 0).toNat < plain.length := hfits
  have hne : plain ≠ [] := by
    rintro rfl
    exact absurd hlt (Nat.not_lt_zero _)
  rw [padOutLen, getLastD_append hne]
  apply BitVec.eq_of_toNat_eq
  have hone : (1 : BitVec 32).toNat = 1 := rfl
  simp only [BitVec.toNat_sub, toNat_ofNat, BitVec.toNat_setWidth, hone]
  omega

/-- Where the padding does not fit, the length wraps around. -/
theorem toNat_padOutLen_of_not_fits (hlen : plain.length < 2 ^ 16) (hfits : ¬ PadFits plain) :
    (padOutLen iv plain).toNat = 2 ^ 32 + plain.length - ((iv ++ plain).getLastD 0).toNat - 1 := by
  have hge : plain.length ≤ ((iv ++ plain).getLastD 0).toNat := by
    by_cases hne : plain = []
    · rw [hne]
      exact Nat.zero_le _
    · rw [getLastD_append hne]
      exact le_of_not_gt hfits
  have hone : (1 : BitVec 32).toNat = 1 := rfl
  simp only [padOutLen, BitVec.toNat_sub, toNat_ofNat, BitVec.toNat_setWidth, hone]
  omega

/-- The reported length leaves out at least one of the decrypted bytes if and only if the padding fits. -/
theorem padOutLen_lt_iff (hlen : plain.length < 2 ^ 16) :
    (padOutLen iv plain).toNat + 1 ≤ plain.length ↔ PadFits plain := by
  constructor
  · intro hle
    by_contra hfits
    rw [toNat_padOutLen_of_not_fits hlen hfits] at hle
    omega
  · intro hfits
    have hlt : (plain.getLastD 0).toNat < plain.length := hfits
    rw [padOutLen_of_fits hfits, toNat_ofNat]
    omega

/-- An SK payload that is found declares a length of 16 bits. -/
theorem findSk_plen_lt : ∀ {fuel : ℕ} {payload : Byte} {mem : Bytes} {off off' plen : ℕ},
    findSk fuel payload mem off = .ok (.found off' plen) → plen < 2 ^ 16
  | 0, _, _, _, _, _, h => by cases h
  | fuel + 1, payload, mem, off, off', plen, h => by
    rw [findSk] at h
    split at h
    · cases h
    rw [ikev2CheckPayloadLength_eq, bind_ok] at h
    by_cases hfits : Fits mem
    · rw [if_pos hfits] at h
      dsimp only at h
      split at h
      · cases h
        exact fieldBe_lt mem 2 2
      · obtain ⟨critical, -, h⟩ := bind_eq_ok.mp h
        split at h
        · cases h
        · obtain ⟨bs, -, h⟩ := bind_eq_ok.mp h
          exact findSk_plen_lt h
    · rw [if_neg hfits] at h
      cases h

/-- What is reported of at most `n` bytes. -/
def Reported (n : ℕ) (d : Decrypted) : Prop :=
  d.plain.length ≤ n ∧ (d.plain = [] ∨ ∃ iv, d.outLen = padOutLen iv d.plain)

theorem Reported.lt_iff {n : ℕ} {d : Decrypted} (h : Reported n d) (hn : n < 2 ^ 16) :
    d.outLen.toNat + 1 ≤ d.plain.length ↔ PadFits d.plain := by
  obtain ⟨hlen, hnil | ⟨iv, hout⟩⟩ := h
  · rw [hnil]
    exact iff_of_false (Nat.not_succ_le_zero _) (Nat.not_lt_zero _)
  · rw [hout]
    exact padOutLen_lt_iff (hlen.trans_lt hn)

section
variable {cr : Crypto} (hpair : cr.InversePair) {tr : TransformData}
include hpair

theorem ikev2DecryptData_reported (key : Bytes) (before : Byte) (data after : Bytes) :
    Ensures (ikev2DecryptData cr key tr before data after) fun r => ∀ d ∈ r, Reported data.length d := by
  refine .ite (fun _ => .pure nofun) fun _ => .bind_any fun iv => ?_
  refine .ite (fun _ => .pure ?_) fun _ => ?_
  · rintro d ⟨⟩
    exact ⟨Nat.zero_le _, .inl rfl⟩
  split
  · exact .pure nofun
  · next plain hplain =>
    have hlen := hpair.decrypt_length _ _ _ _ _ hplain
    rw [length_drop] at hlen
    refine .pure ?_
    rintro d ⟨⟩
    exact ⟨hlen.trans_le (Nat.sub_le _ _), .inr ⟨iv, rfl⟩⟩

theorem ikev2DecryptAeadData_reported (key data aad tag : Bytes) :
    Ensures (ikev2DecryptAeadData cr key tr data aad tag) fun r => ∀ d ∈ r, Reported data.length d := by
  refine .ite (fun _ => .pure nofun) fun _ => ?_
  dsimp only
  split
  · exact .pure nofun
  · next plain hplain =>
    have hlen := hpair.decryptAead_length _ _ _ _ _ _ _ hplain
    rw [length_drop] at hlen
    refine .pure ?_
    rintro d ⟨⟩
    exact ⟨hlen.trans_le (Nat.sub_le _ _), .inr ⟨_, rfl⟩⟩

/-- What is decrypted is shorter than the payload, in both kinds of ciphers. -/
theorem openSk_reported (sa : Sa) (rx : Rx) (trEncr : TransformData) (trInteg : Option TransformData)
    (isAead : Bool) (off plen : ℕ) :
    Ensures (openSk cr sa rx trEncr trInteg isAead off plen) fun r => ∀ o ∈ r, Reported plen o.data := by
  have hmap {r : Option Decrypted} {opened : Decrypted → Opened} {n : ℕ} (hdata : ∀ d, (opened d).data = d)
      (hn : n ≤ plen) (hr : ∀ d ∈ r, Reported n d) : ∀ o ∈ r.map opened, Reported plen o.data := by
    intro o ho
    obtain ⟨d, hd, rfl⟩ := Option.mem_map.mp ho
    rw [hdata]
    exact ⟨(hr d hd).1.trans hn, (hr d hd).2⟩
  refine .bind_any fun first => .ite (fun _ => ?_) fun _ => .bind_any fun tr => ?_
  · refine .ite (fun _ => .pure nofun) fun _ => .bind (.slice _ _ _) fun data hdata => .bind_any fun tag => ?_
    refine .bind (ikev2DecryptAeadData_reported hpair _ _ _ _) fun r hr => .pure ?_
    exact hmap (fun _ => rfl) (by omega) hr
  · refine .ite (fun _ => .pure nofun) fun _ => .ite (fun _ => .pure nofun) fun _ => .bind_any fun icv => ?_
    refine .ite (fun _ => .pure nofun) fun _ => .bind (.slice _ _ _) fun data hdata => ?_
    refine .bind (ikev2DecryptData_reported hpair _ _ _ _) fun r hr => .pure ?_
    exact hmap (fun _ => rfl) (by omega) hr

theorem ikev2DecryptSkPayload_reported (sa : Sa) (rx : Rx) :
    Ensures (ikev2DecryptSkPayload cr sa rx) fun r => ∀ o ∈ r.2, Reported (2 ^ 16 - 1) o.data := by
  refine .bind_any fun trEncr => .ite (fun _ => .pure nofun) fun _ => .bind (fun _ => id) fun found hfound => ?_
  cases found with
  | notFound => exact .pure nofun
  | critical payload => exact .pure nofun
  | found off plen =>
    have hplen := findSk_plen_lt hfound
    refine .bind (openSk_reported hpair _ _ _ _ _ _ _) fun r hr => .pure fun o ho => ?_
    exact ⟨(hr o ho).1.trans (by omega), (hr o ho).2⟩

end

/-! ### Padding and stripping -/

variable (c : PayloadChain)

/-- The padding of a chain, as a list. -/
theorem addPadding_data {bs : ℕ} (hpos : 0 < bs) (hle : bs ≤ 255) :
    ∃ n, n < 255 ∧ (c.data.length + (n + 1)) % bs = 0 ∧
      (ikev2PayloadChainAddPadding c bs).data = c.data ++ (replicate n 0 ++ [ofNat 8 n]) := by
  set len := c.data.length with hlen
  have hdiv := Nat.div_add_mod len bs
  have hmod := Nat.mod_lt len hpos
  have hnext : (len / bs + 1) * bs = bs * (len / bs) + bs := by rw [add_mul, one_mul, mul_comm]
  obtain ⟨n, hn⟩ : ∃ n, bs - len % bs = n + 1 := ⟨bs - len % bs - 1, by omega⟩
  have hpad : ((len / bs + 1) * bs - len) % 2 ^ 8 = n + 1 := by
    rw [hnext]
    omega
  refine ⟨n, by omega, ?_, ?_⟩
  · rw [show len + (n + 1) = bs * (len / bs + 1) by rw [mul_add, mul_one]; omega]
    exact Nat.mul_mod_right _ _
  · simp only [ikev2PayloadChainAddPadding, ← hlen, hpad]
    have hbyte : ofNat 8 (n + 1 + 255) = ofNat 8 n := by
      apply BitVec.eq_of_toNat_eq
      simp only [toNat_ofNat]
      omega
    have hwrite := @writeAt_middle ((c.data ++ replicate (n + 1) 0).length - 1) (c.data ++ replicate n 0) [0]
      [ofNat 8 n] [] (by simp) rfl
    rw [append_nil, append_nil, append_assoc, append_assoc, ← replicate_succ'] at hwrite
    rw [hbyte, hwrite]

/-- Padded bytes announce their own padding. -/
theorem addPadding_pad {bs : ℕ} (hpos : 0 < bs) (hle : bs ≤ 255) :
    let padded := (ikev2PayloadChainAddPadding c bs).data
    PadFits padded ∧ padded.length - (padded.getLastD 0).toNat - 1 = c.data.length ∧
      padded.take c.data.length = c.data ∧ padded.length % bs = 0 ∧ padded ≠ [] := by
  obtain ⟨n, hn, hmod, hdata⟩ := addPadding_data c hpos hle
  rw [hdata]
  have hlast : (c.data ++ (replicate n 0 ++ [ofNat 8 n])).getLastD 0 = ofNat 8 n := by
    rw [← append_assoc, getLastD_concat]
  have hbyte : (ofNat 8 n).toNat = n := by
    rw [toNat_ofNat]
    omega
  have hlen : (c.data ++ (replicate n 0 ++ [ofNat 8 n])).length = c.data.length + (n + 1) := by simp
  refine ⟨?_, ?_, take_left' rfl, ?_, ?_⟩
  · rw [PadFits, hlast, hbyte, hlen]
    omega
  · rw [hlast, hbyte, hlen]
    omega
  · rw [hlen]
    exact hmod
  · simp

theorem padOutLen_addPadding (iv : Bytes) (c : PayloadChain) {bs : ℕ} (hpos : 0 < bs) (hle : bs ≤ 255) :
    padOutLen iv (ikev2PayloadChainAddPadding c bs).data = ofNat 32 c.data.length := by
  obtain ⟨hfits, hlen, -⟩ := addPadding_pad c hpos hle
  rw [padOutLen_of_fits hfits, hlen]

section
variable {cr : Crypto} (hpair : cr.InversePair) (c : PayloadChain) {tr : TransformData}
variable (hpos : 0 < tr.blockSize) (hle : tr.blockSize ≤ 255)
include hpair hpos hle

/-- A padded chain that was encrypted with CBC. -/
theorem decryptData_addPadding (key : Bytes) (before : Byte) (after : Bytes) (hiv : iv.length = tr.blockSize) :
    let padded := (ikev2PayloadChainAddPadding c tr.blockSize).data
    ikev2DecryptData cr key tr before (iv ++ cr.encrypt tr key iv padded) after =
      .ok (some ⟨padded, ofNat 32 c.data.length⟩) := by
  intro padded
  have hmod : padded.length % tr.blockSize = 0 := (addPadding_pad c hpos hle).2.2.2.1
  have hout : padOutLen iv padded = ofNat 32 c.data.length := padOutLen_addPadding iv c hpos hle
  have hdata : (iv ++ cr.encrypt tr key iv padded).length = tr.blockSize + padded.length := by
    rw [length_append, hiv, cr.encrypt_length]
  have hblocks : ¬ (iv ++ cr.encrypt tr key iv padded).length % tr.blockSize ≠ 0 := by
    rw [hdata, Nat.add_mod_left]
    exact not_not_intro hmod
  have hslice : slice (iv ++ cr.encrypt tr key iv padded ++ after) 0 tr.blockSize = .ok iv :=
    slice_of_drop (append_assoc _ _ _) hiv (Nat.zero_le _)
  have hplain : cr.decrypt tr key iv (cr.encrypt tr key iv padded) = some padded :=
    hpair.decrypt_encrypt tr key iv padded hmod
  rw [ikev2DecryptData, if_neg hblocks, hslice, bind_ok, if_neg (by omega), drop_left' hiv]
  simp only [hplain, hout]
  rfl

/-- A padded chain that was encrypted with GCM. -/
theorem decryptAeadData_addPadding (key aad : Bytes) (hiv : iv.length = gcmIvSize) :
    let padded := (ikev2PayloadChainAddPadding c tr.blockSize).data
    let nonce := key.drop (key.length - gcmSaltSize) ++ iv
    let tag := cr.aeadTag tr key nonce aad padded
    ikev2DecryptAeadData cr key tr (iv ++ cr.encryptAead tr key nonce aad padded) aad tag =
      .ok (some ⟨padded, ofNat 32 c.data.length⟩) := by
  intro padded nonce tag
  have hne : 0 < padded.length := length_pos_iff.mpr (addPadding_pad c hpos hle).2.2.2.2
  have hout : padOutLen iv padded = ofNat 32 c.data.length := padOutLen_addPadding iv c hpos hle
  have hruntless : ¬ (iv ++ cr.encryptAead tr key nonce aad padded).length ≤ gcmIvSize := by
    rw [length_append, hiv, cr.encryptAead_length]
    omega
  have hplain : cr.decryptAead tr key nonce aad (cr.encryptAead tr key nonce aad padded) tag = some padded :=
    hpair.decryptAead_encryptAead tr key nonce aad padded
  rw [ikev2DecryptAeadData, if_neg hruntless]
  simp only [take_left' hiv, drop_left' hiv]
  rw [hplain]
  simp only [hout]
  rfl

end

/-! ### Both together -/

/-- Where the padding fits, all three loops over a decrypted message take the same length for it, and find
    the plaintext without its padding there. -/
theorem payloads_of_fits {o : Opened} {n : ℕ} (h : Reported n o.data) (hn : n < 2 ^ 16)
    (hfits : PadFits o.data.plain) :
    o.data.outLen.toNat = o.data.plain.length - (o.data.plain.getLastD 0).toNat - 1 ∧
      o.data.outLen.toInt = o.data.outLen.toNat ∧
      o.mem.take o.data.outLen.toNat = o.data.plain.take o.data.outLen.toNat := by
  have hlt : (o.data.plain.getLastD 0).toNat < o.data.plain.length := hfits
  have hle := (h.lt_iff hn).mpr hfits
  have hlen : o.data.plain.length ≤ n := h.1
  refine ⟨?_, ?_, take_append_of_le_length (by omega)⟩
  · rcases h.2 with hnil | ⟨iv, hout⟩
    · rw [hnil] at hlt
      exact absurd hlt (Nat.not_lt_zero _)
    · rw [hout, padOutLen_of_fits hfits, toNat_ofNat]
      omega
  · rw [BitVec.toInt_eq_toNat_cond, if_pos (by omega)]

/-- The reported length of an SK payload leaves out at least one of the decrypted bytes exactly when the
    padding fits into them, and then the message loops see what is left without it. A padded chain is
    given back. -/
theorem skPadding_exact (cr : Crypto) (hpair : cr.InversePair) :
    (∀ sa rx sa' o, ikev2DecryptSkPayload cr sa rx = .ok (sa', some o) →
      let plain := o.data.plain
      let outLen := o.data.outLen
      (outLen.toNat + 1 ≤ plain.length ↔ PadFits plain) ∧
      (PadFits plain → outLen.toNat = plain.length - (plain.getLastD 0).toNat - 1 ∧
        outLen.toInt = outLen.toNat ∧ o.mem.take outLen.toNat = plain.take outLen.toNat)) ∧
    ∀ (c : PayloadChain) (tr : TransformData), 0 < tr.blockSize → tr.blockSize ≤ 255 →
      let padded := (ikev2PayloadChainAddPadding c tr.blockSize).data
      padded.take c.data.length = c.data ∧ ∀ key aad iv,
      (iv.length = tr.blockSize → ∀ before after,
        ikev2DecryptData cr key tr before (iv ++ cr.encrypt tr key iv padded) after =
          .ok (some ⟨padded, ofNat 32 c.data.length⟩)) ∧
      (iv.length = gcmIvSize →
        let nonce := key.drop (key.length - gcmSaltSize) ++ iv
        let tag := cr.aeadTag tr key nonce aad padded
        ikev2DecryptAeadData cr key tr (iv ++ cr.encryptAead tr key nonce aad padded) aad tag =
          .ok (some ⟨padded, ofNat 32 c.data.length⟩)) := by
  refine ⟨?_, ?_⟩
  · intro sa rx sa' o h
    have hreported := ikev2DecryptSkPayload_reported hpair sa rx _ h o rfl
    exact ⟨hreported.lt_iff (by decide), payloads_of_fits hreported (by decide)⟩
  · intro c tr hpos hle
    refine ⟨(addPadding_pad c hpos hle).2.2.1, fun key aad iv => ⟨fun hiv before after => ?_, fun hiv => ?_⟩⟩
    · exact decryptData_addPadding hpair c hpos hle key before after hiv
    · exact decryptAeadData_addPadding hpair c hpos hle key aad hiv

theorem Crypto.zero_inversePair : zero.InversePair := by
  constructor
  · rintro tr key iv data plain ⟨⟩
    rfl
  · intro tr key iv data _
    rfl
  · rintro tr key nonce aad data tag plain ⟨⟩
    rfl
  · intro tr key nonce aad data
    rfl

/-- A message for the SA with SPI 9 whose SK payload holds one byte, which announces the given padding. -/
def padMessage (pad : Byte) : Rx :=
  (Rx.ofBody exchangeInformational hdrFlagInitiator payloadSk
    ([0, 0, 0, 29] ++ replicate 8 0 ++ [pad] ++ replicate 16 0)).withIds 9 1

/-- No padding but the byte itself: nothing is reported, of one byte. -/
theorem skPadding_exact_one : ∃ o,
    ikev2DecryptSkPayload zero (gcmSa 9) (padMessage 0) = .ok (gcmSa 9, some o) ∧
    PadFits o.data.plain ∧ o.data.outLen.toNat + 1 ≤ o.data.plain.length := by
  have hout : ikev2DecryptSkPayload zero (gcmSa 9) (padMessage 0) =
      .ok (gcmSa 9, some ⟨0, ⟨[0], 0⟩, replicate 16 0⟩) := by decide +kernel
  have hfits : PadFits [0] := by decide
  obtain ⟨hsk, -⟩ := skPadding_exact zero zero_inversePair
  exact ⟨_, hout, hfits, (hsk _ _ _ _ hout).1.mpr hfits⟩

/-- One byte that announces five bytes of padding: almost `2 ^ 32` bytes are reported. -/
theorem skPadding_wraps : zero.InversePair ∧
    ikev2DecryptSkPayload zero (gcmSa 9) (padMessage 5) =
      .ok (gcmSa 9, some ⟨0, ⟨[5], 0xfffffffb⟩, replicate 16 0⟩) ∧
    ¬ (0xfffffffb : BitVec 32).toNat + 1 ≤ [(5 : Byte)].length :=
  ⟨zero_inversePair, by decide +kernel, by decide⟩

end Vpp.Ikev2
