import Vpp.Policer.Rates

/-! The scale of a policer (`compute_policer_params` in `vnet/policer/xlate.c`).

    Limits, rates and packet lengths are shifted by as many bits as the largest limit or rate leaves free. A packet
    that needs more bits than that is shifted out of its 32 bits, and charged for what is left of it:

        limit     1000          00 0000 1111 1010 00|00 ...
        packet    1500     1 <- 01 1101 1100 ------|---          charged as 476 -/

namespace Vpp.Qos
open BitVec

variable {p : Policer} {c : Call}

/-- The scaled rate, at least one token for each period. -/
def scaleRate (rate : BitVec 32) (shift : ℕ) : BitVec 32 := BitVec.ofNat 32 (max 1 (rate.toNat * 2 ^ shift))

/-- The leading zeros of the largest value. -/
def scaleShift (currentLimit extendedLimit cir pir : BitVec 32) : ℕ :=
  31 - Nat.log2 (max (max currentLimit.toNat extendedLimit.toNat) (max (cir <<< 10).toNat (pir <<< 10).toNat))

/-- `compute_policer_params`, from the bytes for each period on, writes to `hw`. -/
def computePolicerParams (hw : Policer) (currentLimit extendedLimit cir pir : BitVec 32) : Policer :=
  let shift := scaleShift currentLimit extendedLimit cir pir
  { hw with
    scale := BitVec.ofNat 32 shift
    currentLimit := currentLimit <<< shift
    extendedLimit := extendedLimit <<< shift
    cirTokensPerPeriod := scaleRate cir shift
    pirTokensPerPeriod := scaleRate pir shift }

/-- The extended bucket fills at the rate of the current one, or at its own. -/
def extendedOf (p : Policer) : Bucket := if p.singleRate = 0 then extendedOfTwoRates else extendedOfSingleRate

/-- A packet that is let through is charged its scaled length: to the current bucket if it conforms, and to the
    extended one in any case. With a single rate a packet that conforms need not be in the extended bucket, from which
    it is then subtracted modulo 2^32. -/
def ChargesExactly (p : Policer) (c : Call) : Prop :=
  let q := (police p c).2
  ((police p c).1 = .conform → q.currentBucket.toNat + scaled p c = (currentOf.tokens p c).toNat) ∧
    ((police p c).1 = .exceed ∨ (police p c).1 = .conform ∧ p.singleRate = 0 →
      q.extendedBucket.toNat + scaled p c = ((extendedOf p).tokens p c).toNat) ∧
    ((police p c).1 ≠ .violate → (q.extendedBucket.toNat + scaled p c) % 2 ^ 32 = ((extendedOf p).tokens p c).toNat)

/-- What a call can do, with one rate or two, as far as it is charged. -/
theorem police_charged (p : Policer) (c : Call) :
    let cur := currentOf.tokens p c
    let ext := (extendedOf p).tokens p c
    let len := c.packetLength <<< p.scale.toNat
    let q := (police p c).2
    (police p c).1 = .violate ∨
      ((police p c).1 = .exceed ∧ len.toNat ≤ ext.toNat ∧ q.extendedBucket = less ext len) ∨
      ((police p c).1 = .conform ∧ len.toNat ≤ cur.toNat ∧ (p.singleRate = 0 → len.toNat ≤ ext.toNat) ∧
        q.currentBucket = less cur len ∧ q.extendedBucket = less ext len) := by
  rw [extendedOf]
  split
  · rename_i h2
    obtain h | ⟨hr, hin, -, hq⟩ | ⟨hr, hin', hin, hcur, hext⟩ := police_two_rates (c := c) h2
    · exact .inl h.1
    · exact .inr (.inl ⟨hr, hin, hq⟩)
    · exact .inr (.inr ⟨hr, hin, fun _ => hin', hcur, hext⟩)
  · rename_i h1
    obtain ⟨hr, -, hin, hcur, hext⟩ | ⟨hr, hin, -, hq⟩ | h := police_single_rate (c := c) h1
    · exact .inr (.inr ⟨hr, hin, fun h2 => absurd h2 h1, hcur, hext⟩)
    · exact .inr (.inl ⟨hr, hin, hq⟩)
    · exact .inl h.1

/-- With a single rate, and blind to the colour of a packet, a policer lets through what one of its buckets holds. -/
theorem lt_of_violate (h1 : p.singleRate ≠ 0) (hblind : p.colorAware = 0) (h : (police p c).1 = .violate) :
    (currentOf.tokens p c).toNat < (c.packetLength <<< p.scale.toNat).toNat ∧
      (extendedOfSingleRate.tokens p c).toNat < (c.packetLength <<< p.scale.toNat).toNat := by
  simp only [police, vnetPolicePacket, if_pos h1, hblind, true_or, true_and] at h
  split_ifs at h with hconform hexceed
  exact ⟨not_le.mp hconform, not_le.mp hexceed⟩

theorem toNat_less_mod {t : BitVec 64} {len : BitVec 32} (ht : t.toNat < 2 ^ 32) :
    ((less t len).toNat + len.toNat) % 2 ^ 32 = t.toNat := by
  rw [less, toNat_setWidth, toNat_sub, toNat_setWidth_of_le (by decide)]
  omega

/-- What fits into 32 bits is charged exactly, and nothing else that is let through. -/
theorem chargesExactly_iff (p : Policer) (c : Call) :
    ChargesExactly p c ↔ scaled p c < 2 ^ 32 ∨ (police p c).1 = .violate := by
  have hcur := currentOf.tokens_lt p c
  have hext := (extendedOf p).tokens_lt p c
  constructor
  · rintro ⟨hconform, hexceed, -⟩
    -- a bucket holds less than 2^32 tokens, so it cannot be charged more
    cases hr : (police p c).1 with
    | conform =>
      have := hconform hr
      omega
    | exceed =>
      have := hexceed (.inl hr)
      omega
    | violate => exact .inr rfl
  · intro h
    rw [ChargesExactly]
    rcases police_charged p c with hr | ⟨hr, hin, hq⟩ | ⟨hr, hin, hin', hq, hq'⟩
    · rw [hr]
      exact ⟨nofun, fun hr => by simp at hr, fun hr => absurd rfl hr⟩
    · rw [← toNat_scaled (by simpa [hr] using h), hr, hq]
      exact ⟨nofun, fun _ => toNat_less hext hin, fun _ => toNat_less_mod hext⟩
    · rw [← toNat_scaled (by simpa [hr] using h), hr, hq, hq']
      exact ⟨fun _ => toNat_less hcur hin, fun h2 => toNat_less hext (hin' (by simpa using h2)),
        fun _ => toNat_less_mod hext⟩

/-- A limit that is no more than the largest value is shifted without loss. -/
theorem toNat_shift {limit : BitVec 32} {m : ℕ} (hm : limit.toNat ≤ m) (hm32 : m < 2 ^ 32) :
    (limit <<< (31 - Nat.log2 m)).toNat = limit.toNat * 2 ^ (31 - Nat.log2 m) := by
  have hlog : Nat.log2 m ≤ 31 := by
    rcases eq_zero_or_pos m with rfl | hpos
    · decide
    · exact Nat.le_of_lt_succ ((Nat.log2_lt hpos.ne').mpr hm32)
  have hlt : limit.toNat < 2 ^ (Nat.log2 m + 1) := hm.trans_lt Nat.lt_log2_self
  rw [toNat_shiftLeft, Nat.shiftLeft_eq, Nat.mod_eq_of_lt]
  calc limit.toNat * 2 ^ (31 - Nat.log2 m) < 2 ^ (Nat.log2 m + 1) * 2 ^ (31 - Nat.log2 m) :=
        Nat.mul_lt_mul_of_pos_right hlt (Nat.two_pow_pos _)
    _ = 2 ^ 32 := by rw [← pow_add]; congr 1; omega

section
variable (hw : Policer) {currentLimit extendedLimit cir pir len : BitVec 32} (color : PolicerResult) (time : BitVec 64)

theorem computePolicerParams_scale : (computePolicerParams hw currentLimit extendedLimit cir pir).scale.toNat =
    scaleShift currentLimit extendedLimit cir pir :=
  BitVec.toNat_ofNat .. |>.trans (Nat.mod_eq_of_lt (by rw [scaleShift]; omega))

/-- Both limits are shifted without loss. -/
theorem toNat_limit {limit : BitVec 32} (h : limit ∈ [currentLimit, extendedLimit]) :
    (limit <<< scaleShift currentLimit extendedLimit cir pir).toNat =
      limit.toNat * 2 ^ scaleShift currentLimit extendedLimit cir pir := by
  refine toNat_shift ?_ (max_lt (max_lt currentLimit.isLt extendedLimit.isLt) (max_lt (isLt _) (isLt _)))
  rcases List.mem_pair.mp h with rfl | rfl <;> omega

/-- What is left of a packet is more than either limit. -/
def OverLimits (currentLimit extendedLimit cir pir len : BitVec 32) : Prop :=
  ∀ limit ∈ [currentLimit, extendedLimit], limit.toNat * 2 ^ scaleShift currentLimit extendedLimit cir pir <
    (len <<< scaleShift currentLimit extendedLimit cir pir).toNat
deriving Decidable

/-- A bucket never has more than its limit. -/
theorem police_violate (hover : OverLimits currentLimit extendedLimit cir pir len) :
    (police (computePolicerParams hw currentLimit extendedLimit cir pir) ⟨len, color, time⟩).1 = .violate := by
  have hlimit {limit bucket rate : BitVec 32} {n : BitVec 64} (h : limit ∈ [currentLimit, extendedLimit]) :
      (tokens bucket (limit <<< scaleShift currentLimit extendedLimit cir pir) rate n).toNat <
        (len <<< (computePolicerParams hw currentLimit extendedLimit cir pir).scale.toNat).toNat := by
    rw [computePolicerParams_scale]
    exact tokens_le_limit.trans_lt ((toNat_limit h).trans_lt (hover limit h))
  obtain h | ⟨-, hin, -⟩ | ⟨-, hin, -⟩ :=
    police_charged (computePolicerParams hw currentLimit extendedLimit cir pir) ⟨len, color, time⟩
  · exact h
  · refine absurd hin (not_le.mpr ?_)
    rw [extendedOf]
    split <;> exact hlimit (by simp)
  · exact absurd hin (not_le.mpr (hlimit (by simp)))

/-- With full buckets of a single rate nothing else violates. -/
theorem overLimits_of_police (h : (police (computePolicerParams
    ⟨1, 0, 0, 0, 0, 0, currentLimit <<< scaleShift currentLimit extendedLimit cir pir, 0,
      extendedLimit <<< scaleShift currentLimit extendedLimit cir pir, 0⟩ currentLimit extendedLimit cir pir)
    ⟨len, color, 0⟩).1 = .violate) : OverLimits currentLimit extendedLimit cir pir len := by
  have hfull (limit rate : BitVec 32) : (tokens limit limit rate (0 - 0)).toNat = limit.toNat := by
    suffices limit.toNat ≤ limit.toNat % 2 ^ 64 by simpa [toNat_tokens]
    omega
  obtain ⟨hcur, hext⟩ := lt_of_violate (show (1 : BitVec 32) ≠ 0 by decide) rfl h
  simp only [computePolicerParams_scale] at hcur hext
  intro limit hlimit
  rw [← toNat_limit hlimit]
  rcases List.mem_pair.mp hlimit with rfl | rfl
  · exact (hfull _ _).symm.trans_lt hcur
  · exact (hfull _ _).symm.trans_lt hext

end

/-- With the scale derived from its limits and rates, a policer in any state charges a packet exactly, and lets none
    through that is longer than both bursts, just when the scale does not shift it out of 32 bits or what is left of
    it is more than either limit. -/
theorem policer_chargesExactly_iff (currentLimit extendedLimit cir pir len : BitVec 32) :
    (∀ hw color time, let p := computePolicerParams hw currentLimit extendedLimit cir pir
      ChargesExactly p ⟨len, color, time⟩ ∧
        (currentLimit < len → extendedLimit < len → (police p ⟨len, color, time⟩).1 = .violate)) ↔
      len.toNat * 2 ^ scaleShift currentLimit extendedLimit cir pir < 2 ^ 32 ∨
        OverLimits currentLimit extendedLimit cir pir len := by
  have hscaled (hw : Policer) (color : PolicerResult) (time : BitVec 64) :
      scaled (computePolicerParams hw currentLimit extendedLimit cir pir) ⟨len, color, time⟩ =
        len.toNat * 2 ^ scaleShift currentLimit extendedLimit cir pir := by
    rw [scaled, computePolicerParams_scale]
  simp only [chargesExactly_iff, hscaled]
  constructor
  · intro h
    exact (h _ .conform 0).1.imp_right (overLimits_of_police .conform)
  · rintro (hfit | hover) hw color time
    · refine ⟨.inl hfit, fun hcur hext => police_violate hw color time fun limit hlimit => ?_⟩
      rw [toNat_shiftLeft, Nat.shiftLeft_eq, Nat.mod_eq_of_lt hfit]
      refine Nat.mul_lt_mul_of_pos_right ?_ (Nat.two_pow_pos _)
      rcases List.mem_pair.mp hlimit with rfl | rfl
      · exact hcur
      · exact hext
    · have hr := police_violate hw color time hover
      exact ⟨.inr hr, fun _ _ => hr⟩

/-- Bursts of 1000 bytes, and rates of less than one byte for each period. -/
def slowPolicer : Policer := computePolicerParams (smallPolicer 0) 1000 1000 0 0

/-- A packet of 1500 bytes conforms, and is charged 476. -/
theorem policer_undercharges : (police { slowPolicer with currentBucket := 1000 <<< 22, extendedBucket := 1000 <<< 22 }
    ⟨1500, .conform, 0⟩) =
    (.conform, { slowPolicer with currentBucket := 524 <<< 22, extendedBucket := 524 <<< 22 }) := by
  decide

end Vpp.Qos
