import Vpp.Policer.Police
import Vpp.Schemes.TokenBucket

/-! What a policer lets through.

    Each bucket of a run is a token bucket (`Bucket`), so in every stretch of calls what is charged to it is at most
    its limit and what comes in meanwhile (`Bucket.window_le`). With two rates this holds of both buckets. With a
    single rate a packet that conforms is charged to the extended bucket without a look at it, and where it is not
    in there the bucket wraps around to more than its limit:

        current   1000                  1000 -> 0                        0
        extended  2000 -> 500            500 -> 2^32 - 500            2000 -> 500
                  exceed 1500            conform 1000                 exceed 1500 -/

namespace Vpp.Qos
open Vpp.Schemes List BitVec Policer

variable {p p₀ : Policer} {c : Call} {cs : List Call}

/-! ### Arithmetic -/

/-- The length of a packet in tokens. -/
def scaled (p : Policer) (c : Call) : ℕ := c.packetLength.toNat * 2 ^ p.scale.toNat

theorem toNat_scaled (h : scaled p c < 2 ^ 32) : (c.packetLength <<< p.scale.toNat).toNat = scaled p c := by
  rw [toNat_shiftLeft, Nat.shiftLeft_eq]
  exact Nat.mod_eq_of_lt h

section
variable {bucket limit rate : BitVec 32} {n t : BitVec 64} {len : BitVec 32}

theorem toNat_tokens : (tokens bucket limit rate n).toNat =
    min limit.toNat ((bucket.toNat + n.toNat * rate.toNat % 2 ^ 64) % 2 ^ 64) := by
  have hsum : (bucket.setWidth 64 + n * rate.setWidth 64).toNat =
      (bucket.toNat + n.toNat * rate.toNat % 2 ^ 64) % 2 ^ 64 := by
    rw [toNat_add, toNat_mul, toNat_setWidth_of_le (by decide),
      toNat_setWidth_of_le (by decide)]
  have hlimit : (limit.setWidth 64).toNat = limit.toNat := toNat_setWidth_of_le (by decide)
  simp only [tokens]
  split
  · rename_i h
    rw [gt_iff_lt, lt_def, hlimit, hsum] at h
    rw [hlimit]
    omega
  · rename_i h
    rw [gt_iff_lt, lt_def, hlimit, hsum] at h
    rw [hsum]
    omega

theorem tokens_le_limit : (tokens bucket limit rate n).toNat ≤ limit.toNat := by
  rw [toNat_tokens]
  exact min_le_left _ _

theorem tokens_le : (tokens bucket limit rate n).toNat ≤ bucket.toNat + n.toNat * rate.toNat := by
  rw [toNat_tokens]
  omega

theorem tokens_eq (h : bucket.toNat + n.toNat * rate.toNat < 2 ^ 64) :
    (tokens bucket limit rate n).toNat = min limit.toNat (bucket.toNat + n.toNat * rate.toNat) := by
  rw [toNat_tokens, Nat.mod_eq_of_lt (lt_of_le_of_lt (Nat.le_add_left _ _) h), Nat.mod_eq_of_lt h]

theorem toNat_less (ht : t.toNat < 2 ^ 32) (h : len.toNat ≤ t.toNat) : (less t len).toNat + len.toNat = t.toNat := by
  have hlen : (len.setWidth 64).toNat = len.toNat := toNat_setWidth_of_le (by decide)
  rw [less, toNat_setWidth, toNat_sub, hlen]
  omega

theorem toNat_kept (ht : t.toNat < 2 ^ 32) : (t.setWidth 32).toNat = t.toNat := by
  rw [toNat_setWidth]
  omega

theorem length_le_iff : len.setWidth 64 ≤ t ↔ len.toNat ≤ t.toNat := by
  rw [le_def, toNat_setWidth_of_le (by decide)]

end

/-! ### Buckets -/

/-- What a call does not change. -/
structure SameConfig (p p' : Policer) : Prop where
  singleRate : p'.singleRate = p.singleRate
  scale : p'.scale = p.scale
  cir : p'.cirTokensPerPeriod = p.cirTokensPerPeriod
  pir : p'.pirTokensPerPeriod = p.pirTokensPerPeriod
  currentLimit : p'.currentLimit = p.currentLimit
  extendedLimit : p'.extendedLimit = p.extendedLimit

open SameConfig

theorem SameConfig.refl (p : Policer) : SameConfig p p := ⟨rfl, rfl, rfl, rfl, rfl, rfl⟩

theorem SameConfig.trans {p p' p'' : Policer} (h : SameConfig p p') (h' : SameConfig p' p'') : SameConfig p p'' :=
  ⟨h'.1.trans h.1, h'.2.trans h.2, h'.3.trans h.3, h'.4.trans h.4, h'.5.trans h.5, h'.6.trans h.6⟩

theorem sameConfig_police (p : Policer) (c : Call) :
    SameConfig p (police p c).2 ∧ (police p c).2.lastUpdateTime = c.time := by
  simp only [police, vnetPolicePacket]
  split_ifs <;> exact ⟨⟨rfl, rfl, rfl, rfl, rfl, rfl⟩, rfl⟩

/-- One of the buckets of a policer, with its limit and rate, and the results it is charged for. -/
structure Bucket where
  level : Policer → BitVec 32
  limit : Policer → BitVec 32
  rate : Policer → BitVec 32
  charged : PolicerResult → Bool

open Bucket

/-- What a call takes out of a bucket. -/
def Bucket.charge (B : Bucket) (p : Policer) (e : Policed) : ℕ := if B.charged e.result then scaled p e.call else 0

/-- The tokens of a bucket when a call comes. -/
def Bucket.tokens (B : Bucket) (p : Policer) (c : Call) : BitVec 64 :=
  Qos.tokens (B.level p) (B.limit p) (B.rate p) (c.time - p.lastUpdateTime)

/-- The call takes what it takes out of the tokens, no more and no less. -/
def Bucket.Draws (B : Bucket) (p : Policer) (c : Call) : Prop :=
  (B.level (police p c).2).toNat + (if B.charged (police p c).1 then scaled p c else 0) = (B.tokens p c).toNat

/-- The buckets of the two kinds of policers. -/
def currentOf : Bucket := ⟨currentBucket, currentLimit, cirTokensPerPeriod, (· = .conform)⟩

def extendedOfSingleRate : Bucket :=
  ⟨extendedBucket, extendedLimit, cirTokensPerPeriod, (· ≠ .violate)⟩

def extendedOfTwoRates : Bucket :=
  ⟨extendedBucket, extendedLimit, pirTokensPerPeriod, (· ≠ .violate)⟩

/-- The time from the first call of a stretch to the last. -/
def span (first : Policed) (rest : List Policed) : ℕ :=
  ((first :: rest).getLast (by simp)).call.time.toNat - first.call.time.toNat

/-- The lengths of the packets of a stretch with some of the results. -/
def lengthsOf (p : Policer) (S : PolicerResult → Bool) (w : List Policed) : ℕ :=
  ((w.filter fun e => S e.result).map fun e => scaled p e.call).sum

theorem lengthsOf_charged (B : Bucket) (w : List Policed) : lengthsOf p B.charged w = (w.map (B.charge p)).sum := by
  induction w with
  | nil => rfl
  | cons e w ih =>
    rw [lengthsOf] at ih ⊢
    cases hc : B.charged e.result with
    | true => simp [hc, charge, ih]
    | false => simp [hc, charge, ih]

/-- Limit and rate of the bucket are part of the configuration. -/
def Bucket.Configured (B : Bucket) : Prop :=
  ∀ ⦃p p'⦄, SameConfig p p' → B.limit p' = B.limit p ∧ B.rate p' = B.rate p

/-- Each call of a run draws on the bucket. -/
def Bucket.RunDraws (B : Bucket) (p : Policer) (cs : List Call) : Prop :=
  AllSteps (fun p c => B.Draws p c) (fun p c => (police p c).2) p cs

namespace Bucket
variable {B : Bucket}

/-- A call as a use of the bucket. -/
def use (B : Bucket) (p : Policer) (e : Policed) : Use :=
  { time := e.call.time.toNat, taken := B.charge p e, level := (B.level e.after).toNat }

theorem total_uses (w : List Policed) : total (w.map (B.use p)) = (w.map (B.charge p)).sum := by
  rw [total, map_map]
  rfl

section
variable (hB : B.Configured) (h : B.RunDraws p cs)
include hB h

/-- No call finds more in the bucket than the limit. -/
theorem fits_of_mem (hconf : SameConfig p₀ p) :
    ∀ e ∈ policed p cs, (B.use p₀ e).Fits (B.limit p₀).toNat := by
  induction cs generalizing p with
  | nil => simp [policed]
  | cons c cs ih =>
    obtain ⟨hdraw, hrest⟩ := h
    intro e he
    rcases mem_cons.mp he with rfl | he
    · have hlimit : (B.tokens p c).toNat ≤ (B.limit p).toNat := tokens_le_limit
      have hscaled : scaled p₀ c = scaled p c := by rw [scaled, scaled, hconf.scale]
      rw [(hB hconf).1, ← hdraw] at hlimit
      simp only [Use.Fits, use, charge, hscaled]
      exact hlimit
    · exact ih hrest (hconf.trans (sameConfig_police p c).1) e he

/-- Between two calls nothing comes in beyond the rate. -/
theorem isChain_uses (hconf : SameConfig p₀ p)
    (htime : cs.Pairwise fun c c' => c.time ≤ c'.time) :
    ((policed p cs).map (B.use p₀)).IsChain (Use.Follows (B.rate p₀).toNat) := by
  induction cs generalizing p with
  | nil => exact .nil
  | cons c cs ih =>
    obtain ⟨-, hrest⟩ := h
    obtain ⟨hfirst, htime'⟩ := pairwise_cons.mp htime
    obtain ⟨hsame, hlast⟩ := sameConfig_police p c
    have hconf' := hconf.trans hsame
    have hchain := ih hrest hconf' htime'
    cases cs with
    | nil => exact .singleton _
    | cons c' cs =>
      refine isChain_cons_cons.mpr ⟨?_, hchain⟩
      have hle : c.time.toNat ≤ c'.time.toNat := hfirst c' mem_cons_self
      refine ⟨hle, ?_⟩
      have htokens : (B.tokens (police p c).2 c').toNat ≤
          (B.level (police p c).2).toNat + (c'.time - (police p c).2.lastUpdateTime).toNat *
          (B.rate (police p c).2).toNat :=
        tokens_le
      have hperiods : (c'.time - (police p c).2.lastUpdateTime).toNat = c'.time.toNat - c.time.toNat := by
        rw [hlast, toNat_sub_of_le hle]
      have hscaled : scaled p₀ c' = scaled (police p c).2 c' := by rw [scaled, scaled, hconf'.scale]
      rw [hperiods, (hB hconf').2, ← hrest.1, mul_comm] at htokens
      simp only [use, charge, hscaled]
      exact htokens

/-- In every stretch of a run, what the bucket is charged is at most its limit and what came in meanwhile. -/
theorem window_le (htime : cs.Pairwise fun c c' => c.time ≤ c'.time)
    {first : Policed} {rest : List Policed} (hw : first :: rest <:+: policed p cs) :
    lengthsOf p B.charged (first :: rest) ≤ (B.limit p).toNat + (B.rate p).toNat * span first rest := by
  have hfits := fits_of_mem hB h (refl p) first (hw.subset mem_cons_self)
  have hall := isChain_uses hB h (refl p) htime
  obtain ⟨before, after, heq⟩ := hw
  rw [← heq, map_append, map_append] at hall
  have hchain : (B.use p first :: rest.map (B.use p)).IsChain (Use.Follows (B.rate p).toNat) :=
    hall.left_of_append.right_of_append
  have htotal := total_le hchain hfits
  have hlast : ((B.use p first :: rest.map (B.use p)).getLast (by simp)) =
      B.use p ((first :: rest).getLast (by simp)) := getLast_map (f := B.use p) (l := first :: rest) (by simp)
  rw [hlast, ← map_cons, total_uses, ← lengthsOf_charged] at htotal
  exact htotal

theorem level_le {e : Policed} (he : e ∈ policed p cs) :
    (B.level e.after).toNat ≤ (B.limit p).toNat := by
  have := fits_of_mem hB h (refl p) e he
  exact le_trans (Nat.le_add_right _ _) this

end

end Bucket

theorem configured_currentOf : currentOf.Configured := fun _ _ h => ⟨h.currentLimit, h.cir⟩

theorem configured_extendedOfSingleRate : extendedOfSingleRate.Configured := fun _ _ h => ⟨h.extendedLimit, h.cir⟩

theorem configured_extendedOfTwoRates : extendedOfTwoRates.Configured := fun _ _ h => ⟨h.extendedLimit, h.pir⟩

theorem lengthsOf_mono {S S' : PolicerResult → Bool} (h : ∀ r, S r = true → S' r = true) (w : List Policed) :
    lengthsOf p S w ≤ lengthsOf p S' w := by
  have hsub : (w.filter fun e => S e.result).Sublist (w.filter fun e => S' e.result) :=
    monotone_filter_right w fun e => h e.result
  exact (hsub.map _).sum_le_sum fun _ _ => Nat.zero_le _

/-- What is said of calls of a run that share a configuration with the first policer. -/
theorem runDraws_of {B : Bucket} {ok : Policer → Call → Prop} (hrun : AllSteps ok (fun p c => (police p c).2) p cs)
    (hconf : SameConfig p₀ p) (hfit : ∀ c ∈ cs, scaled p₀ c < 2 ^ 32)
    (hdraw : ∀ q c, SameConfig p₀ q → scaled q c < 2 ^ 32 → ok q c → B.Draws q c) : B.RunDraws p cs := by
  induction cs generalizing p with
  | nil => trivial
  | cons c cs ih =>
    obtain ⟨hok, hrest⟩ := hrun
    have hfit₀ : scaled p c < 2 ^ 32 := by
      have := hfit c mem_cons_self
      rwa [scaled, ← hconf.scale] at this
    exact ⟨hdraw p c hconf hfit₀ hok, ih hrest (hconf.trans (sameConfig_police p c).1) fun c' hc' =>
      hfit c' (mem_cons_of_mem c hc')⟩

/-! ### Two rates -/

/-- What a call of a policer with two rates can do. -/
theorem police_two_rates (h2 : p.singleRate = 0) :
    let cur := currentOf.tokens p c
    let ext := extendedOfTwoRates.tokens p c
    let len := c.packetLength <<< p.scale.toNat
    let q := (police p c).2
    ((police p c).1 = .violate ∧ q.currentBucket = cur.setWidth 32 ∧ q.extendedBucket = ext.setWidth 32) ∨
      ((police p c).1 = .exceed ∧ len.toNat ≤ ext.toNat ∧ q.currentBucket = cur.setWidth 32 ∧
        q.extendedBucket = less ext len) ∨
      ((police p c).1 = .conform ∧ len.toNat ≤ ext.toNat ∧ len.toNat ≤ cur.toNat ∧
        q.currentBucket = less cur len ∧
        q.extendedBucket = less ext len) := by
  simp only [police, vnetPolicePacket, if_neg (not_not.mpr h2)]
  split_ifs with hviolate hexceed
  · exact .inl ⟨rfl, rfl, rfl⟩
  · obtain ⟨-, hin⟩ := not_or.mp hviolate
    rw [BitVec.not_lt, length_le_iff] at hin
    exact .inr (.inl ⟨rfl, hin, rfl, rfl⟩)
  · obtain ⟨-, hin⟩ := not_or.mp hviolate
    obtain ⟨-, hin'⟩ := not_or.mp hexceed
    rw [BitVec.not_lt, length_le_iff] at hin hin'
    exact .inr (.inr ⟨rfl, hin, hin', rfl, rfl⟩)

theorem Bucket.tokens_lt (B : Bucket) (p : Policer) (c : Call) : (B.tokens p c).toNat < 2 ^ 32 :=
  lt_of_le_of_lt tokens_le_limit (B.limit p).isLt

/-- A call that the bucket is not charged for. -/
theorem Bucket.draws_of_kept {B : Bucket} (hr : B.charged (police p c).1 = false)
    (hq : B.level (police p c).2 = (B.tokens p c).setWidth 32) : B.Draws p c := by
  rw [Draws, hr, hq, toNat_kept (B.tokens_lt p c)]
  rfl

/-- A call that the bucket is charged for, and can be. -/
theorem Bucket.draws_of_less {B : Bucket} (hfit : scaled p c < 2 ^ 32) (hr : B.charged (police p c).1 = true)
    (hin : (c.packetLength <<< p.scale.toNat).toNat ≤ (B.tokens p c).toNat)
    (hq : B.level (police p c).2 = less (B.tokens p c) (c.packetLength <<< p.scale.toNat)) : B.Draws p c := by
  rw [Draws, hr, hq, if_pos rfl, ← toNat_scaled hfit]
  exact toNat_less (B.tokens_lt p c) hin

theorem draws_two_rates (h2 : p.singleRate = 0) (hfit : scaled p c < 2 ^ 32) :
    currentOf.Draws p c ∧ extendedOfTwoRates.Draws p c := by
  rcases police_two_rates (c := c) h2 with ⟨hr, hcur, hext⟩ | ⟨hr, hin, hcur, hext⟩ |
    ⟨hr, hin, hin', hcur, hext⟩
  · exact ⟨draws_of_kept (by simp [currentOf, hr]) hcur,
      draws_of_kept (by simp [extendedOfTwoRates, hr]) hext⟩
  · exact ⟨draws_of_kept (by simp [currentOf, hr]) hcur,
      draws_of_less hfit (by simp [extendedOfTwoRates, hr]) hin hext⟩
  · exact ⟨draws_of_less hfit (by simp [currentOf, hr]) hin' hcur,
      draws_of_less hfit (by simp [extendedOfTwoRates, hr]) hin hext⟩

/-- Both rates are enforced in every stretch of a run, and the buckets stay within their limits. -/
theorem two_rate_limits (calls : List Call) (h2 : p.singleRate = 0) (hcur : p.currentBucket ≤ p.currentLimit)
    (hext : p.extendedBucket ≤ p.extendedLimit) (hfit : ∀ c ∈ calls, scaled p c < 2 ^ 32)
    (htime : calls.Pairwise fun c c' => c.time ≤ c'.time) :
    (∀ first rest, first :: rest <:+: policed p calls →
      lengthsOf p (· = .conform) (first :: rest) ≤
        p.currentLimit.toNat + p.cirTokensPerPeriod.toNat * span first rest ∧
      lengthsOf p (· ≠ .violate) (first :: rest) ≤
        p.extendedLimit.toNat + p.pirTokensPerPeriod.toNat * span first rest) ∧
    ∀ q ∈ p :: (policed p calls).map Policed.after,
      q.currentBucket ≤ p.currentLimit ∧ q.extendedBucket ≤ p.extendedLimit := by
  have hrun : AllSteps (fun _ _ => True) (fun p c => (police p c).2) p calls :=
    AllSteps.of_forall (fun _ _ => trivial) calls p
  have hcurrent : currentOf.RunDraws p calls :=
    runDraws_of hrun (refl p) hfit fun q c hconf hq _ => (draws_two_rates (hconf.singleRate.trans h2) hq).1
  have hextended : extendedOfTwoRates.RunDraws p calls :=
    runDraws_of hrun (refl p) hfit fun q c hconf hq _ => (draws_two_rates (hconf.singleRate.trans h2) hq).2
  refine ⟨fun first rest hw => ⟨?_, ?_⟩, fun q hq => ?_⟩
  · exact window_le configured_currentOf hcurrent htime hw
  · exact window_le configured_extendedOfTwoRates hextended htime hw
  · rcases mem_cons.mp hq with rfl | hq
    · exact ⟨hcur, hext⟩
    · obtain ⟨e, he, rfl⟩ := mem_map.mp hq
      exact ⟨level_le configured_currentOf hcurrent he, level_le configured_extendedOfTwoRates hextended he⟩

/-- A policer with one token for each period of one rate and two for the other. -/
def smallPolicer (singleRate : BitVec 32) : Policer :=
  { singleRate, colorAware := 0, scale := 0, cirTokensPerPeriod := 1, pirTokensPerPeriod := 2, currentLimit := 1000
    currentBucket := 1000, extendedLimit := 2000, extendedBucket := 2000, lastUpdateTime := 0 }

theorem two_rate_limits_three :
    let calls : List Call := [⟨900, .conform, 10⟩, ⟨900, .conform, 10⟩, ⟨900, .conform, 20⟩]
    (policed (smallPolicer 0) calls).map Policed.result = [.conform, .exceed, .violate] ∧
      ∀ first rest, first :: rest <:+: policed (smallPolicer 0) calls →
        lengthsOf (smallPolicer 0) (· = .conform) (first :: rest) ≤ 1000 + 1 * span first rest := by
  intro calls
  refine ⟨by decide, fun first rest hw => ?_⟩
  exact ((two_rate_limits calls (by decide) (by decide) (by decide) (by decide) (by decide)).1 first rest hw).1

/-! ### A single rate -/

/-- What a call of a policer with a single rate can do. -/
theorem police_single_rate (h1 : p.singleRate ≠ 0) :
    let cur := currentOf.tokens p c
    let ext := extendedOfSingleRate.tokens p c
    let len := c.packetLength <<< p.scale.toNat
    let q := (police p c).2
    ((police p c).1 = .conform ∧ (p.colorAware = 0 ∨ c.packetColor = .conform) ∧ len.toNat ≤ cur.toNat ∧
        q.currentBucket = less cur len ∧ q.extendedBucket = less ext len) ∨
      ((police p c).1 = .exceed ∧ len.toNat ≤ ext.toNat ∧ q.currentBucket = cur.setWidth 32 ∧
        q.extendedBucket = less ext len) ∨
      ((police p c).1 = .violate ∧ q.currentBucket = cur.setWidth 32 ∧ q.extendedBucket = ext.setWidth 32) := by
  simp only [police, vnetPolicePacket, if_pos h1]
  split_ifs with hconform hexceed
  · obtain ⟨hcolor, hin⟩ := hconform
    exact .inl ⟨rfl, hcolor, hin, rfl, rfl⟩
  · obtain ⟨-, hin⟩ := hexceed
    exact .inr (.inl ⟨rfl, hin, rfl, rfl⟩)
  · exact .inr (.inr ⟨rfl, rfl, rfl⟩)

/-- The periods since the last call. -/
def periods (p : Policer) (c : Call) : ℕ := (c.time - p.lastUpdateTime).toNat

/-- The tokens that come in do not overflow. -/
def NoOverflow (p : Policer) (c : Call) : Prop :=
  p.currentBucket.toNat + periods p c * p.cirTokensPerPeriod.toNat < 2 ^ 64 ∧
    p.extendedBucket.toNat + periods p c * p.cirTokensPerPeriod.toNat < 2 ^ 64
deriving Decidable

/-- A packet that is to be charged to the current bucket, and is in it, is in the extended bucket as well. -/
def ExtendedCovers (p : Policer) (c : Call) : Prop :=
  p.colorAware = 0 ∨ c.packetColor = .conform →
    scaled p c ≤ min p.currentLimit.toNat (p.currentBucket.toNat + periods p c * p.cirTokensPerPeriod.toNat) →
    scaled p c ≤ min p.extendedLimit.toNat (p.extendedBucket.toNat + periods p c * p.cirTokensPerPeriod.toNat)
deriving Decidable

theorem draws_single_rate (h1 : p.singleRate ≠ 0) (hfit : scaled p c < 2 ^ 32) (hover : NoOverflow p c)
    (hcover : ExtendedCovers p c) : currentOf.Draws p c ∧ extendedOfSingleRate.Draws p c := by
  rcases police_single_rate (c := c) h1 with ⟨hr, hcolor, hin, hcur, hext⟩ | ⟨hr, hin, hcur, hext⟩ |
    ⟨hr, hcur, hext⟩
  · refine ⟨draws_of_less hfit (by simp [currentOf, hr]) hin hcur,
      draws_of_less hfit (by simp [extendedOfSingleRate, hr]) ?_ hext⟩
    have hc : (currentOf.tokens p c).toNat = _ := tokens_eq hover.1
    have he : (extendedOfSingleRate.tokens p c).toNat = _ := tokens_eq hover.2
    rw [toNat_scaled hfit] at hin ⊢
    rw [hc] at hin
    rw [he]
    exact hcover hcolor hin
  · exact ⟨draws_of_kept (by simp [currentOf, hr]) hcur,
      draws_of_less hfit (by simp [extendedOfSingleRate, hr]) hin hext⟩
  · exact ⟨draws_of_kept (by simp [currentOf, hr]) hcur,
      draws_of_kept (by simp [extendedOfSingleRate, hr]) hext⟩

/-- Where no packet conforms that is not in the extended bucket, what conforms and what exceeds is limited in every
    stretch of a run, and each bucket had in it what it was charged. -/
theorem single_rate_limits (calls : List Call) (h1 : p.singleRate ≠ 0) (hfit : ∀ c ∈ calls, scaled p c < 2 ^ 32)
    (htime : calls.Pairwise fun c c' => c.time ≤ c'.time)
    (hok : AllSteps (fun q c => NoOverflow q c ∧ ExtendedCovers q c) (fun q c => (police q c).2) p calls) :
    (∀ first rest, first :: rest <:+: policed p calls →
      lengthsOf p (· = .conform) (first :: rest) ≤
        p.currentLimit.toNat + p.cirTokensPerPeriod.toNat * span first rest ∧
      lengthsOf p (· = .exceed) (first :: rest) ≤
        p.extendedLimit.toNat + p.cirTokensPerPeriod.toNat * span first rest) ∧
    ∀ e ∈ policed p calls,
      e.after.currentBucket.toNat + (if e.result = .conform then scaled p e.call else 0) ≤ p.currentLimit.toNat ∧
      e.after.extendedBucket.toNat + (if e.result ≠ .violate then scaled p e.call else 0) ≤
      p.extendedLimit.toNat := by
  have hsingle {q} (hconf : SameConfig p q) : q.singleRate ≠ 0 := hconf.singleRate ▸ h1
  have hcurrent : currentOf.RunDraws p calls :=
    runDraws_of hok (refl p) hfit fun q c hconf hq ht => (draws_single_rate (hsingle hconf) hq ht.1 ht.2).1
  have hextended : extendedOfSingleRate.RunDraws p calls :=
    runDraws_of hok (refl p) hfit fun q c hconf hq ht => (draws_single_rate (hsingle hconf) hq ht.1 ht.2).2
  refine ⟨fun first rest hw => ⟨?_, ?_⟩, fun e he => ⟨?_, ?_⟩⟩
  · exact window_le configured_currentOf hcurrent htime hw
  · refine le_trans (lengthsOf_mono ?_ _) (window_le configured_extendedOfSingleRate hextended htime hw)
    intro r hr
    simp only [decide_eq_true_eq] at hr
    simp [extendedOfSingleRate, hr]
  · have := fits_of_mem configured_currentOf hcurrent (refl p) e he
    simpa [Use.Fits, use, charge, currentOf] using this
  · have := fits_of_mem configured_extendedOfSingleRate hextended (refl p) e he
    simpa [Use.Fits, use, charge, extendedOfSingleRate] using this

theorem single_rate_limits_two :
    let calls : List Call := [⟨1000, .conform, 10⟩, ⟨1000, .conform, 10⟩]
    (policed (smallPolicer 1) calls).map Policed.result = [.conform, .exceed] ∧
      ∀ first rest, first :: rest <:+: policed (smallPolicer 1) calls →
        lengthsOf (smallPolicer 1) (· = .exceed) (first :: rest) ≤ 2000 + 1 * span first rest := by
  intro calls
  refine ⟨by decide, fun first rest hw => ?_⟩
  exact ((single_rate_limits calls (by decide) (by decide) (by decide) (by decide)).1 first rest hw).2

/-- A packet of 1500 exceeds, one of 1000 conforms, and another one of 1500 exceeds, all at one time: 3000 tokens are
    let through by an extended bucket of 2000. -/
theorem single_rate_exceeds :
    let calls : List Call := [⟨1500, .conform, 0⟩, ⟨1000, .conform, 0⟩, ⟨1500, .conform, 0⟩]
    ∃ first rest, first :: rest <:+: policed (smallPolicer 1) calls ∧ span first rest = 0 ∧
      (smallPolicer 1).extendedLimit.toNat + (smallPolicer 1).cirTokensPerPeriod.toNat * span first rest <
        lengthsOf (smallPolicer 1) (· = .exceed) (first :: rest) :=
  ⟨_, _, infix_rfl, by decide, by decide⟩

end Vpp.Qos
