import Mathlib

/-! Two searches for the hit of the highest priority, a word that is signed or not.

      hits by key    {a, b, c}   {d}   {e, f}
      candidates         b        d      e        one leader of each class
      best                  the greatest of them, as unsigned numbers

    One search goes through all hits and takes the greatest as a signed number (`TopOf`). The other takes the
    signed leader of each class of hits with the same key (`Leads`), and of these candidates the greatest as
    an unsigned number, where a priority of zero never wins (`BestOf`). -/

namespace Vpp.Schemes
open BitVec Option

section
variable {α κ : Type} {w : ℕ} {x : α → BitVec w} {key : α → κ} {hit cand : α → Prop} {r r₀ : Option α}

/-- The result is a hit of the highest signed priority, if there is a hit. -/
def TopOf (x : α → BitVec w) (hit : α → Prop) : Option α → Prop
  | none => ∀ a, ¬ hit a
  | some a => hit a ∧ ∀ b, hit b → (x b).toInt ≤ (x a).toInt

/-- The result is a candidate of the highest unsigned priority, if there is one above zero. -/
def BestOf (x : α → BitVec w) (cand : α → Prop) : Option α → Prop
  | none => ∀ a, cand a → x a = 0
  | some a => cand a ∧ x a ≠ 0 ∧ ∀ b, cand b → x b ≤ x a

/-- A hit of the highest signed priority among those with its key. -/
def Leader (x : α → BitVec w) (key : α → κ) (hit : α → Prop) (c : α) : Prop :=
  hit c ∧ ∀ b, hit b → key b = key c → (x b).toInt ≤ (x c).toInt

/-- The candidates are leaders, one for each class of hits. -/
structure Leads (x : α → BitVec w) (key : α → κ) (hit cand : α → Prop) : Prop where
  leader : ∀ c, cand c → Leader x key hit c
  covers : ∀ a, hit a → ∃ c, cand c ∧ key c = key a

theorem BestOf.congr {cand' : α → Prop} (h : BestOf x cand r) (hiff : ∀ a, cand' a ↔ cand a) :
    BestOf x cand' r := by
  rwa [show cand' = cand from funext fun a => propext (hiff a)]

/-- The leaders of one class have the same priority. -/
theorem Leads.exists_cand (h : Leads x key hit cand) {a : α} (ha : Leader x key hit a) :
    ∃ c, cand c ∧ x c = x a := by
  obtain ⟨c, hc, hkey⟩ := h.covers a ha.1
  have hlead := h.leader c hc
  refine ⟨c, hc, eq_of_toInt_eq (le_antisymm ?_ ?_)⟩
  · exact ha.2 c hlead.1 hkey
  · exact hlead.2 a ha.1 hkey.symm

theorem Leads.best_none (h : Leads x key hit cand) (hbest : BestOf x cand r) :
    r = none ↔ ∀ c, Leader x key hit c → x c = 0 := by
  constructor
  · rintro rfl c hc
    obtain ⟨c', hc', heq⟩ := h.exists_cand hc
    rw [← heq]
    exact hbest c' hc'
  · intro hzero
    cases r with
    | none => rfl
    | some a => exact absurd (hzero a (h.leader a hbest.1)) hbest.2.1

theorem Leads.best_some (h : Leads x key hit cand) (hbest : BestOf x cand r) {v : BitVec w} :
    r.map x = some v ↔
      v ≠ 0 ∧ (∃ c, Leader x key hit c ∧ x c = v) ∧ ∀ c, Leader x key hit c → x c ≤ v := by
  constructor
  · intro hr
    obtain ⟨a, rfl, rfl⟩ := map_eq_some_iff.mp hr
    refine ⟨hbest.2.1, ⟨a, h.leader a hbest.1, rfl⟩, ?_⟩
    intro c hc
    obtain ⟨c', hc', heq⟩ := h.exists_cand hc
    rw [← heq]
    exact hbest.2.2 c' hc'
  · rintro ⟨hv, ⟨c, hc, rfl⟩, hmax⟩
    obtain ⟨c', hc', heq⟩ := h.exists_cand hc
    cases r with
    | none => exact absurd (heq.symm.trans (hbest c' hc')) hv
    | some a =>
      refine congrArg some (BitVec.le_antisymm (hmax a (h.leader a hbest.1)) ?_)
      rw [← heq]
      exact hbest.2.2 c' hc'

/-- A greatest hit leads its class. -/
theorem TopOf.leader {q : α} (h : TopOf x hit (some q)) : Leader x key hit q :=
  ⟨h.1, fun b hb _ => h.2 b hb⟩

/-! ### Signed and unsigned order -/

theorem le_of_toInt_le {a b : BitVec w} (h : a.toInt ≤ b.toInt)
    (hsign : 0 ≤ a.toInt ∨ b.toInt < 0) : a ≤ b := by
  rw [le_def]
  have ha := toInt_eq_toNat_cond a
  have hb := toInt_eq_toNat_cond b
  have := a.isLt
  have := b.isLt
  split at ha <;> split at hb <;> omega

theorem toInt_nonneg_of_le {a b : BitVec w} (h : a ≤ b) (hb : 0 ≤ b.toInt) : 0 ≤ a.toInt := by
  rw [le_def] at h
  have ha' := toInt_eq_toNat_cond a
  have hb' := toInt_eq_toNat_cond b
  have := a.isLt
  have := b.isLt
  split at ha' <;> split at hb' <;> omega

theorem toInt_eq_zero_iff {a : BitVec w} : a.toInt = 0 ↔ a = 0 := by
  constructor
  · intro h
    refine eq_of_toInt_eq ?_
    rw [h]
    exact toInt_zero.symm
  · rintro rfl
    exact toInt_zero

/-- The two searches over the same hits agree on the priority exactly when all hits are negative, or when
    one is positive and every class with a negative hit has one that is not. -/
theorem Leads.agree_iff (h : Leads x key hit cand) (hbest : BestOf x cand r) (htop : TopOf x hit r₀) :
    r.map x = r₀.map x ↔ (∀ a, hit a → (x a).toInt < 0) ∨
      (∃ a, hit a ∧ 0 < (x a).toInt) ∧
        ∀ a, hit a → (x a).toInt < 0 → ∃ b, hit b ∧ key b = key a ∧ 0 ≤ (x b).toInt := by
  cases r₀ with
  | none =>
    refine iff_of_true ?_ (.inl fun a ha => absurd ha (htop a))
    rw [map_none, map_eq_none_iff, h.best_none hbest]
    exact fun c hc => absurd hc.1 (htop c)
  | some q =>
    rw [map_some, h.best_some hbest]
    constructor
    · rintro ⟨hne, -, hmax⟩
      by_cases hneg : (x q).toInt < 0
      · exact .inl fun a ha => lt_of_le_of_lt (htop.2 a ha) hneg
      · have hpos : 0 < (x q).toInt := by
          have := mt toInt_eq_zero_iff.mp hne
          omega
        refine .inr ⟨⟨q, htop.1, hpos⟩, fun a ha _ => ?_⟩
        obtain ⟨c, hc, hkey⟩ := h.covers a ha
        have hlead := h.leader c hc
        exact ⟨c, hlead.1, hkey, toInt_nonneg_of_le (hmax c hlead) (le_of_lt hpos)⟩
    · intro hcond
      -- every leader is below the greatest hit, and not on the other side of zero
      have hside : ∀ c, Leader x key hit c → 0 ≤ (x c).toInt ∨ (x q).toInt < 0 := by
        intro c hc
        rcases hcond with hneg | ⟨-, hclass⟩
        · exact .inr (hneg q htop.1)
        · by_contra hboth
          push Not at hboth
          obtain ⟨b, hb, hkey, hge⟩ := hclass c hc.1 hboth.1
          exact absurd (hc.2 b hb hkey) (by omega)
      refine ⟨?_, ⟨q, htop.leader, rfl⟩, fun c hc => le_of_toInt_le (htop.2 c hc.1) (hside c hc)⟩
      intro hzero
      have hz := toInt_eq_zero_iff.mpr hzero
      rcases hcond with hneg | ⟨⟨a, ha, hpos⟩, -⟩
      · exact absurd (hneg q htop.1) (by omega)
      · exact absurd (htop.2 a ha) (by omega)

end

end Vpp.Schemes
