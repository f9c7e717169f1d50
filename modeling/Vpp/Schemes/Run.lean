import Mathlib

/-! Finite runs of a deterministic system, and the invariant rule for them.

    A system is a function `step s i` of a state and an input; a run consumes a list of inputs one at
    a time. `AllSteps ok` says that every step of a run is taken where `ok` allows it, and whatever an
    allowed step keeps, such a run keeps (`run_inv`). Since every prefix of a run is a run, a fact about
    the last state of every run is a fact about every state reached.

    A system whose steps can fail is run until the first failure (`runM`), with the same rule for what
    the runs that did not fail have kept (`runM_inv`). -/

namespace Vpp.Schemes
open List

variable {σ ι : Type*} {ok : σ → ι → Prop} {step : σ → ι → σ} {is : List ι} {s : σ} {P : σ → Prop}

/-- The state after the inputs `is`. -/
def run (step : σ → ι → σ) (s : σ) (is : List ι) : σ := is.foldl step s

/-- Each input of the run meets `ok` in the state it is consumed in. -/
def AllSteps (ok : σ → ι → Prop) (step : σ → ι → σ) : σ → List ι → Prop
  | _, [] => True
  | s, i :: is => ok s i ∧ AllSteps ok step (step s i) is

instance AllSteps.decidable [∀ s i, Decidable (ok s i)] :
    ∀ s is, Decidable (AllSteps ok step s is)
  | _, [] => isTrue trivial
  | s, i :: is =>
    haveI := AllSteps.decidable (step s i) is
    inferInstanceAs (Decidable (ok s i ∧ AllSteps ok step (step s i) is))

theorem AllSteps.of_forall (h : ∀ s i, ok s i) : ∀ (is : List ι) (s : σ), AllSteps ok step s is
  | [], _ => trivial
  | i :: is, s => ⟨h s i, AllSteps.of_forall h is (step s i)⟩

theorem allSteps_append {js : List ι} :
    AllSteps ok step s (is ++ js) ↔ AllSteps ok step s is ∧ AllSteps ok step (run step s is) js := by
  induction is generalizing s with
  | nil => exact (and_iff_right trivial).symm
  | cons i is ih => exact (and_congr_right fun _ => ih).trans and_assoc.symm

/-- An invariant of the allowed steps is an invariant of every run made of them. -/
theorem run_inv (hstep : ∀ s i, P s → ok s i → P (step s i)) (h : AllSteps ok step s is)
    (hs : P s) : P (run step s is) := by
  induction is generalizing s with
  | nil => exact hs
  | cons i is ih => exact ih h.2 (hstep s i hs h.1)

/-- One party of a system, whose inputs `own` tells from the others: what holds before its inputs `mine`, and goes on
    with the rest of them after each while the others keep it, has nothing left to do after a run with these inputs. -/
theorem run_own {κ : Type*} {own : ι → Option κ} {I : List κ → σ → Prop}
    (hown : ∀ s i c mine, own i = some c → I (c :: mine) s → I mine (step s i))
    (hother : ∀ s i mine, own i = none → I mine s → I mine (step s i)) (h : I (is.filterMap own) s) :
    I [] (run step s is) := by
  induction is generalizing s with
  | nil => exact h
  | cons i is ih =>
    cases hi : own i with
    | none => exact ih (hother s i _ hi (by rwa [filterMap_cons_none hi] at h))
    | some c => exact ih (hown s i c _ hi (by rwa [filterMap_cons_some hi] at h))

/-! ### Steps that can fail -/

section
variable {ε : Type*} {stepM : σ → ι → Except ε σ}

/-- The state after the inputs `is`, or the first failure. -/
def runM (stepM : σ → ι → Except ε σ) : σ → List ι → Except ε σ
  | s, [] => .ok s
  | s, i :: is =>
    match stepM s i with
    | .ok t => runM stepM t is
    | .error e => .error e

/-- Each input that the run gets to meets `ok` in the state it is consumed in. -/
def AllStepsM (ok : σ → ι → Prop) (stepM : σ → ι → Except ε σ) : σ → List ι → Prop
  | _, [] => True
  | s, i :: is => ok s i ∧
    match stepM s i with
    | .ok t => AllStepsM ok stepM t is
    | .error _ => True

instance AllStepsM.decidable [∀ s i, Decidable (ok s i)] :
    ∀ s is, Decidable (AllStepsM ok stepM s is)
  | _, [] => isTrue trivial
  | s, i :: is =>
    have : Decidable (match stepM s i with | .ok t => AllStepsM ok stepM t is | .error _ => True) :=
      match stepM s i with
      | .ok t => AllStepsM.decidable t is
      | .error _ => isTrue trivial
    inferInstanceAs (Decidable (ok s i ∧ _))

theorem AllStepsM.of_forall (h : ∀ s i, ok s i) : ∀ (is : List ι) (s : σ), AllStepsM ok stepM s is
  | [], _ => trivial
  | i :: is, s => by
    refine ⟨h s i, ?_⟩
    split
    · exact AllStepsM.of_forall h is _
    · trivial

/-- An invariant of the allowed steps that return holds after every run of them that returns. -/
theorem runM_inv (hstep : ∀ s i t, P s → ok s i → stepM s i = .ok t → P t) {t : σ}
    (h : AllStepsM ok stepM s is) (hs : P s) (hrun : runM stepM s is = .ok t) : P t := by
  induction is generalizing s with
  | nil => cases hrun; exact hs
  | cons i is ih =>
    rw [runM] at hrun
    obtain ⟨hok, hrest⟩ := h
    cases hres : stepM s i with
    | ok s' =>
      rw [hres] at hrun hrest
      exact ih hrest (hstep s i s' hs hok hres) hrun
    | error e => rw [hres] at hrun; cases hrun

/-- Where every allowed step returns and keeps the invariant, every run of them returns and keeps it. -/
theorem runM_total_of_allSteps (hstep : ∀ s i, P s → ok s i → ∃ t, stepM s i = .ok t ∧ P t)
    (h : AllStepsM ok stepM s is) (hs : P s) : ∃ t, runM stepM s is = .ok t ∧ P t := by
  induction is generalizing s with
  | nil => exact ⟨s, rfl, hs⟩
  | cons i is ih =>
    obtain ⟨hok, hrest⟩ := h
    obtain ⟨s₁, hi, hs₁⟩ := hstep s i hs hok
    rw [hi] at hrest
    obtain ⟨t, hrun, ht⟩ := ih hrest hs₁
    exact ⟨t, by rw [runM, hi]; exact hrun, ht⟩

/-- Where it depends on the input alone whether a step is allowed. -/
theorem AllStepsM.of_mem {okInput : ι → Prop} (h : ∀ i ∈ is, okInput i) (s : σ) :
    AllStepsM (fun _ i => okInput i) stepM s is := by
  induction is generalizing s with
  | nil => trivial
  | cons i is ih =>
    refine ⟨h i mem_cons_self, ?_⟩
    split
    · exact ih (fun j hj => h j (mem_cons_of_mem i hj)) _
    · trivial

theorem runM_total {okInput : ι → Prop}
    (hstep : ∀ s i, P s → okInput i → ∃ t, stepM s i = .ok t ∧ P t) (h : ∀ i ∈ is, okInput i)
    (hs : P s) : ∃ t, runM stepM s is = .ok t ∧ P t :=
  runM_total_of_allSteps hstep (AllStepsM.of_mem h s) hs

/-- A run in two parts. -/
theorem runM_append {t : σ} {js : List ι} (h : runM stepM s is = .ok t) :
    runM stepM s (is ++ js) = runM stepM t js := by
  induction is generalizing s with
  | nil => cases h; rfl
  | cons i is ih =>
    rw [runM] at h
    rw [cons_append, runM]
    cases hi : stepM s i with
    | ok s₁ => rw [hi] at h; exact ih h
    | error e => rw [hi] at h; cases h

/-- What is observed of a run that returns. -/
theorem exists_of_runM_map {ω : Type*} {obs : σ → ω} {o : ω} (h : (runM stepM s is).map obs = .ok o) : ∃ t,
    runM stepM s is = .ok t ∧ obs t = o := by
  cases hrun : runM stepM s is with
  | ok t =>
    rw [hrun] at h
    cases h
    exact ⟨t, rfl, rfl⟩
  | error e => rw [hrun] at h; cases h

end

end Vpp.Schemes
