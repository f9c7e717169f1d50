import Vpp.Nat.Flows

/-! The flow table over whole runs of packets and deletions.

    Each of the five ways to create a session writes at matches that are made from the packet (`NatStep.keys`). As long
    as no other session is found at these (`Undisputed`), every state is consistent. The code looks before it writes in
    some places only, and takes `i2o.match` from the wrong flow in one: two packets of an unknown protocol from outside
    are enough to lose an entry. -/

namespace Vpp.Nat
open Vpp.Schemes List Function Fills Option NatStep Writes

/-! ### What each creation writes -/

section
variable {h h' : FlowHash} {t i : ℕ} {s : SnatSession}

/-- One of the two matches is written, or not, and the session is found at the other one. -/
theorem Fills.of_add {ok : Bool} {k : EdKey} (hw : Writes h t i [s.i2o.edK, s.o2i.edK] h')
    (hk : k ∈ [s.i2o.edK, s.o2i.edK]) (hin : ∀ j ∈ [s.i2o.edK, s.o2i.edK], j = k ∨ h' j = some (.session t i)) :
    Fills h t i ⟨ok, s, bif ok then update h' k (some (.session t i)) else h'⟩ := by
  cases ok with
  | false => exact ⟨hw, nofun, nofun⟩
  | true =>
    have hfound (j : EdKey) (hj : j ∈ [s.i2o.edK, s.o2i.edK]) :
        update h' k (some (.session t i)) j = some (.session t i) := by
      rw [update_apply]
      split_ifs with heq
      · rfl
      · exact (hin j hj).resolve_left heq
    exact ⟨hw.update hk (Or.inr rfl), fun _ => hfound _ mem_cons_self, fun _ => hfound _ (by simp)⟩

/-- A session whose `o2i` is in place gets its `i2o`. -/
theorem Fills.of_i2o {fails : Bool} {r : Bool × FlowHash} (hw : Writes h t i [s.o2i.edK] h')
    (ho2i : h' s.o2i.edK = some (.session t i)) (hi2o : Clear h s.i2o.edK)
    (hr : natEdSesI2oFlowHashAddDel h' fails t i s .add = r) :
    Fills h t i { ok := r.1, session := s, flowHash := r.2 } := by
  obtain ⟨ok, h''⟩ := r
  obtain rfl := natEdSesI2oFlowHashAddDel_add hr
  exact of_add (hw.cons hi2o) mem_cons_self (by simp [ho2i])

/-- A session whose `i2o` is in place gets its `o2i`. -/
theorem Fills.of_o2i {fails : Bool} {r : Bool × FlowHash} (hw : Writes h t i [s.i2o.edK] h')
    (hi2o : h' s.i2o.edK = some (.session t i)) (ho2i : Clear h s.o2i.edK)
    (hr : natEdSesO2iFlowHashAddDel h' fails t i s .add = r) :
    Fills h t i { ok := r.1, session := s, flowHash := r.2 } := by
  have hboth : Writes h t i [s.i2o.edK, s.o2i.edK] h' := by
    have hswap := hw.cons ho2i
    refine ⟨fun k hk => hswap.clear k ?_, fun k hk => hswap.own k ?_, fun k hk => hswap.frame k ?_⟩
    · simpa [or_comm] using hk
    · simpa [or_comm] using hk
    · simpa [and_comm] using hk
  obtain ⟨ok, h''⟩ := r
  obtain rfl := natEdSesO2iFlowHashAddDel_add (by decide) hr
  exact of_add hboth (by simp) (by simp [hi2o])

/-- A creation that gives up before it has written anything. -/
theorem Fills.of_failed (hw : Writes h t i [s.o2i.edK] h') (hi2o : Clear h s.i2o.edK) :
    Fills h t i { ok := false, session := s, flowHash := h' } :=
  ⟨hw.cons hi2o, nofun, nofun⟩

theorem Writes.single {k : EdKey} (hk : Clear h k) : Writes h t i [k] h :=
  .refl fun _ hk' => mem_singleton.mp hk' ▸ hk

theorem Writes.single_update {k : EdKey} (hk : Clear h k) :
    Writes h t i [k] (Function.update h k (some (.session t i))) :=
  (single hk).update (mem_singleton_self _) (Or.inr rfl)

theorem SlowPathEd.fillDynamic_fills (p : SlowPathEd) (hzero : Clear h zeroTuple.edK)
    (hplaceholder : Clear h p.placeholder.edK) (hi2o : Clear h p.i2o.edK) : Fills h t i (p.fillDynamic t h i) := by
  rw [SlowPathEd.fillDynamic]
  rcases natEdAllocAddrAndPort_cases p.sm h p.rxFibIndex p.txSwIfIndex p.proto t i p.lAddr p.rAddr
    (p.sm.snatThreadIndex t) (s := { SnatSession.zero with o2i := p.placeholder }) rfl p.lPort p.chance _ rfl with
    ⟨addr, port, hgranted⟩ | hrefused
  · -- the tuple that was granted is new, so no session is found there
    have hclear : Clear h _ := fun t' i' hentry => by
      rw [hgranted.absent] at hentry
      cases hentry
    have hw := single_update (t := t) (i := i) hclear
    rw [← hgranted.flowHash] at hw
    simp only [hgranted.outside, isSome_some, if_true]
    refine of_i2o hw ?_ hi2o rfl
    rw [hgranted.flowHash]
    exact update_self _ _ _
  · simp only [hrefused.outside, isSome_none]
    refine of_failed ?_ ?_
    · rw [hrefused.flowHash, hrefused.o2i]
      exact .single hplaceholder
    · rw [hrefused.i2o]
      exact hzero

theorem SlowPathEd.fillStatic_fills (p : SlowPathEd) {smAddr : BitVec 32} {smPort : BitVec 16}
    (hzero : Clear h zeroTuple.edK) (ho2i : Clear h (p.o2iOfMapping smAddr smPort).edK) (hi2o : Clear h p.i2o.edK) :
    Fills h t i (p.fillStatic smAddr smPort t h i) := by
  simp only [SlowPathEd.fillStatic]
  split
  · next h' hadd =>
    obtain rfl := natEdSesO2iFlowHashAddDel_add (by decide) hadd
    exact of_i2o (single_update ho2i) (update_self _ _ _) hi2o rfl
  · next h' hadd =>
    obtain rfl := natEdSesO2iFlowHashAddDel_add (by decide) hadd
    exact of_failed (.single ho2i) hzero

/-- The matches that twice-NAT tries: up to the first one that the hash takes. -/
def ForStaticMapping.drawKeys (c : ForStaticMapping) (t : ℕ) (a : SnatAddress) :
    ℕ → (ℕ → Chance) → List EdKey
  | 0, _ => []
  | attempts + 1, chance =>
    (c.i2oOfDraw t a (chance 0).rwide).edK ::
      if (chance 0).fails then drawKeys c t a attempts (fun k => chance (k + 1)) else []

theorem ForStaticMapping.nat44EdAllocI2oPort_fills (c : ForStaticMapping) {a : SnatAddress}
    (attempts : ℕ) (chance : ℕ → Chance) (hw : Writes h t i [s.o2i.edK] h')
    (ho2i : h' s.o2i.edK = some (.session t i)) (hi2o : Clear h s.i2o.edK)
    (hdraws : ∀ k ∈ c.drawKeys t a attempts chance, Clear h k) :
    Fills h t i (c.nat44EdAllocI2oPort h' t i a attempts chance s) := by
  induction attempts generalizing chance s with
  | zero => exact of_failed hw hi2o
  | succ attempts ih =>
    obtain ⟨hfirst, hrest⟩ := forall_mem_cons.mp hdraws
    rcases hadd : natEdSesI2oFlowHashAddDel h' (chance 0).fails t i
      { s with i2o := c.i2oOfDraw t a (chance 0).rwide } .add with ⟨ok, h''⟩
    simp only [ForStaticMapping.nat44EdAllocI2oPort, hadd]
    have hfills := of_i2o (s := { s with i2o := c.i2oOfDraw t a (chance 0).rwide }) hw ho2i hfirst hadd
    cases ok with
    | true => exact hfills
    | false =>
      -- the hash took nothing, which is when the next draw is tried
      have hfails := natEdSesI2oFlowHashAddDel_fails hadd
      obtain rfl := natEdSesI2oFlowHashAddDel_add hadd
      exact ih _ hw ho2i hfirst (by rwa [if_pos hfails] at hrest)

/-- The matches that a creation for a static mapping tries for `i2o`. -/
def ForStaticMapping.i2oKeys (c : ForStaticMapping) (t : ℕ) : List EdKey :=
  if c.twice then
    match c.exactTwiceNatAddress.or c.twiceNatPick with
    | some a => c.drawKeys t a edPortAllocAttempts c.chance
    | none => []
  else [c.i2o.edK]

theorem ForStaticMapping.fill_fills (c : ForStaticMapping) (hzero : Clear h zeroTuple.edK) (ho2i : Clear h c.o2i.edK)
    (hi2o : ∀ k ∈ c.i2oKeys t, Clear h k) : Fills h t i (c.fill t h i) := by
  simp only [ForStaticMapping.fill]
  split
  · next h' hadd =>
    obtain rfl := natEdSesO2iFlowHashAddDel_add (by decide) hadd
    exact of_failed (.single ho2i) hzero
  · next h' hadd =>
    obtain rfl := natEdSesO2iFlowHashAddDel_add (by decide) hadd
    have hw := single_update (t := t) (i := i) ho2i
    rw [ForStaticMapping.i2oKeys] at hi2o
    split_ifs at hi2o ⊢ with htwice
    · cases hexact : c.exactTwiceNatAddress with
      | some a =>
        rw [hexact] at hi2o
        exact c.nat44EdAllocI2oPort_fills _ _ hw (update_self _ _ _) hzero hi2o
      | none =>
        dsimp only
        rw [ForStaticMapping.nat44EdAllocI2oAddrAndPort]
        rw [hexact, Option.none_or] at hi2o
        cases hpick : c.twiceNatPick with
        | none => exact of_failed hw hzero
        | some a =>
          rw [hpick] at hi2o
          exact c.nat44EdAllocI2oPort_fills _ _ hw (update_self _ _ _) hzero hi2o
    · have hclear := hi2o _ (mem_singleton_self _)
      split
      · next h'' hadd' =>
        exact of_i2o (s := { SnatSession.zero with i2o := c.i2o, o2i := c.o2i, staticMapping := true }) hw
          (update_self _ _ _) hclear hadd'
      · next h'' hadd' =>
        obtain rfl := natEdSesI2oFlowHashAddDel_add hadd'
        refine of_failed ?_ hclear
        simp only [natEdSesO2iFlowHashAddDel, FlowHash.addDel, ne_eq, not_true, false_and, if_false]
        exact hw.update (mem_singleton_self _) (Or.inl rfl)

theorem In2outUnknown.fill_fills (u : In2outUnknown) (hi2o : Clear h u.i2o.edK) (ho2i : Clear h u.o2i.edK) :
    Fills h t i (u.fill t h i) := by
  simp only [In2outUnknown.fill]
  split
  · next h' hadd =>
    obtain rfl := natEdSesI2oFlowHashAddDel_add hadd
    exact of_failed (.single ho2i) hi2o
  · next h' hadd =>
    obtain rfl := natEdSesI2oFlowHashAddDel_add hadd
    exact of_o2i (single_update hi2o) (update_self _ _ _) ho2i rfl

theorem Out2inUnknown.fill_fills (u : Out2inUnknown) {mFibIndex : BitVec 32} (hzero : Clear h zeroTuple.edK)
    (hfirst : Clear h (u.o2iFirst mFibIndex).edK) (ho2i : Clear h u.o2i.edK) :
    Fills h t i (u.fill mFibIndex t h i) := by
  simp only [Out2inUnknown.fill]
  split
  · next h' hadd =>
    obtain rfl := natEdSesI2oFlowHashAddDel_add hadd
    exact of_failed (.single hfirst) hzero
  · next h' hadd =>
    obtain rfl := natEdSesI2oFlowHashAddDel_add hadd
    exact of_o2i (single_update hzero) (update_self _ _ _) ho2i rfl

end

/-! ### Steps -/

theorem slowPathEd_cases (tb : Tables) (t : ℕ) (p : SlowPathEd) :
    slowPathEd tb t p = tb ∨ slowPathEd tb t p = p.belowMaximum tb t ∨
    (p.staticMatch = .none ∧
      slowPathEd tb t p = createSession (p.belowMaximum tb t) t p.expired (p.fillDynamic t)) ∨
    (∃ smAddr smPort, p.staticMatch = .mapped smAddr smPort ∧
      slowPathEd tb t p = createSession (p.belowMaximum tb t) t p.expired (p.fillStatic smAddr smPort t)) := by
  rw [slowPathEd]
  cases p.staticMatch <;> split_ifs <;> simp

/-- The keys that a step may write or delete under, whatever happens on its way. -/
def NatStep.keys : NatStep → List EdKey
  | .slowPath _ p =>
    match p.staticMatch with
    | .identity => []
    | .none => [zeroTuple.edK, p.placeholder.edK, p.i2o.edK]
    | .mapped smAddr smPort => [zeroTuple.edK, (p.o2iOfMapping smAddr smPort).edK, p.i2o.edK]
  | .forStaticMapping t c => zeroTuple.edK :: c.o2i.edK :: c.i2oKeys t
  | .in2outUnknown _ u => [u.i2o.edK, u.o2i.edK]
  | .out2inUnknown _ u =>
    match u.mapping with
    | none => []
    | some mFibIndex => [zeroTuple.edK, (u.o2iFirst mFibIndex).edK, u.o2i.edK]
  | .delete _ _ => []

/-- The expired sessions that a step frees, and the session of a deletion. -/
def NatStep.freed : NatStep → List (ℕ × ℕ)
  | .slowPath t p => (if p.exceeded then p.expiredAtMaximum.toList ++
      p.expired.toList else p.expired.toList).map (t, ·)
  | .forStaticMapping t c => c.expired.toList.map (t, ·)
  | .in2outUnknown t u => u.expired.toList.map (t, ·)
  | .out2inUnknown t u => u.expired.toList.map (t, ·)
  | .delete t i => [(t, i)]

/-- The session found under a key. -/
def FlowHash.sessionAt (h : FlowHash) (k : EdKey) : Option (ℕ × ℕ) :=
  match h k with
  | some (.session t i) => some (t, i)
  | _ => none

theorem FlowHash.sessionAt_eq_some {h : FlowHash} {k : EdKey} {t i : ℕ} :
    h.sessionAt k = some (t, i) ↔ h k = some (.session t i) := by
  rw [FlowHash.sessionAt]
  split <;> simp_all

/-- Under the keys of the step no session is found but one that the step frees. -/
def Undisputed (tb : Tables) (e : NatStep) : Prop :=
  ∀ k ∈ e.keys, ∀ ti ∈ tb.flowHash.sessionAt k, ti ∈ e.freed

-- one key of the list after the other; the type of keys is finite too, but too large to go through
instance (tb : Tables) (e : NatStep) : Decidable (Undisputed tb e) :=
  @List.decidableBAll _ _
  (fun k => inferInstanceAs (Decidable (∀ ti ∈ tb.flowHash.sessionAt k, ti ∈ e.freed))) e.keys

/-- One table comes from another by freeing sessions. -/
structure FreedOnly (tb tb' : Tables) (freed : List (ℕ × ℕ)) : Prop where
  consistent : Consistent tb'
  entries : ∀ k e, tb'.flowHash k = some e → tb.flowHash k = some e
  gone : ∀ ti ∈ freed, tb'.session? ti.1 ti.2 = none
  kept : ∀ t i, (t, i) ∉ freed → tb'.session? t i = tb.session? t i

namespace FreedOnly
variable {tb tb' tb'' : Tables} {freed freed' : List (ℕ × ℕ)} {expired : Option ℕ}

theorem refl (h : Consistent tb) : FreedOnly tb tb [] :=
  ⟨h, fun _ _ hk => hk, fun _ hti => absurd hti not_mem_nil, fun _ _ _ => rfl⟩

section

variable (h : FreedOnly tb tb' freed)
include h

theorem freeSession (t i : ℕ) :
    FreedOnly tb (freeSession tb' t i) (freed ++ [(t, i)]) := by
  refine ⟨h.consistent.free t i, fun k e hk => h.entries k e (freeSession_flowHash_eq_some hk), ?_, ?_⟩
  · rintro ⟨t', i'⟩ hti
    rw [session?_freeSession]
    split_ifs with heq
    · rfl
    · rcases mem_append.mp hti with hti | hti
      · exact h.gone _ hti
      · exact absurd (mem_singleton.mp hti) heq
  · intro t' i' hti
    rw [mem_append, not_or, mem_singleton] at hti
    rw [session?_freeSession, if_neg hti.2]
    exact h.kept t' i' hti.1

theorem lru (t : ℕ) (expired : Option ℕ) :
    FreedOnly tb (natLruFreeOne tb' t expired) (freed ++ expired.toList.map (t, ·)) := by
  cases expired with
  | none => simpa [natLruFreeOne] using h
  | some i => exact h.freeSession t i

/-- An undisputed key is clear once the sessions are freed. -/
theorem clear {k : EdKey} (hk : ∀ ti ∈ tb.flowHash.sessionAt k, ti ∈ freed) :
    Clear tb'.flowHash k := by
  intro t i hentry
  have hmem := hk (t, i) (FlowHash.sessionAt_eq_some.mpr (h.entries k _ hentry))
  obtain ⟨s, hs, -⟩ := h.consistent.owned k t i hentry
  rw [h.gone _ hmem] at hs
  cases hs

/-- Sessions are freed, and then one may be created. -/
theorem create {t : ℕ} {fill : FlowHash → ℕ → Filled} {ks : List EdKey}
    (hks : ∀ k ∈ ks, ∀ ti ∈ tb.flowHash.sessionAt k, ti ∈ freed ++ expired.toList.map (t, ·))
    (hfill : ∀ h' i, (∀ k ∈ ks, Clear h' k) → Fills h' t i (fill h' i)) :
    Consistent (createSession tb' t expired fill) :=
  h.consistent.create fun i => hfill _ i fun k hk => (h.lru t expired).clear (hks k hk)

end

end FreedOnly

open FreedOnly

variable {tb : Tables}

/-- A step that finds its keys undisputed keeps the tables consistent. -/
theorem Consistent.exec (h : Consistent tb) {e : NatStep} (he : Undisputed tb e) :
    Consistent (e.exec tb) := by
  cases e with
  | slowPath t p =>
    obtain ⟨freed, hfreed, heq⟩ : ∃ freed, FreedOnly tb (p.belowMaximum tb t) freed ∧
        freed ++ p.expired.toList.map (t, ·) = (slowPath t p).freed := by
      rw [SlowPathEd.belowMaximum]
      split_ifs with hexceeded
      · exact ⟨_, (refl h).lru t _, by simp [freed, hexceeded]⟩
      · exact ⟨_, refl h, by simp [freed, hexceeded]⟩
    rw [Undisputed, ← heq] at he
    rcases slowPathEd_cases tb t p with hexec | hexec | ⟨hmatch, hexec⟩ | ⟨smAddr, smPort, hmatch, hexec⟩ <;>
      rw [NatStep.exec, hexec]
    · exact h
    · exact hfreed.consistent
    · refine hfreed.create he fun h' i hclear => ?_
      simp only [NatStep.keys, hmatch, forall_mem_cons] at hclear
      exact p.fillDynamic_fills hclear.1 hclear.2.1 hclear.2.2.1
    · refine hfreed.create he fun h' i hclear => ?_
      simp only [NatStep.keys, hmatch, forall_mem_cons] at hclear
      exact p.fillStatic_fills hclear.1 hclear.2.1 hclear.2.2.1
  | forStaticMapping t c =>
    rw [NatStep.exec, createSessionForStaticMappingEd]
    split_ifs
    · exact h
    · refine (refl h).create he fun h' i hclear => ?_
      simp only [NatStep.keys, forall_mem_cons] at hclear
      exact c.fill_fills hclear.1 hclear.2.1 hclear.2.2
  | in2outUnknown t u =>
    rw [NatStep.exec, nat44EdIn2outSlowpathUnknownProto]
    split_ifs
    · exact h
    · refine (refl h).create he fun h' i hclear => ?_
      simp only [NatStep.keys, forall_mem_cons] at hclear
      exact u.fill_fills hclear.1 hclear.2.1
  | out2inUnknown t u =>
    rw [NatStep.exec, nat44EdOut2inSlowpathUnknownProto]
    split_ifs
    · exact h
    · rw [Undisputed, NatStep.keys] at he
      cases hmapping : u.mapping with
      | none => exact h
      | some mFibIndex =>
        rw [hmapping] at he
        refine (refl h).create he fun h' i hclear => ?_
        simp only [forall_mem_cons] at hclear
        exact u.fill_fills hclear.1 hclear.2.1 hclear.2.2.1
  | delete t i => exact h.free t i

/-! ### Sessions that a step does not free -/

theorem session?_natLruFreeOne {t t' i' : ℕ} (hs : tb.session? t' i' = some s)
    (hne : (t', i') ∉ expired.toList.map (t, ·)) :
    (natLruFreeOne tb t expired).session? t' i' = some s := by
  cases expired with
  | none => exact hs
  | some i =>
    have hne : (t', i') ≠ (t, i) := by simpa using hne
    rw [natLruFreeOne, session?_freeSession, if_neg hne, hs]

/-- A creation leaves every session alone that it does not free. -/
theorem session?_createSession {t t' i' : ℕ} {fill : FlowHash → ℕ → Filled}
    (hs : tb.session? t' i' = some s) (hne : (t', i') ∉ expired.toList.map (t, ·)) :
    (createSession tb t expired fill).session? t' i' = some s := by
  have hlru := session?_natLruFreeOne hs hne
  obtain ⟨i, f, hfresh, -, hcases⟩ := createSession_cases tb t expired fill
  rcases hcases with ⟨-, -, hsession⟩ | ⟨-, -, hsession⟩
  · have hold : (t', i') ≠ (t, i) := by
      intro heq
      cases heq
      rw [hfresh] at hlru
      cases hlru
    rw [hsession, if_neg hold, hlru]
  · rw [hsession, hlru]

theorem session?_exec {e : NatStep} {t' i' : ℕ} (hs : tb.session? t' i' = some s)
    (hne : (t', i') ∉ e.freed) : (e.exec tb).session? t' i' = some s := by
  cases e with
  | slowPath t p =>
    have hmax : (t', i') ∉ p.expired.toList.map (t, ·) ∧
        (p.exceeded = true → (t', i') ∉ p.expiredAtMaximum.toList.map (t, ·)) := by
      rw [freed] at hne
      split_ifs at hne with hexceeded
      · rw [map_append, mem_append, not_or] at hne
        exact ⟨hne.2, fun _ => hne.1⟩
      · exact ⟨hne, fun h => absurd h hexceeded⟩
    have hbelow : (p.belowMaximum tb t).session? t' i' = some s := by
      rw [SlowPathEd.belowMaximum]
      split_ifs with hexceeded
      · exact session?_natLruFreeOne hs (hmax.2 hexceeded)
      · exact hs
    rcases slowPathEd_cases tb t p with hexec | hexec | ⟨-, hexec⟩ | ⟨_, _, -, hexec⟩ <;> rw [exec, hexec]
    · exact hs
    · exact hbelow
    · exact session?_createSession hbelow hmax.1
    · exact session?_createSession hbelow hmax.1
  | forStaticMapping t c =>
    rw [exec, createSessionForStaticMappingEd]
    split_ifs
    · exact hs
    · exact session?_createSession hs hne
  | in2outUnknown t u =>
    rw [exec, nat44EdIn2outSlowpathUnknownProto]
    split_ifs
    · exact hs
    · exact session?_createSession hs hne
  | out2inUnknown t u =>
    rw [exec, nat44EdOut2inSlowpathUnknownProto]
    split_ifs
    · exact hs
    · cases u.mapping with
      | none => exact hs
      | some mFibIndex => exact session?_createSession hs hne
  | delete t i =>
    rw [exec, session?_freeSession, if_neg (by simpa [freed] using hne), hs]

/-! ### Runs -/

/-- No session yet; the flow hash may hold static mappings. -/
def Tables.start (h : FlowHash) : Tables := { sessions := fun _ => .empty, flowHash := h }

theorem Consistent.start {h : FlowHash} (hstatic : ∀ k, Clear h k) : Consistent (Tables.start h) := by
  refine ⟨?_, ?_, fun k t i hk => absurd hk (hstatic k t i)⟩ <;>
    · intro t i s hs
      cases hs

/-- In every run whose steps find their keys undisputed, every live session is found under both of its matches, every
    session that is found is live, and a step leaves the entries of every session that it does not free. -/
theorem flowTable_consistent {h₀ : FlowHash} (hstatic : ∀ k, Clear h₀ k) {steps : List NatStep}
    (hundisputed : AllSteps Undisputed exec (.start h₀) steps) (tb : Tables)
    (htb : run exec (.start h₀) steps = tb) :
    (∀ t i s, tb.session? t i = some s →
      tb.flowHash s.i2o.edK = some (.session t i) ∧ tb.flowHash s.o2i.edK = some (.session t i)) ∧
    (∀ k t i, tb.flowHash k = some (.session t i) → (tb.session? t i).isSome) ∧
    (∀ front last, steps = front ++ [last] → ∀ t i s,
      (run exec (.start h₀) front).session? t i = some s → (t, i) ∉ last.freed →
      tb.session? t i = some s ∧ tb.flowHash s.i2o.edK = some (.session t i) ∧
      tb.flowHash s.o2i.edK = some (.session t i)) := by
  have hcons : Consistent tb :=
    htb ▸ run_inv (fun _ _ h he => h.exec he) hundisputed (Consistent.start hstatic)
  have hfound (t i : ℕ) (s : SnatSession) (hs : tb.session? t i = some s) :=
    And.intro (hcons.i2o t i s hs) (hcons.o2i t i s hs)
  refine ⟨hfound, ?_, ?_⟩
  · intro k t i hk
    obtain ⟨s, hs, -⟩ := hcons.owned k t i hk
    exact isSome_iff_exists.mpr ⟨s, hs⟩
  · rintro front last rfl t i s hs hne
    have hlast : tb.session? t i = some s := by
      rw [← htb, run, foldl_append]
      exact session?_exec hs hne
    exact ⟨hlast, hfound t i s hlast⟩

/-! A dynamic session and one for a static mapping with twice-NAT, on two threads; then the first is deleted. -/

def twoThreadMain : SnatMain :=
  { twoWorkersSet with twiceNatAddresses :=
      [{ addr := 8, net := 0, swIfIndex := 3, fibIndex := BitVec.allOnes 32, addrLen := BitVec.allOnes 32 }] }

def dynamicPacket : SlowPathEd where
  sm := twoThreadMain
  lAddr := 10
  rAddr := 20
  lPort := hostToNetU16 5000
  rPort := hostToNetU16 53
  proto := 17
  rxFibIndex := 0
  txSwIfIndex := BitVec.allOnes 32
  txFibIndex := 0
  exceeded := false
  nonSyn := false
  staticMatch := .none
  externalSm := none
  expiredAtMaximum := none
  expired := none
  chance := fun k => ⟨BitVec.ofNat 32 k, false⟩
  o2iFails := false
  i2oFails := false

def twiceNatCall : ForStaticMapping where
  sm := twoThreadMain
  i2oAddr := 11
  i2oPort := hostToNetU16 80
  i2oFibIndex := 0
  o2iAddr := 7
  o2iPort := hostToNetU16 33280
  o2iFibIndex := 0
  proto := 17
  srcAddress := 21
  ipProtocol := 17
  l4SrcPort := hostToNetU16 6000
  exceeded := false
  expired := none
  twiceNat := .twiceNat
  exactAddress := none
  chance := fun k => ⟨BitVec.ofNat 32 k, false⟩
  o2iFails := false
  i2oFails := false

def threeSteps : List NatStep := [.slowPath 1 dynamicPacket, .forStaticMapping 2 twiceNatCall, .delete 1 0]

theorem mappingHash_clear (m : SnatStaticMapping) (k : EdKey) : Clear (mappingHash m) k := by
  intro t i hk
  rw [mappingHash, update_apply] at hk
  split_ifs at hk
  cases hk

theorem flowTable_consistent_three :
    (run exec (.start (mappingHash oneMapping)) threeSteps).session? 1 0 = none ∧
    ((run exec (.start (mappingHash oneMapping)) threeSteps).session? 2 0).isSome ∧
    ∀ s ∈ (run exec (.start (mappingHash oneMapping)) threeSteps).session? 2 0,
      (run exec (.start (mappingHash oneMapping)) threeSteps).flowHash s.i2o.edK = some (.session 2 0) := by
  have hundisputed : AllSteps Undisputed exec (.start (mappingHash oneMapping)) threeSteps := by decide +kernel
  refine ⟨by decide +kernel, by decide +kernel, fun s hs => ?_⟩
  exact ((flowTable_consistent (mappingHash_clear oneMapping) hundisputed _ rfl).1 2 0 s hs).1

/-- A packet of protocol 47 for the mapped address 7, from a given source. -/
def grePacket (srcAddress : BitVec 32) : Out2inUnknown where
  srcAddress := srcAddress
  dstAddress := 7
  proto := 47
  rxFibIndex := 0
  exceeded := false
  mapping := some 0
  expired := none
  i2oFails := false
  o2iFails := false

/-- The mapping of address 7 for protocol 47. -/
def greHash : FlowHash := update (fun _ => none) (nat44EdSmInitO2iK 7 0 0 47) (some (.staticMapping 0))

/-- Of two packets of an unknown protocol from different sources, the second takes over the entry of the first. Once
    the first session is deleted, the second is left without the entry. -/
theorem flowTable_out2in_loses :
    let tb := run exec (.start greHash) [.out2inUnknown 1 (grePacket 20), .out2inUnknown 1 (grePacket 21)]
    let tb' := exec tb (.delete 1 0)
    (∃ s, tb.session? 1 0 = some s ∧ tb.flowHash s.i2o.edK = some (.session 1 1)) ∧
    (∃ s, tb'.session? 1 1 = some s ∧ tb'.flowHash s.i2o.edK = none) :=
  ⟨⟨{ i2o := zeroTuple, o2i := (grePacket 20).o2i, staticMapping := true }, by decide +kernel⟩,
    ⟨{ i2o := zeroTuple, o2i := (grePacket 21).o2i, staticMapping := true }, by decide +kernel⟩⟩

end Vpp.Nat
