import Vpp.Nat.Sessions

/-! The flow hash and the sessions agree.

        live session  <->  its two matches in the flow hash, with its thread and index

    A creation keeps the agreement if it writes and deletes at the matches of its own session only, and no other session
    is found there (`Consistent.create`). -/

namespace Vpp.Nat
open Vpp.Schemes Function List Pool Tables

/-- Every live session is found under both of its matches, and whatever session is found is live and has the match. -/
structure Consistent (tb : Tables) : Prop where
  i2o : ∀ t i s, tb.session? t i = some s → tb.flowHash s.i2o.edK = some (.session t i)
  o2i : ∀ t i s, tb.session? t i = some s → tb.flowHash s.o2i.edK = some (.session t i)
  owned : ∀ k t i, tb.flowHash k = some (.session t i) →
    ∃ s, tb.session? t i = some s ∧ (k = s.i2o.edK ∨ k = s.o2i.edK)

/-- No session is found under the key. -/
def Clear (h : FlowHash) (k : EdKey) : Prop := ∀ t i, h k ≠ some (.session t i)

/-! ### Deletion -/

theorem delFlows_eq (h : FlowHash) (t i : ℕ) (s : SnatSession) :
    delFlows h t i s = update (update h s.i2o.edK none) s.o2i.edK none := by
  simp [delFlows, natEdSesI2oFlowHashAddDel, natEdSesO2iFlowHashAddDel, FlowHash.addDel]

variable {k : EdKey} {s : SnatSession}

theorem delFlows_of_ne (h : FlowHash) (t i : ℕ) (hi2o : k ≠ s.i2o.edK)
    (ho2i : k ≠ s.o2i.edK) : delFlows h t i s k = h k := by
  rw [delFlows_eq, update_of_ne ho2i, update_of_ne hi2o]

theorem delFlows_own (h : FlowHash) (t i : ℕ) (hk : k = s.i2o.edK ∨ k = s.o2i.edK) :
    delFlows h t i s k = none := by
  rw [delFlows_eq]
  by_cases ho2i : k = s.o2i.edK
  · rw [ho2i, update_self]
  · rw [update_of_ne ho2i, hk.resolve_right ho2i, update_self]

/-- An entry that is left after a deletion was there before, under another key. -/
theorem delFlows_eq_some {h : FlowHash} {t i : ℕ} {e : FlowEntry} (hk : delFlows h t i s k = some e) : k ≠
    s.i2o.edK ∧ k ≠ s.o2i.edK ∧ h k = some e := by
  have hown : ¬(k = s.i2o.edK ∨ k = s.o2i.edK) := by
    intro hown
    rw [delFlows_own h t i hown] at hk
    cases hk
  rw [not_or] at hown
  rw [delFlows_of_ne h t i hown.1 hown.2] at hk
  exact ⟨hown.1, hown.2, hk⟩

theorem freeSession_flowHash {tb : Tables} {t i : ℕ} (hs : tb.session? t i = some s) :
    (freeSession tb t i).flowHash = delFlows tb.flowHash t i s := by
  funext k
  rw [freeSession, hs]
  by_cases hk : k = s.i2o.edK ∨ k = s.o2i.edK
  · rw [delFlows_own _ t i hk]
    exact delFlows_own _ t i hk
  · rw [not_or] at hk
    exact delFlows_of_ne _ t i hk.1 hk.2

theorem session?_freeSession (tb : Tables) (t i t' i' : ℕ) :
    (freeSession tb t i).session? t' i' = if (t', i') = (t, i) then none else tb.session? t' i' := by
  rw [freeSession]
  cases hs : tb.session? t i with
  | none =>
    split_ifs with heq
    · cases heq
      exact hs
    · rfl
  | some s =>
    rw [session?]
    by_cases ht : t' = t
    · subst ht
      simp [natEdSessionDelete, nat44EdFreeSessionData, get?_put hs, session?]
    · simp [natEdSessionDelete, nat44EdFreeSessionData, ht, session?]

namespace Consistent
variable {tb : Tables}

/-- Two live sessions do not share a match. -/
theorem key_ne (h : Consistent tb) {t i t' i' : ℕ} {s' : SnatSession}
    (hs : tb.session? t i = some s) (hs' : tb.session? t' i' = some s') (hne : (t', i') ≠ (t, i))
    (hk : k = s.i2o.edK ∨ k = s.o2i.edK) :
    k ≠ s'.i2o.edK ∧ k ≠ s'.o2i.edK := by
  have hentry : tb.flowHash k = some (.session t i) := by
    rcases hk with rfl | rfl
    · exact h.i2o t i s hs
    · exact h.o2i t i s hs
  constructor
  · rintro rfl
    rw [h.i2o t' i' s' hs'] at hentry
    cases hentry
    exact hne rfl
  · rintro rfl
    rw [h.o2i t' i' s' hs'] at hentry
    cases hentry
    exact hne rfl

theorem free (h : Consistent tb) (t i : ℕ) : Consistent (freeSession tb t i) := by
  cases hs : tb.session? t i with
  | none =>
    rw [freeSession, hs]
    exact h
  | some s =>
    have hlive (t' i' : ℕ) (s' : SnatSession) (hs' : (freeSession tb t i).session? t' i' = some s') :
        (t', i') ≠ (t, i) ∧ tb.session? t' i' = some s' := by
      rw [session?_freeSession] at hs'
      split_ifs at hs' with heq
      exact ⟨heq, hs'⟩
    refine ⟨?_, ?_, ?_⟩
    · intro t' i' s' hs'
      obtain ⟨hne, hs'⟩ := hlive t' i' s' hs'
      obtain ⟨hi2o, ho2i⟩ := h.key_ne hs' hs hne.symm (.inl rfl)
      rw [freeSession_flowHash hs, delFlows_of_ne _ t i hi2o ho2i]
      exact h.i2o t' i' s' hs'
    · intro t' i' s' hs'
      obtain ⟨hne, hs'⟩ := hlive t' i' s' hs'
      obtain ⟨hi2o, ho2i⟩ := h.key_ne hs' hs hne.symm (.inr rfl)
      rw [freeSession_flowHash hs, delFlows_of_ne _ t i hi2o ho2i]
      exact h.o2i t' i' s' hs'
    · intro k t' i' hk
      rw [freeSession_flowHash hs] at hk
      obtain ⟨hi2o, ho2i, hk⟩ := delFlows_eq_some hk
      obtain ⟨s', hs', hown⟩ := h.owned k t' i' hk
      have hne : (t', i') ≠ (t, i) := by
        intro heq
        cases heq
        cases hs.symm.trans hs'
        rcases hown with rfl | rfl
        · exact hi2o rfl
        · exact ho2i rfl
      exact ⟨s', by rw [session?_freeSession, if_neg hne, hs'], hown⟩

theorem lru (h : Consistent tb) (t : ℕ) (expired : Option ℕ) : Consistent (natLruFreeOne tb t expired) := by
  cases expired with
  | none => exact h
  | some i => exact h.free t i

end Consistent

/-- A deletion adds no entry. -/
theorem freeSession_flowHash_eq_some {tb : Tables} {t i : ℕ} {e : FlowEntry}
    (hk : (freeSession tb t i).flowHash k = some e) : tb.flowHash k = some e := by
  cases hs : tb.session? t i with
  | none => rwa [freeSession, hs] at hk
  | some s =>
    rw [freeSession_flowHash hs] at hk
    exact (delFlows_eq_some hk).2.2

/-! ### Creation -/

/-- `h'` comes from `h` by writing one session under some keys where no session is found. -/
structure Writes (h : FlowHash) (t i : ℕ) (ks : List EdKey) (h' : FlowHash) : Prop where
  clear : ∀ k ∈ ks, Clear h k
  own : ∀ k ∈ ks, ∀ t' i', h' k = some (.session t' i') → (t', i') = (t, i)
  frame : ∀ k, k ∉ ks → h' k = h k

namespace Writes
variable {h h' : FlowHash} {t i : ℕ} {ks : List EdKey}

theorem refl (hclear : ∀ k ∈ ks, Clear h k) : Writes h t i ks h :=
  ⟨hclear, fun k hk t' i' hentry => absurd hentry (hclear k hk t' i'), fun _ _ => rfl⟩

theorem cons (hw : Writes h t i ks h') (hk : Clear h k) : Writes h t i (k :: ks) h' := by
  refine ⟨forall_mem_cons.mpr ⟨hk, hw.clear⟩, forall_mem_cons.mpr ⟨?_, hw.own⟩, ?_⟩
  · intro t' i' hentry
    by_cases hmem : k ∈ ks
    · exact hw.own k hmem t' i' hentry
    · rw [hw.frame k hmem] at hentry
      exact absurd hentry (hk t' i')
  · intro k' hk'
    exact hw.frame k' fun hmem => hk' (mem_cons_of_mem _ hmem)

theorem update (hw : Writes h t i ks h') (hk : k ∈ ks) {e : Option FlowEntry}
    (he : e = none ∨ e = some (.session t i)) : Writes h t i ks (update h' k e) := by
  refine ⟨hw.clear, ?_, ?_⟩
  · intro k' hk' t' i' hentry
    by_cases heq : k' = k
    · subst heq
      rw [update_self] at hentry
      rcases he with rfl | rfl <;> cases hentry
      rfl
    · rw [update_of_ne heq] at hentry
      exact hw.own k' hk' t' i' hentry
  · intro k' hk'
    have hne : k' ≠ k := by
      rintro rfl
      exact hk' hk
    rw [update_of_ne hne]
    exact hw.frame k' hk'

end Writes

/-- What a creation may do with the flow hash: it writes under the matches of its session, and has written both if it
    succeeds. -/
structure Fills (h : FlowHash) (t i : ℕ) (f : Filled) : Prop where
  writes : Writes h t i [f.session.i2o.edK, f.session.o2i.edK] f.flowHash
  done_i2o : f.ok → f.flowHash f.session.i2o.edK = some (.session t i)
  done_o2i : f.ok → f.flowHash f.session.o2i.edK = some (.session t i)

namespace Fills
variable {h : FlowHash} {t i : ℕ} {f : Filled}

theorem frame (hf : Fills h t i f) (hi2o : k ≠ f.session.i2o.edK) (ho2i : k ≠ f.session.o2i.edK) :
    f.flowHash k = h k :=
  hf.writes.frame k (by simp [hi2o, ho2i])

/-- Other sessions are found as before. -/
theorem other (hf : Fills h t i f) {t' i' : ℕ} (hk : h k = some (.session t' i')) :
    k ≠ f.session.i2o.edK ∧ k ≠ f.session.o2i.edK ∧ f.flowHash k = some (.session t' i') := by
  have hnot : k ∉ [f.session.i2o.edK, f.session.o2i.edK] := fun hmem => hf.writes.clear k hmem t' i' hk
  refine ⟨?_, ?_, (hf.writes.frame k hnot).trans hk⟩
  · rintro rfl
    exact hnot mem_cons_self
  · rintro rfl
    exact hnot (mem_cons_of_mem _ (mem_singleton_self _))

end Fills

/-- What a creation comes to, after an expired session has been freed. -/
theorem createSession_cases (tb : Tables) (t : ℕ) (expired : Option ℕ) (fill : FlowHash → ℕ → Filled) :
    ∃ i f, (natLruFreeOne tb t expired).session? t i = none ∧ fill (natLruFreeOne tb t expired).flowHash i = f ∧
      ((f.ok = true ∧ (createSession tb t expired fill).flowHash = f.flowHash ∧
        ∀ t' i', (createSession tb t expired fill).session? t' i' =
          if (t', i') = (t, i) then some f.session else (natLruFreeOne tb t expired).session? t' i') ∨
      (f.ok = false ∧ (createSession tb t expired fill).flowHash = delFlows f.flowHash t i f.session ∧
        ∀ t' i', (createSession tb t expired fill).session? t' i' =
          (natLruFreeOne tb t expired).session? t' i')) := by
  set lru := natLruFreeOne tb t expired with hlru
  have hget := (lru.sessions t).get?_alloc .zero
  set new := (lru.sessions t).alloc .zero
  have hlive : new.1.get? new.2 = some .zero := by rw [hget, if_pos rfl]
  refine ⟨new.2, _, get?_alloc_index _ _, rfl, ?_⟩
  cases hok : (fill lru.flowHash new.2).ok with
  | true =>
    have heq : createSession tb t expired fill =
        { sessions := update (update lru.sessions t new.1) t
            ((update lru.sessions t new.1 t).set new.2
              (fill lru.flowHash new.2).session)
          flowHash := (fill lru.flowHash new.2).flowHash } := if_pos hok
    refine .inl ⟨rfl, by rw [heq], ?_⟩
    intro t' i'
    rw [heq, session?]
    by_cases ht : t' = t
    · subst ht
      simp only [update_self, get?_set hlive, hget, Prod.mk.injEq, true_and]
      split_ifs <;> rfl
    · simp [ht, session?]
  | false =>
    have heq : createSession tb t expired fill =
        natEdSessionDelete
          { sessions := update lru.sessions t new.1
            flowHash := (fill lru.flowHash new.2).flowHash }
          t new.2 (fill lru.flowHash new.2).session :=
      if_neg (by rw [Bool.not_eq_true]; exact hok)
    refine .inr ⟨rfl, by rw [heq]; rfl, ?_⟩
    intro t' i'
    rw [heq, session?]
    by_cases ht : t' = t
    · subst ht
      simp only [natEdSessionDelete, update_self]
      exact get?_alloc_put _ _ _
    · simp [natEdSessionDelete, ht, session?]

/-- A creation that keeps to its own matches keeps the agreement, whether it succeeds or not. -/
theorem Consistent.create {tb : Tables} {t : ℕ} {expired : Option ℕ} {fill : FlowHash → ℕ → Filled}
    (h : Consistent tb)
    (hfill : ∀ i, Fills (natLruFreeOne tb t expired).flowHash t i (fill (natLruFreeOne tb t expired).flowHash i)) :
    Consistent (createSession tb t expired fill) := by
  have hlru := h.lru t expired
  obtain ⟨i, f, hfresh, rfl, hcases⟩ := createSession_cases tb t expired fill
  have hf := hfill i
  rcases hcases with ⟨hok, hhash, hsession⟩ | ⟨-, hhash, hsession⟩
  · refine ⟨?_, ?_, ?_⟩
    · intro t' i' s' hs'
      rw [hsession] at hs'
      rw [hhash]
      split_ifs at hs' with hnew
      · cases hnew
        cases hs'
        exact hf.done_i2o hok
      · exact (hf.other (hlru.i2o t' i' s' hs')).2.2
    · intro t' i' s' hs'
      rw [hsession] at hs'
      rw [hhash]
      split_ifs at hs' with hnew
      · cases hnew
        cases hs'
        exact hf.done_o2i hok
      · exact (hf.other (hlru.o2i t' i' s' hs')).2.2
    · intro k t' i' hk
      rw [hhash] at hk
      rw [hsession]
      split_ifs with hnew
      · refine ⟨_, rfl, ?_⟩
        by_contra hown
        rw [not_or] at hown
        rw [hf.frame hown.1 hown.2] at hk
        obtain ⟨s', hs', -⟩ := hlru.owned k t' i' hk
        cases hnew
        rw [hfresh] at hs'
        cases hs'
      · rw [hf.writes.frame k fun hown => hnew (hf.writes.own k hown t' i' hk)] at hk
        exact hlru.owned k t' i' hk
  · refine ⟨?_, ?_, ?_⟩
    · intro t' i' s' hs'
      rw [hsession] at hs'
      obtain ⟨hi2o, ho2i, hk⟩ := hf.other (hlru.i2o t' i' s' hs')
      rw [hhash, delFlows_of_ne _ t _ hi2o ho2i, hk]
    · intro t' i' s' hs'
      rw [hsession] at hs'
      obtain ⟨hi2o, ho2i, hk⟩ := hf.other (hlru.o2i t' i' s' hs')
      rw [hhash, delFlows_of_ne _ t _ hi2o ho2i, hk]
    · intro k t' i' hk
      rw [hhash] at hk
      obtain ⟨hi2o, ho2i, hk⟩ := delFlows_eq_some hk
      rw [hf.frame hi2o ho2i] at hk
      rw [hsession]
      exact hlru.owned k t' i' hk

end Vpp.Nat
