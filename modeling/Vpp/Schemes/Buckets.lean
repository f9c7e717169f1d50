import Mathlib

/-! A table of buckets over a store of objects, each bucket ordered by descending priority.

      key a ──▶ [i, j, k]        obj i, obj j, obj k have this key,  prio (obj i) ≥ prio (obj j) ≥ ..

    `Bucketed` says that the table files exactly the given objects, each in the bucket of its own key. An
    object is filed by putting it in front of the first one of no higher priority, and taken out without
    disturbing the order of the others; no empty bucket is kept. -/

namespace Vpp.Schemes
open List Function

section
variable {α κ ρ : Type} {obj obj' : ℕ → Option α} {prio : α → ρ}

/-- The objects at the given indices stand in descending order of priority. -/
def Descending [LE ρ] (obj : ℕ → Option α) (prio : α → ρ) (ids : List ℕ) : Prop :=
  ids.Pairwise fun i j => ∀ a b, obj i = some a → obj j = some b → prio b ≤ prio a

variable [LinearOrder ρ] {ids l₁ l₂ : List ℕ} {i : ℕ} {a : α}

theorem Descending.congr (h : Descending obj prio ids) (hobj : ∀ i ∈ ids, obj' i = obj i) :
    Descending obj' prio ids := by
  refine List.Pairwise.imp_of_mem ?_ h
  intro i j hi hj hij a b ha hb
  rw [hobj i hi] at ha
  rw [hobj j hj] at hb
  exact hij a b ha hb

/-- A new object goes behind those of higher and in front of the first one of no higher priority. -/
theorem Descending.insert (h : Descending obj prio (l₁ ++ l₂)) (hlive : ∀ j ∈ l₁ ++ l₂, (obj j).isSome)
    (hi : obj i = some a) (hbefore : ∀ j ∈ l₁, ∀ b, obj j = some b → prio a ≤ prio b)
    (hhead : ∀ j ∈ l₂.head?, ∀ b, obj j = some b → prio b ≤ prio a) :
    Descending obj prio (l₁ ++ i :: l₂) := by
  obtain ⟨h1, h2, h12⟩ := pairwise_append.mp h
  have hafter : ∀ j ∈ l₂, ∀ b, obj j = some b → prio b ≤ prio a := by
    cases l₂ with
    | nil => intro j hj; cases hj
    | cons k ks =>
      intro j hj b hb
      rcases mem_cons.mp hj with rfl | hmem
      · exact hhead j rfl b hb
      · obtain ⟨c, hc⟩ := Option.isSome_iff_exists.mp (hlive k (by simp))
        exact le_trans (rel_of_pairwise_cons h2 hmem c b hc hb) (hhead k rfl c hc)
  refine pairwise_append.mpr ⟨h1, pairwise_cons.mpr ⟨?_, h2⟩, ?_⟩
  · intro j hj a' b ha hb
    rw [hi] at ha
    cases ha
    exact hafter j hj b hb
  · intro j hj k hk b c hb hc
    rcases mem_cons.mp hk with rfl | hmem
    · rw [hi] at hc
      cases hc
      exact hbefore j hj b hb
    · exact h12 j hj k hmem b c hb hc

theorem Descending.sublist (h : Descending obj prio ids) {ids' : List ℕ} (hsub : ids'.Sublist ids) :
    Descending obj prio ids' := List.Pairwise.sublist hsub h

/-- The first of the objects that pass a test has the highest priority among them. -/
theorem Descending.first_le (h : Descending obj prio (l₁ ++ i :: l₂)) (hi : obj i = some a) {j : ℕ} {b : α}
    (hj : j ∈ l₁ ++ i :: l₂) (hb : obj j = some b) (hskip : j ∉ l₁) : prio b ≤ prio a := by
  obtain ⟨-, h2, -⟩ := pairwise_append.mp h
  rcases mem_append.mp hj with hmem | hmem
  · exact absurd hmem hskip
  · rcases mem_cons.mp hmem with rfl | htail
    · rw [hi] at hb
      cases hb
      exact le_refl _
    · exact rel_of_pairwise_cons h2 htail a b hi hb

/-! ### The table -/

/-- The table files the members, each in the bucket of its key. -/
structure Bucketed (obj : ℕ → Option α) (key : α → κ) (prio : α → ρ) (table : κ → Option (List ℕ))
    (member : ℕ → Prop) : Prop where
  bucket : ∀ k ids, table k = some ids → ids ≠ [] ∧ ids.Nodup ∧ Descending obj prio ids
  sound : ∀ k ids i, table k = some ids → i ∈ ids → member i ∧ ∃ a, obj i = some a ∧ key a = k
  complete : ∀ i, member i → ∃ a ids, obj i = some a ∧ table (key a) = some ids ∧ i ∈ ids

variable {key : α → κ} {table : κ → Option (List ℕ)} {member member' : ℕ → Prop}

theorem Bucketed.empty (hnone : ∀ i, ¬ member i) : Bucketed obj key prio (fun _ : κ => none) member := by
  refine ⟨?_, ?_, fun i hi => absurd hi (hnone i)⟩
  · intro k ids h
    cases h
  · intro k ids i h
    cases h

/-- Objects that are not members may change. -/
theorem Bucketed.congr (h : Bucketed obj key prio table member) (hobj : ∀ i, member i → obj' i = obj i)
    (hmem : ∀ i, member' i ↔ member i) : Bucketed obj' key prio table member' := by
  constructor
  · intro k ids hids
    obtain ⟨hne, hnodup, hdesc⟩ := h.bucket k ids hids
    exact ⟨hne, hnodup, hdesc.congr fun i hi => hobj i (h.sound k ids i hids hi).1⟩
  · intro k ids i hids hi
    obtain ⟨hm, a, ha, hk⟩ := h.sound k ids i hids hi
    exact ⟨(hmem i).mpr hm, a, by rw [hobj i hm]; exact ha, hk⟩
  · intro i hi
    obtain ⟨a, ids, ha, hids, hmem'⟩ := h.complete i ((hmem i).mp hi)
    exact ⟨a, ids, by rw [hobj i ((hmem i).mp hi)]; exact ha, hids, hmem'⟩

/-- The key may be computed in another way. -/
theorem Bucketed.key_congr {key' : α → κ} (h : Bucketed obj key prio table member)
    (hkey : ∀ i a, member i → obj i = some a → key' a = key a) : Bucketed obj key' prio table member := by
  refine ⟨h.bucket, ?_, ?_⟩
  · intro k ids i hids hi
    obtain ⟨hm, a, ha, rfl⟩ := h.sound k ids i hids hi
    exact ⟨hm, a, ha, hkey i a hm ha⟩
  · intro i hi
    obtain ⟨a, ids, ha, hids, hmem⟩ := h.complete i hi
    exact ⟨a, ids, ha, by rw [hkey i a hi ha]; exact hids, hmem⟩

variable [DecidableEq κ]

/-- A new object is filed at its place in the bucket of its key, which may be new. -/
theorem Bucketed.insert (h : Bucketed obj key prio table member) (hfresh : ¬ member i)
    (hi : obj' i = some a) (hobj : ∀ j, member j → obj' j = obj j)
    (hsplit : (table (key a)).getD [] = l₁ ++ l₂)
    (hbefore : ∀ j ∈ l₁, ∀ b, obj' j = some b → prio a ≤ prio b)
    (hhead : ∀ j ∈ l₂.head?, ∀ b, obj' j = some b → prio b ≤ prio a)
    (hmem : ∀ j, member' j ↔ j = i ∨ member j) :
    Bucketed obj' key prio (update table (key a) (some (l₁ ++ i :: l₂))) member' := by
  -- what is known of the old bucket, empty or not
  have hold : ∀ j ∈ l₁ ++ l₂, member j ∧ ∃ b, obj j = some b ∧ key b = key a := by
    intro j hj
    rw [← hsplit] at hj
    cases hids : table (key a) with
    | none => rw [hids] at hj; cases hj
    | some ids => rw [hids] at hj; exact h.sound _ ids j hids hj
  have hnodup : (l₁ ++ l₂).Nodup ∧ Descending obj prio (l₁ ++ l₂) := by
    rw [← hsplit]
    cases hids : table (key a) with
    | none => exact ⟨nodup_nil, List.Pairwise.nil⟩
    | some ids => exact (h.bucket _ ids hids).2
  have hnot : i ∉ l₁ ++ l₂ := fun hin => hfresh (hold i hin).1
  have hperm : (l₁ ++ i :: l₂).Perm (i :: (l₁ ++ l₂)) := perm_middle
  constructor
  · intro k ids hk
    by_cases hka : k = key a
    · subst hka
      rw [update_self] at hk
      cases hk
      refine ⟨by simp, hperm.nodup_iff.mpr (nodup_cons.mpr ⟨hnot, hnodup.1⟩), ?_⟩
      refine (hnodup.2.congr fun j hj => hobj j (hold j hj).1).insert ?_ hi hbefore hhead
      intro j hj
      obtain ⟨hm, b, hb, -⟩ := hold j hj
      rw [hobj j hm, hb]; rfl
    · rw [update_of_ne hka] at hk
      obtain ⟨hne, hnd, hdesc⟩ := h.bucket k ids hk
      exact ⟨hne, hnd, hdesc.congr fun j hj => hobj j (h.sound k ids j hk hj).1⟩
  · intro k ids j hk hj
    by_cases hka : k = key a
    · subst hka
      rw [update_self] at hk
      cases hk
      rcases mem_cons.mp (hperm.mem_iff.mp hj) with rfl | hmem'
      · exact ⟨(hmem j).mpr (Or.inl rfl), a, hi, rfl⟩
      · obtain ⟨hm, b, hb, hkey⟩ := hold j hmem'
        exact ⟨(hmem j).mpr (Or.inr hm), b, by rw [hobj j hm]; exact hb, hkey⟩
    · rw [update_of_ne hka] at hk
      obtain ⟨hm, b, hb, hkey⟩ := h.sound k ids j hk hj
      exact ⟨(hmem j).mpr (Or.inr hm), b, by rw [hobj j hm]; exact hb, hkey⟩
  · intro j hj
    rcases (hmem j).mp hj with rfl | hm
    · exact ⟨a, _, hi, update_self .., by simp⟩
    · obtain ⟨b, ids, hb, hids, hin⟩ := h.complete j hm
      by_cases hkb : key b = key a
      · refine ⟨b, _, by rw [hobj j hm]; exact hb, by rw [hkb, update_self], ?_⟩
        rw [hkb] at hids
        rw [hids, Option.getD_some] at hsplit
        exact hperm.mem_iff.mpr (mem_cons_of_mem i (by rw [← hsplit]; exact hin))
      · exact ⟨b, ids, by rw [hobj j hm]; exact hb, by rw [update_of_ne hkb]; exact hids, hin⟩

/-- An object is taken out of its bucket; the last one takes the bucket with it. -/
theorem Bucketed.remove (h : Bucketed obj key prio table member) {k : κ}
    (hids : table k = some (l₁ ++ i :: l₂)) (hobj : ∀ j, member j → j ≠ i → obj' j = obj j)
    (hmem : ∀ j, member' j ↔ member j ∧ j ≠ i) :
    Bucketed obj' key prio
      (update table k (if (l₁ ++ i :: l₂).length = 1 then none else some (l₁ ++ l₂))) member' := by
  obtain ⟨-, hnodup, hdesc⟩ := h.bucket k _ hids
  have hperm : (l₁ ++ i :: l₂).Perm (i :: (l₁ ++ l₂)) := perm_middle
  obtain ⟨hnot, hnodup'⟩ := nodup_cons.mp (hperm.nodup_iff.mp hnodup)
  have hlen : (l₁ ++ i :: l₂).length = 1 ↔ l₁ ++ l₂ = [] := by
    rw [hperm.length_eq, length_cons, ← length_eq_zero_iff]; omega
  have hne : ∀ j ∈ l₁ ++ l₂, j ≠ i := by rintro j hj rfl; exact hnot hj
  have hin : ∀ j ∈ l₁ ++ l₂, j ∈ l₁ ++ i :: l₂ := fun j hj => hperm.mem_iff.mpr (mem_cons_of_mem i hj)
  -- what is found in the new table was found in the old one
  have hfrom : ∀ k' ids j, update table k
      (if (l₁ ++ i :: l₂).length = 1 then none else some (l₁ ++ l₂)) k' = some ids → j ∈ ids →
      j ≠ i ∧ ∃ ids', table k' = some ids' ∧ j ∈ ids' := by
    intro k' ids j hk hj
    by_cases hkk : k' = k
    · subst hkk
      rw [update_self] at hk
      split at hk
      · cases hk
      · cases hk
        exact ⟨hne j hj, _, hids, hin j hj⟩
    · rw [update_of_ne hkk] at hk
      refine ⟨?_, ids, hk, hj⟩
      rintro rfl
      obtain ⟨-, b, hb, hkb⟩ := h.sound k' ids j hk hj
      obtain ⟨-, c, hc, hkc⟩ := h.sound k _ j hids (by simp)
      rw [hb] at hc
      cases hc
      exact hkk (hkb.symm.trans hkc)
  constructor
  · intro k' ids hk
    by_cases hkk : k' = k
    · subst hkk
      rw [update_self] at hk
      split at hk
      · cases hk
      · next hl =>
        cases hk
        refine ⟨fun hnil => hl (hlen.mpr hnil), hnodup', ?_⟩
        have hsub : (l₁ ++ l₂).Sublist (l₁ ++ i :: l₂) := (sublist_cons_self i l₂).append_left l₁
        refine (hdesc.sublist hsub).congr fun j hj => ?_
        exact hobj j (h.sound k' _ j hids (hin j hj)).1 (hne j hj)
    · rw [update_of_ne hkk] at hk
      obtain ⟨hnil, hnd, hd⟩ := h.bucket k' ids hk
      refine ⟨hnil, hnd, hd.congr fun j hj => hobj j (h.sound k' ids j hk hj).1 ?_⟩
      exact (hfrom k' ids j (by rw [update_of_ne hkk]; exact hk) hj).1
  · intro k' ids j hk hj
    obtain ⟨hji, ids', hids', hj'⟩ := hfrom k' ids j hk hj
    obtain ⟨hm, b, hb, hkb⟩ := h.sound k' ids' j hids' hj'
    exact ⟨(hmem j).mpr ⟨hm, hji⟩, b, by rw [hobj j hm hji]; exact hb, hkb⟩
  · intro j hj
    obtain ⟨hm, hji⟩ := (hmem j).mp hj
    obtain ⟨b, ids, hb, hb', hin'⟩ := h.complete j hm
    by_cases hkb : key b = k
    · subst hkb
      rw [hids] at hb'
      cases hb'
      have hmem' : j ∈ l₁ ++ l₂ := (mem_cons.mp (hperm.mem_iff.mp hin')).resolve_left hji
      refine ⟨b, l₁ ++ l₂, by rw [hobj j hm hji]; exact hb, ?_, hmem'⟩
      rw [update_self, if_neg]
      intro hl
      rw [hlen.mp hl] at hmem'
      cases hmem'
    · exact ⟨b, ids, by rw [hobj j hm hji]; exact hb, by rw [update_of_ne hkb]; exact hb', hin'⟩

end

end Vpp.Schemes
