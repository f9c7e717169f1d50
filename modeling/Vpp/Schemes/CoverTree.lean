import Mathlib

/-! A tree of items in which every item hangs below the items that are above it in an order.

        next i   the children of i, all strictly below it, none of them below another

    Where the items above any item form a chain (`Chained`), following the children that are above a given item leads to
    it (`descend`), and the tree can be kept so: a new item goes below the least item above it and takes over the
    children that it is above; the children of an item that is removed go to its parent. -/

namespace Vpp.Schemes
open List

variable {ι α : Type*} [PartialOrder α]

/-- The items are arranged below one another as the order has them. -/
structure CoverTree (item : ι → Option α) (next : ι → List ι) (root : ι) : Prop where
  top : ∃ a, item root = some a ∧ ∀ i b, item i = some b → b ≤ a
  inj : ∀ i j a, item i = some a → item j = some a → i = j
  child : ∀ i a j, item i = some a → j ∈ next i → ∃ b, item j = some b ∧ b < a
  descend : ∀ i a j b, item i = some a → item j = some b → b < a →
    ∃ k ∈ next i, ∃ c, item k = some c ∧ b ≤ c
  apart : ∀ i a j b k c, item i = some a → j ∈ next i → k ∈ next i → item j = some b →
    item k = some c → b ≤ c → j = k
  nodup : ∀ i a, item i = some a → (next i).Nodup

/-- The items above an item form a chain. -/
def Chained (item : ι → Option α) : Prop :=
  ∀ i j k a b c, item i = some a → item j = some b → item k = some c → a ≤ b →
    a ≤ c → b ≤ c ∨ c ≤ b

namespace CoverTree
variable {item item' : ι → Option α} {next next' : ι → List ι} {root : ι} (h : CoverTree item next root)
include h

/-- An item is the child of one other item at most. -/
theorem parent_unique (hchain : Chained item) {i i' j : ι} {a a' : α} (hi : item i = some a) (hi' : item i' = some a')
    (hj : j ∈ next i) (hj' : j ∈ next i') : i = i' := by
  -- two parents would be one below the other, with another child between the upper one and `j`
  have hbetween : ∀ {i i' : ι} {a a' : α}, item i = some a → item i' = some a' →
    j ∈ next i → j ∈ next i' →
      a ≤ a' → i = i' := by
    intro i i' a a' hi hi' hj hj' hle
    rcases hle.eq_or_lt with rfl | hlt
    · exact h.inj i i' a hi hi'
    · obtain ⟨b, hb, hba⟩ := h.child i a j hi hj
      obtain ⟨k, hk, c, hc, hac⟩ := h.descend i' a' i a hi' hi hlt
      cases h.apart i' a' j b k c hi' hj' hk hb hc (hba.le.trans hac)
      cases hb.symm.trans hc
      exact absurd hac hba.not_ge
  obtain ⟨b, hb, hba⟩ := h.child i a j hi hj
  obtain ⟨b', hb', hba'⟩ := h.child i' a' j hi' hj'
  cases hb.symm.trans hb'
  rcases hchain j i i' b a a' hb hi hi' hba.le hba'.le with hle | hle
  · exact hbetween hi hi' hj hj' hle
  · exact (hbetween hi' hi hj' hj hle).symm

/-- No child above `x`: then `p` is the least item above it. -/
theorem le_of_no_child (hchain : Chained item') (hold : ∀ i a, item i = some a → item' i = some a) {n p r : ι}
    {x a b : α} (hn : item' n = some x) (hp : item p = some a) (hxa : x ≤ a)
    (hleast : ∀ k ∈ next p, ∀ c, item k = some c → ¬ x ≤ c) (hr : item r = some b)
    (hxb : x ≤ b) : a ≤ b := by
  rcases hchain n p r x a b hn (hold p a hp) (hold r b hr) hxa hxb with hle | hle
  · exact hle
  · rcases hle.eq_or_lt with rfl | hlt
    · exact le_rfl
    · obtain ⟨k, hk, c, hc, hbc⟩ := h.descend p a r b hp hr hlt
      exact absurd (hxb.trans hbc) (hleast k hk c hc)

/-- A new item, with the children of its parent that it is above. -/
theorem insert (hchain : Chained item') {n p : ι} {x a : α} (hn : item n = none) (hp : item p = some a) (hxa : x < a)
    (hleast : ∀ k ∈ next p, ∀ c, item k = some c → ¬ x ≤ c) (hnew : item' n = some x)
    (hold : ∀ i, i ≠ n → item' i = item i) (hother : ∀ i, i ≠ n → i ≠ p → next' i = next i)
    (hnextn : ∀ k, k ∈ next' n ↔ k ∈ next p ∧ ∃ c, item k = some c ∧ c ≤ x)
    (hnextn_nodup : (next' n).Nodup)
    (hnextp : ∀ k, k ∈ next' p ↔ k = n ∨ (k ∈ next p ∧ ∀ c, item k = some c → ¬ c ≤ x))
    (hnextp_nodup : (next' p).Nodup) : CoverTree item' next' root := by
  have hlive {i : ι} {b : α} (hi : item i = some b) : i ≠ n := by
    rintro rfl
    rw [hn] at hi
    cases hi
  have hkeep {i : ι} {b : α} (hi : item i = some b) : item' i = some b := by rw [hold i (hlive hi), hi]
  have hcases {i : ι} {b : α} (hi : item' i = some b) : (i = n ∧ x = b) ∨ (i ≠ n ∧ item i = some b) := by
    by_cases hin : i = n
    · rw [hin, hnew] at hi
      exact .inl ⟨hin, Option.some.inj hi⟩
    · exact .inr ⟨hin, by rwa [hold i hin] at hi⟩
  have hchild {i j : ι} {b c : α} (hi : item i = some b) (hj : j ∈ next i) (hjc : item' j = some c) :
    item j = some c := by
    obtain ⟨c', hc', -⟩ := h.child i b j hi hj
    exact ((hcases hjc).resolve_left fun hjn => hlive hc' hjn.1).2
  have habove {r : ι} {b : α} (hr : item r = some b) (hxb : x ≤ b) : a ≤ b :=
    h.le_of_no_child hchain (fun _ _ => hkeep) hnew hp hxa.le hleast hr hxb
  have hfresh {r : ι} {b : α} (hr : item r = some b) : b ≠ x := by
    rintro rfl
    exact absurd (habove hr le_rfl) hxa.not_ge
  refine ⟨?_, ?_, ?_, ?_, ?_, ?_⟩
  · obtain ⟨t, ht, htop⟩ := h.top
    refine ⟨t, hkeep ht, fun i b hi => ?_⟩
    rcases hcases hi with ⟨-, rfl⟩ | ⟨-, hi⟩
    · exact hxa.le.trans (htop p a hp)
    · exact htop i b hi
  · intro i j b hi hj
    rcases hcases hi with ⟨rfl, rfl⟩ | ⟨-, hi⟩ <;> rcases hcases hj with ⟨rfl, hxb⟩ | ⟨-, hj⟩
    · rfl
    · exact absurd rfl (hfresh hj)
    · exact absurd hxb.symm (hfresh hi)
    · exact h.inj i j b hi hj
  · intro i b j hi hj
    rcases hcases hi with ⟨rfl, rfl⟩ | ⟨hin, hi⟩
    · obtain ⟨-, c, hc, hcx⟩ := (hnextn j).mp hj
      exact ⟨c, hkeep hc, lt_of_le_of_ne hcx (hfresh hc)⟩
    · by_cases hip : i = p
      · subst hip
        cases hp.symm.trans hi
        rcases (hnextp j).mp hj with rfl | ⟨hj, -⟩
        · exact ⟨x, hnew, hxa⟩
        · obtain ⟨c, hc, hca⟩ := h.child i a j hi hj
          exact ⟨c, hkeep hc, hca⟩
      · rw [hother i hin hip] at hj
        obtain ⟨c, hc, hcb⟩ := h.child i b j hi hj
        exact ⟨c, hkeep hc, hcb⟩
  · intro i b j c hi hj hcb
    rcases hcases hi with ⟨rfl, rfl⟩ | ⟨hin, hi⟩
    · -- below the new item: the child of the parent on the way is now its own
      obtain ⟨-, hj⟩ := (hcases hj).resolve_left fun hjn => hcb.ne' hjn.2
      obtain ⟨k, hk, d, hd, hcd⟩ := h.descend p a j c hp hj (hcb.trans hxa)
      refine ⟨k, (hnextn k).mpr ⟨hk, d, hd, ?_⟩, d, hkeep hd, hcd⟩
      rcases hchain j i k c x d (hkeep hj) hnew (hkeep hd) hcb.le hcd with hle | hle
      · exact absurd hle (hleast k hk d hd)
      · exact hle
    · by_cases hip : i = p
      · subst hip
        cases hp.symm.trans hi
        rcases hcases hj with ⟨rfl, rfl⟩ | ⟨-, hj⟩
        · exact ⟨j, (hnextp j).mpr (.inl rfl), x, hnew, le_rfl⟩
        · obtain ⟨k, hk, d, hd, hcd⟩ := h.descend i a j c hi hj hcb
          by_cases hdx : d ≤ x
          · exact ⟨n, (hnextp n).mpr (.inl rfl), x, hnew, hcd.trans hdx⟩
          · refine ⟨k, (hnextp k).mpr (.inr ⟨hk, ?_⟩), d, hkeep hd, hcd⟩
            intro d' hd' hle
            cases hd.symm.trans hd'
            exact hdx hle
      · rw [hother i hin hip]
        rcases hcases hj with ⟨-, rfl⟩ | ⟨-, hj⟩
        · -- an item above the new one is above its parent
          have hab := habove hi hcb.le
          have hlt : a < b := lt_of_le_of_ne hab fun heq => hip (h.inj i p a (heq ▸ hi) hp)
          obtain ⟨k, hk, d, hd, had⟩ := h.descend i b p a hi hp hlt
          exact ⟨k, hk, d, hkeep hd, hxa.le.trans had⟩
        · obtain ⟨k, hk, d, hd, hcd⟩ := h.descend i b j c hi hj hcb
          exact ⟨k, hk, d, hkeep hd, hcd⟩
  · intro i b j c k d hi hj hk hjc hkd hle
    rcases hcases hi with ⟨rfl, -⟩ | ⟨hin, hi⟩
    · have hj := ((hnextn j).mp hj).1
      have hk := ((hnextn k).mp hk).1
      exact h.apart p a j c k d hp hj hk (hchild hp hj hjc) (hchild hp hk hkd) hle
    · by_cases hip : i = p
      · subst hip
        rcases (hnextp j).mp hj with rfl | ⟨hj, hjx⟩ <;> rcases (hnextp k).mp hk with rfl | ⟨hk, -⟩
        · rfl
        · cases hnew.symm.trans hjc
          exact absurd hle (hleast k hk d (hchild hi hk hkd))
        · cases hnew.symm.trans hkd
          exact absurd hle (hjx c (hchild hi hj hjc))
        · exact h.apart i b j c k d hi hj hk (hchild hi hj hjc) (hchild hi hk hkd) hle
      · rw [hother i hin hip] at hj hk
        exact h.apart i b j c k d hi hj hk (hchild hi hj hjc) (hchild hi hk hkd) hle
  · intro i b hi
    rcases hcases hi with ⟨rfl, -⟩ | ⟨hin, hi⟩
    · exact hnextn_nodup
    · by_cases hip : i = p
      · rw [hip]
        exact hnextp_nodup
      · rw [hother i hin hip]
        exact h.nodup i b hi

/-- An item goes, and its children take its place. -/
theorem remove (hchain : Chained item) {n p : ι} {a : α} (hp : item p = some a) {front back : List ι}
    (hnext : next p = front ++ n :: back) (hgone : item' n = none) (hold : ∀ i, i ≠ n → item' i = item i)
    (hother : ∀ i, i ≠ n → i ≠ p → next' i = next i) (hnextp : next' p = front ++ next n ++ back) :
    CoverTree item' next' root := by
  have hmem : n ∈ next p := by rw [hnext]; simp
  obtain ⟨x, hn, hxa⟩ := h.child p a n hp hmem
  have hlive {i : ι} {b : α} (hi : item' i = some b) : i ≠ n ∧ item i = some b := by
    have hne : i ≠ n := by
      rintro rfl
      rw [hgone] at hi
      cases hi
    exact ⟨hne, by rwa [hold i hne] at hi⟩
  have hkeep {i : ι} {b : α} (hi : item i = some b) (hne : i ≠ n) : item' i = some b := by rw [hold i hne, hi]
  have hnodup := h.nodup p a hp
  rw [hnext] at hnodup
  have hsplit : n ∉ front ∧ n ∉ back := by
    have hmiddle := nodup_middle.mp hnodup
    rw [nodup_cons, mem_append, not_or] at hmiddle
    exact hmiddle.1
  have hsub {k : ι} : k ∈ front ++ back ↔ k ∈ next p ∧ k ≠ n := by
    rw [hnext, mem_append, mem_append, mem_cons]
    constructor
    · rintro (hk | hk)
      · exact ⟨.inl hk, fun heq => hsplit.1 (heq ▸ hk)⟩
      · exact ⟨.inr (.inr hk), fun heq => hsplit.2 (heq ▸ hk)⟩
    · rintro ⟨hk | hk | hk, hne⟩
      · exact .inl hk
      · exact absurd hk hne
      · exact .inr hk
  have hmemp {k : ι} : k ∈ next' p ↔ (k ∈ next p ∧ k ≠ n) ∨ k ∈ next n := by
    rw [hnextp, ← hsub, mem_append, mem_append, mem_append]
    tauto
  have hchild {k : ι} (hk : k ∈ next n) : k ≠ n := by
    rintro rfl
    obtain ⟨b, hb, hbx⟩ := h.child k x k hn hk
    cases hn.symm.trans hb
    exact absurd rfl hbx.ne
  -- a sibling of the removed item is apart from its children
  have hcross {j k : ι} {b c : α} (hj : j ∈ next p) (hjn : j ≠ n) (hk : k ∈ next n) (hjb : item j = some b)
      (hkc : item k = some c) : ¬ b ≤ c ∧ ¬ c ≤ b := by
    obtain ⟨c', hc', hcx⟩ := h.child n x k hn hk
    cases hkc.symm.trans hc'
    constructor
    · intro hle
      exact hjn (h.apart p a j b n x hp hj hmem hjb hn (hle.trans hcx.le))
    · intro hle
      rcases hchain k j n c b x hkc hjb hn hle hcx.le with hbx | hxb
      · exact hjn (h.apart p a j b n x hp hj hmem hjb hn hbx)
      · exact hjn (h.apart p a n x j b hp hmem hj hn hjb hxb).symm
  have hothernext {i : ι} {b : α} (hi : item i = some b) (hne : i ≠ n) (hip : i ≠ p) {k : ι}
    (hk : k ∈ next i) :
      k ≠ n := by
    rintro rfl
    exact hip (h.parent_unique hchain hi hp hk hmem)
  refine ⟨?_, ?_, ?_, ?_, ?_, ?_⟩
  · obtain ⟨t, ht, htop⟩ := h.top
    have hroot : root ≠ n := by
      rintro rfl
      cases hn.symm.trans ht
      exact absurd (htop p a hp) hxa.not_ge
    exact ⟨t, hkeep ht hroot, fun i b hi => htop i b (hlive hi).2⟩
  · intro i j b hi hj
    exact h.inj i j b (hlive hi).2 (hlive hj).2
  · intro i b j hi hj
    obtain ⟨hin, hi⟩ := hlive hi
    by_cases hip : i = p
    · subst hip
      cases hp.symm.trans hi
      rcases hmemp.mp hj with ⟨hj, hjn⟩ | hj
      · obtain ⟨c, hc, hca⟩ := h.child i a j hi hj
        exact ⟨c, hkeep hc hjn, hca⟩
      · obtain ⟨c, hc, hcx⟩ := h.child n x j hn hj
        exact ⟨c, hkeep hc (hchild hj), hcx.trans hxa⟩
    · rw [hother i hin hip] at hj
      obtain ⟨c, hc, hcb⟩ := h.child i b j hi hj
      exact ⟨c, hkeep hc (hothernext hi hin hip hj), hcb⟩
  · intro i b j c hi hj hcb
    obtain ⟨hin, hi⟩ := hlive hi
    obtain ⟨hjn, hj⟩ := hlive hj
    obtain ⟨k, hk, d, hd, hcd⟩ := h.descend i b j c hi hj hcb
    by_cases hip : i = p
    · subst hip
      by_cases hkn : k = n
      · -- the way went through the removed item: go on to the child of it
        subst hkn
        cases hn.symm.trans hd
        have hlt : c < x := lt_of_le_of_ne hcd fun heq => hjn (h.inj j k x (heq ▸ hj) hn)
        obtain ⟨l, hl, e, he, hce⟩ := h.descend k x j c hn hj hlt
        exact ⟨l, hmemp.mpr (.inr hl), e, hkeep he (hchild hl), hce⟩
      · exact ⟨k, hmemp.mpr (.inl ⟨hk, hkn⟩), d, hkeep hd hkn, hcd⟩
    · rw [hother i hin hip]
      exact ⟨k, hk, d, hkeep hd (hothernext hi hin hip hk), hcd⟩
  · intro i b j c k d hi hj hk hjc hkd hle
    obtain ⟨hin, hi⟩ := hlive hi
    have hjc := (hlive hjc).2
    have hkd := (hlive hkd).2
    by_cases hip : i = p
    · subst hip
      rcases hmemp.mp hj with ⟨hj, hjn⟩ | hj <;> rcases hmemp.mp hk with ⟨hk, hkn⟩ | hk
      · exact h.apart i b j c k d hi hj hk hjc hkd hle
      · exact absurd hle (hcross hj hjn hk hjc hkd).1
      · exact absurd hle (hcross hk hkn hj hkd hjc).2
      · exact h.apart n x j c k d hn hj hk hjc hkd hle
    · rw [hother i hin hip] at hj hk
      exact h.apart i b j c k d hi hj hk hjc hkd hle
  · intro i b hi
    obtain ⟨hin, hi⟩ := hlive hi
    by_cases hip : i = p
    · subst hip
      have hfb : (front ++ back).Nodup := (nodup_cons.mp (nodup_middle.mp hnodup)).2
      rw [hnextp, append_assoc]
      refine (perm_append_comm.append_left front |>.nodup_iff).mpr ?_
      rw [← append_assoc]
      refine nodup_append'.mpr ⟨hfb, h.nodup n x hn, ?_⟩
      intro k hk hkn
      obtain ⟨hk, hne⟩ := hsub.mp hk
      obtain ⟨c, hc, -⟩ := h.child n x k hn hkn
      exact (hcross hk hne hkn hc hc).1 le_rfl
    · rw [hother i hin hip]
      exact h.nodup i b hi

end CoverTree

/-! ### Depth -/

section
open Classical

/-- The number of items strictly below, which bounds the depth of a tree. -/
noncomputable def countBelow (S : Finset ι) (item : ι → Option α) (a : α) : ℕ :=
  (S.filter fun j => ∃ b, item j = some b ∧ b < a).card

variable {S : Finset ι} {item : ι → Option α}

theorem countBelow_lt {j : ι} {a b : α} (hj : j ∈ S) (hb : item j = some b) (hlt : b < a) :
    countBelow S item b < countBelow S item a := by
  refine Finset.card_lt_card (Finset.ssubset_iff_subset_ne.mpr ⟨?_, ?_⟩)
  · intro k hk
    obtain ⟨hk, c, hc, hcb⟩ := Finset.mem_filter.mp hk
    exact Finset.mem_filter.mpr ⟨hk, c, hc, hcb.trans hlt⟩
  · intro heq
    have hmem : j ∈ S.filter fun j => ∃ c, item j = some c ∧ c < a := Finset.mem_filter.mpr ⟨hj, b, hb, hlt⟩
    rw [← heq] at hmem
    obtain ⟨-, c, hc, hcb⟩ := Finset.mem_filter.mp hmem
    cases hb.symm.trans hc
    exact absurd rfl hcb.ne

theorem countBelow_lt_card {i : ι} {a : α} (hi : i ∈ S) (ha : item i = some a) : countBelow S item a < S.card := by
  refine Finset.card_lt_card (Finset.ssubset_iff_subset_ne.mpr ⟨Finset.filter_subset _ _, ?_⟩)
  intro heq
  rw [← heq] at hi
  obtain ⟨-, c, hc, hca⟩ := Finset.mem_filter.mp hi
  cases ha.symm.trans hc
  exact absurd rfl hca.ne

end

end Vpp.Schemes
