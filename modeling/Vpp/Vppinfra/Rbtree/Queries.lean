import Vpp.Vppinfra.Rbtree.Rotate

/-! The ways through a red-black tree: down to a key or to the place where it belongs, down along one side, and on to
    the next node in order.

    Each loop goes along the tree in memory or along the frames of a place, so that its number of turns is bounded by
    the number of nodes. -/

namespace Vpp.Vppinfra
open Vpp.Schemes List NodeTree Place

/-- What is asked of the comparison of keys. -/
structure StrictTotal (ltfn : RbTreeLtFn) : Prop where
  irrefl : ∀ a, ¬ ltfn a a
  trans : ∀ a b c, ltfn a b → ltfn b c → ltfn a c
  total : ∀ a b, a ≠ b → ltfn a b ∨ ltfn b a

/-- The nodes are in the order of their keys. -/
def RbTree.Sorted (ltfn : RbTreeLtFn) (rt : RbTree) (is : List ℕ) : Prop :=
  is.Pairwise fun i j => ltfn (rt.nodes i).key (rt.nodes j).key

namespace StrictTotal
variable {ltfn : RbTreeLtFn} {a b : BitVec 32}

theorem ne (h : StrictTotal ltfn) (hab : ltfn a b) : a ≠ b := by
  rintro rfl
  exact h.irrefl a hab

theorem lt_of_not_lt (h : StrictTotal ltfn) (hne : a ≠ b) (hab : ¬ ltfn a b) : ltfn b a :=
  (h.total a b hne).resolve_left hab

end StrictTotal

section
variable {ltfn : RbTreeLtFn} {rt : RbTree} {p : ℕ} {c : Place} {t : NodeTree} {key : BitVec 32} {n : ℕ}

/-! ### Down to a key -/

/-- A search returns the node with the key, or the sentinel where there is none. -/
theorem rbTreeSearch_spec (hlt : StrictTotal ltfn) (h : Linked rt.links p t) (hs : rt.Sorted ltfn t.inorder)
    (hn : t.inorder.length < n) : ∃ i, rbTreeSearch ltfn rt key n t.index = some i ∧
      (i ∈ t.inorder ∧ (rt.nodes i).key = key ∨ i = 0 ∧ ∀ j ∈ t.inorder, (rt.nodes j).key ≠ key) := by
  induction t generalizing p n with
  | nil =>
    obtain ⟨n, rfl⟩ := Nat.exists_eq_add_of_lt hn
    exact ⟨0, by simp [rbTreeSearch, index], Or.inr ⟨rfl, by simp [inorder]⟩⟩
  | node l x r ihl ihr =>
    obtain ⟨n, rfl⟩ : ∃ k, n = k + 1 := ⟨n - 1, by omega⟩
    obtain ⟨hx, hm, hl, hr⟩ := h
    have hleft : (rt.nodes x).left = l.index := congrArg Links.left hm
    have hright : (rt.nodes x).right = r.index := congrArg Links.right hm
    simp only [inorder, length_append, length_cons] at hn
    obtain ⟨hsl, hsr, hlr⟩ := pairwise_append.mp hs
    obtain ⟨hxr, hsr⟩ := pairwise_cons.mp hsr
    have hlx : ∀ i ∈ l.inorder, ltfn (rt.nodes i).key (rt.nodes x).key := fun i hi => hlr i hi x mem_cons_self
    rw [index, rbTreeSearch]
    by_cases hkey : key = (rt.nodes x).key
    · exact ⟨x, by rw [if_neg fun h => h.2 hkey], Or.inl ⟨by simp [inorder], hkey.symm⟩⟩
    · rw [if_pos ⟨hx, hkey⟩]
      by_cases hgo : ltfn key (rt.nodes x).key
      · obtain ⟨i, hi, hfound⟩ := ihl hl hsl (n := n) (by omega)
        refine ⟨i, by rw [if_pos hgo, hleft, hi], hfound.imp ?_ ?_⟩
        · exact fun h => ⟨by simp [inorder, h.1], h.2⟩
        · rintro ⟨h0, hnone⟩
          refine ⟨h0, fun j hj => ?_⟩
          simp only [inorder, mem_append, mem_cons] at hj
          rcases hj with hj | rfl | hj
          · exact hnone j hj
          · exact Ne.symm hkey
          · exact (hlt.ne (hlt.trans _ _ _ hgo (hxr j hj))).symm
      · obtain ⟨i, hi, hfound⟩ := ihr hr hsr (n := n) (by omega)
        have hxkey := hlt.lt_of_not_lt hkey hgo
        refine ⟨i, by rw [if_neg hgo, hright, hi], hfound.imp ?_ ?_⟩
        · exact fun h => ⟨by simp [inorder, h.1], h.2⟩
        · rintro ⟨h0, hnone⟩
          refine ⟨h0, fun j hj => ?_⟩
          simp only [inorder, mem_append, mem_cons] at hj
          rcases hj with hj | rfl | hj
          · exact hlt.ne (hlt.trans _ _ _ (hlx j hj) hxkey)
          · exact Ne.symm hkey
          · exact hnone j hj

/-- The place is where the key belongs. -/
structure Between (ltfn : RbTreeLtFn) (rt : RbTree) (c : Place) (key : BitVec 32) : Prop where
  above : ∀ i ∈ Place.beyond .left c, ltfn (rt.nodes i).key key
  below : ∀ i ∈ Place.beyond .right c, ltfn key (rt.nodes i).key
  side : c.parent ≠ 0 → c.side = if ltfn key (rt.nodes c.parent).key then .left else .right

/-- The way down ends at the place where a new key belongs. -/
theorem rbTreeDescend_spec (hlt : StrictTotal ltfn) (h : Rep rt c t) (hs : rt.Sorted ltfn t.inorder)
    (habsent : ∀ i ∈ t.inorder, (rt.nodes i).key ≠ key) (hc : Between ltfn rt c key)
    (hn : t.inorder.length < n) :
    ∃ c', rbTreeDescend ltfn rt key n t.index c.parent = some c'.parent ∧ Rep rt c' .nil ∧
      c'.plug .nil = c.plug t ∧ Between ltfn rt c' key := by
  induction t generalizing c n with
  | nil =>
    obtain ⟨n, rfl⟩ := Nat.exists_eq_add_of_lt hn
    exact ⟨c, by simp [rbTreeDescend, index], h, rfl, hc⟩
  | node l x r ihl ihr =>
    obtain ⟨n, rfl⟩ : ∃ k, n = k + 1 := ⟨n - 1, by omega⟩
    obtain ⟨hx, hm, -, -⟩ := h.focus.linked
    have hleft : (rt.nodes x).left = l.index := congrArg Links.left hm
    have hright : (rt.nodes x).right = r.index := congrArg Links.right hm
    simp only [inorder, length_append, length_cons] at hn
    obtain ⟨hsl, hsr, hlr⟩ := pairwise_append.mp hs
    obtain ⟨hxr, hsr⟩ := pairwise_cons.mp hsr
    have hlx : ∀ i ∈ l.inorder, ltfn (rt.nodes i).key (rt.nodes x).key := fun i hi => hlr i hi x mem_cons_self
    rw [index, rbTreeDescend, if_pos hx]
    by_cases hgo : ltfn key (rt.nodes x).key
    · rw [if_pos hgo, hleft]
      refine ihl (c := ⟨.left, x, r⟩ :: c) (Rep.cons_iff.mpr h) hsl ?_ ⟨hc.above, ?_, ?_⟩ (by omega)
      · exact fun i hi => habsent i (by simp [inorder, hi])
      · intro i hi
        simp only [beyond, reduceCtorEq, if_false, mem_cons, mem_append, order] at hi
        rcases hi with rfl | hi | hi
        · exact hgo
        · exact hlt.trans _ _ _ hgo (hxr i hi)
        · exact hc.below i hi
      · exact fun _ => (if_pos hgo).symm
    · rw [if_neg hgo, hright]
      have hxkey := hlt.lt_of_not_lt (Ne.symm (habsent x (by simp [inorder]))) hgo
      refine ihr (c := ⟨.right, x, l⟩ :: c) (Rep.cons_iff.mpr h) hsr ?_ ⟨?_, hc.below, ?_⟩ (by omega)
      · exact fun i hi => habsent i (by simp [inorder, hi])
      · intro i hi
        simp only [beyond, reduceCtorEq, if_false, mem_cons, mem_append, order, mem_reverse] at hi
        rcases hi with rfl | hi | hi
        · exact hxkey
        · exact hlt.trans _ _ _ (hlx i hi) hxkey
        · exact hc.above i hi
      · exact fun _ => (if_neg hgo).symm

/-! ### Along one side -/

/-- The way down on one side ends at the last node there. -/
theorem rbTreeOutermost_spec (d : Side) (h : Linked rt.links p t) (ht : t ≠ .nil) (hn : t.inorder.length ≤ n) :
    ∃ c i s, rbTreeOutermost d rt n t.index = some i ∧ t = Place.plug c (.mk d .nil i s) ∧
      ∀ f ∈ c, f.side = d := by
  induction n generalizing p t with
  | zero =>
    rw [Nat.le_zero, length_eq_zero_iff] at hn
    exact absurd (index_mem ht) (by simp [hn])
  | succ n ih =>
    obtain ⟨a, x, b, rfl⟩ := exists_mk ht d
    obtain ⟨-, -, hchild, -, ha, -⟩ := linked_mk.mp h
    rw [index_mk, rbTreeOutermost, show (rt.nodes x).child d = a.index from hchild]
    by_cases hnil : a = .nil
    · subst hnil
      exact ⟨[], x, b, by simp [index], rfl, by simp⟩
    · have hlen := (inorder_mk_perm d a x b).length_eq
      rw [length_cons, length_append] at hlen
      obtain ⟨c, i, s, hi, rfl, hc⟩ := ih ha hnil (by omega)
      refine ⟨c ++ [⟨d, x, b⟩], i, s, ?_, by rw [plug_append]; rfl, ?_⟩
      · rw [if_pos (mt ha.index_eq_zero.mp hnil), hi]
      · intro f hf
        rcases mem_append.mp hf with hf | hf
        · exact hc f hf
        · rw [mem_singleton.mp hf]

/-! ### To the next node -/

/-- The way up ends at the nearest node beyond the place, or at the sentinel. -/
theorem rbTreeAscend_spec (d : Side) (h : Rep rt c t) (ht : t ≠ .nil) (hn : c.length < n) :
    rbTreeAscend d rt n t.index c.parent = some ((Place.beyond d c).headD 0) := by
  induction c generalizing t n with
  | nil =>
    obtain ⟨n, rfl⟩ := Nat.exists_eq_add_of_lt hn
    simp [rbTreeAscend, parent, beyond]
  | cons f c ih =>
    obtain ⟨n, rfl⟩ : ∃ k, n = k + 1 := ⟨n - 1, by omega⟩
    have hf : parent (f :: c) ≠ 0 := h.focus.around.1
    rw [rbTreeAscend, beyond]
    by_cases hd : f.side = d
    · have hup := Rep.cons_iff.mp h
      have hparent : (rt.nodes f.index).parent = parent c := hup.parent_eq
      have hchild : (rt.nodes f.index).child d = t.index := by
        rw [← hd]
        exact h.focus.child_eq hf
      have hrest := ih hup (by cases f.side <;> simp [mk]) (Nat.lt_of_succ_lt_succ hn)
      rw [index_mk] at hrest
      rw [if_pos hd, if_pos ⟨hf, hchild⟩, ← hrest, ← hparent]
      rfl
    · have hother : (rt.nodes f.index).child d ≠ t.index := by
        rw [Side.eq_other_of_ne (Ne.symm hd)]
        exact h.focus.child_other_ne ht hf
      rw [if_neg hd, if_neg fun h => hother h.2]
      rfl

/-- The next node in order towards one side. -/
theorem rbTreeNeighbour_spec {d : Side} {a b : NodeTree} {x : ℕ} (h : Rep rt c (.mk d a x b))
    (hn : (c.plug (.mk d a x b)).inorder.length < rt.turns) : ∃ pre post,
      (c.plug (.mk d a x b)).order d = pre ++ x :: post ∧ rbTreeNeighbour d rt x = some (post.headD 0) := by
  obtain ⟨-, hparent, hchild, -, ha, -⟩ := linked_mk.mp h.focus.linked
  refine ⟨(beyond d.other c).reverse ++ b.order d, a.order d ++ beyond d c, ?_, ?_⟩
  · simp [order_plug, order_mk]
  · have hperm := (inorder_mk_perm d a x b).length_eq
    simp only [length_cons, length_append] at hperm
    have hdepth := c.length_add_le (.mk d a x b)
    rw [rbTreeNeighbour, show (rt.nodes x).child d = a.index from hchild]
    by_cases hnil : a = .nil
    · subst hnil
      have hup := rbTreeAscend_spec d h (by cases d <;> simp [mk]) (n := rt.turns) (by omega)
      rw [index_mk] at hup
      rw [if_neg (by simp [index]), show (rt.nodes x).parent = c.parent from hparent, hup]
      cases d <;> rfl
    · obtain ⟨c', i, s, hi, rfl, hc'⟩ := rbTreeOutermost_spec d.other ha hnil (n := rt.turns) (by omega)
      rw [if_pos (mt ha.index_eq_zero.mp hnil), hi, order_plug, beyond_eq_nil hc']
      have hmk : (mk d.other .nil i s).order d = i :: s.order d := by
        rw [mk_other, order_mk]
        cases d <;> rfl
      simp [hmk]

end

end Vpp.Vppinfra
