import Vpp.Vppinfra.Rbtree.Queries

/-! Insertion into a red-black tree.

    The new node is hung at the place where its key belongs, and the nodes above are coloured and rotated:

             q                 q                 p
            / \               / \               / \
           p   u     ->      z   u     ->      z   q
            \               /                       \
             z             p                         u

    The loop looks at the colour of the uncle where its textbook form looks at the parent, so it takes one turn at most,
    and two red nodes may remain one below the other. For the order nothing depends on that; what is needed is that the
    root is black, so that a red parent has a parent. -/

namespace Vpp.Vppinfra
open Vpp.Schemes List Place RbTree NodeTree
open NodeTree (inorder index_mk)

/-- The tree in memory was rebuilt, with the nodes `is` in order. -/
structure Rebuilt (rt : RbTree) (is : List ℕ) (rt' : RbTree) : Prop where
  keeps : Keeps rt rt'
  rep : ∃ t, Rep rt' [] t ∧ t.inorder = is
  root_black : (rt'.nodes rt'.root).color = .black

section
variable {ltfn : RbTreeLtFn} {rt : RbTree} {c : Place} {t : NodeTree} {z n : ℕ}

/-- The last write of both fix-ups. -/
theorem Rebuilt.setColor_root {rt' : RbTree} (hkeeps : Keeps rt rt') (h : Rep rt' c t) :
    Rebuilt rt (c.plug t).inorder (rt'.setColor rt'.root .black) := by
  refine ⟨hkeeps.setColor _ _, ⟨c.plug t, (h.setColor _ _ fun _ => rfl).whole, rfl⟩, ?_⟩
  rw [color_setColor]
  exact if_pos rfl

/-! ### The new node -/

theorem rbTreeHang_eq (ltfn : RbTreeLtFn) (rt : RbTree) (z y : ℕ) : rbTreeHang ltfn rt z y =
    if y = 0 then { rt.setParent z y with root := z }
    else (rt.setParent z y).setChild y (if ltfn (rt.nodes z).key (rt.nodes y).key then .left else .right) z := by
  have hkeeps := (Keeps.refl rt).setParent z y
  rw [rbTreeHang, hkeeps.key, hkeeps.key]
  split_ifs <;> rfl

theorem rbTreeHang_keeps (ltfn : RbTreeLtFn) (rt : RbTree) (z y : ℕ) : Keeps rt (rbTreeHang ltfn rt z y) := by
  rw [rbTreeHang_eq]
  split_ifs
  · exact ((Keeps.refl rt).setParent z y).setRoot z
  · exact ((Keeps.refl rt).setParent z y).setChild _ _ _
  · exact ((Keeps.refl rt).setParent z y).setChild _ _ _

theorem rbTreeHang_color (ltfn : RbTreeLtFn) (rt : RbTree) (z y i : ℕ) :
    ((rbTreeHang ltfn rt z y).nodes i).color = (rt.nodes i).color := by
  rw [rbTreeHang_eq]
  split_ifs <;> simp

theorem rbTreeHang_root (ltfn : RbTreeLtFn) (rt : RbTree) (z y : ℕ) :
    (rbTreeHang ltfn rt z y).root = if y = 0 then z else rt.root := by
  rw [rbTreeHang_eq]
  split_ifs <;> rfl

/-- The new node is hung at its place. -/
theorem Rep.hang (ltfn : RbTreeLtFn) (h : Rep rt c .nil) (hz : z ≠ 0) (hzc : z ∉ c.indices)
    (hfresh : ∀ d, (rt.links z).child d = 0)
    (hside : c.parent ≠ 0 → c.side = if ltfn (rt.nodes z).key (rt.nodes c.parent).key then .left else .right) :
    Rep (rbTreeHang ltfn rt z c.parent) c (.node .nil z .nil) := by
  have hpm : c.parent ≠ 0 → c.parent ∈ c.indices := parent_mem
  have hc0 := h.focus.around.zero_notMem
  have hlinks (i : ℕ) : (rbTreeHang ltfn rt z c.parent).links i =
      if i = z then (rt.links i).setParent c.parent
      else if i = c.parent ∧ c.parent ≠ 0 then (rt.links i).setChild c.side z else rt.links i := by
    rw [rbTreeHang_eq]
    by_cases hp : c.parent = 0
    · rw [if_pos hp, if_neg fun h : i = c.parent ∧ c.parent ≠ 0 => h.2 hp]
      exact links_setParent _ _ _ _
    · rw [if_neg hp, ← hside hp, links_setChild, links_setParent]
      by_cases hi : i = z
      · have hzp : i ≠ c.parent := by grind
        simp [hi, hi ▸ hzp]
      · simp [hi, hp]
  have hnodup : (c.indices ++ (NodeTree.mk .left .nil z .nil).inorder).Nodup := by
    have hc : c.indices.Nodup := by simpa [inorder] using h.focus.nodup
    simp only [NodeTree.mk, inorder, nil_append]
    exact nodup_append.mpr ⟨hc, by simp, by grind⟩
  refine ⟨?_, ?_, ?_⟩
  · rw [rbTreeHang_root]
    refine Focus.rebuild (d := .left) (p := 0) (q := 0) h.focus.around trivial trivial hz hnodup ?_ ?_ ?_ ?_ ?_ ?_
    · intro i hi
      grind
    · rw [hlinks, if_pos rfl, Links.parent_setParent]
    · rw [hlinks, if_pos rfl, Links.child_setParent, hfresh]
      rfl
    · rw [hlinks, if_pos rfl, Links.child_setParent, hfresh]
      rfl
    · simp [inorder]
    · simp [inorder]
  · rw [rbTreeHang_color]
    exact h.tnil_black
  · intro d
    have h0 : (rbTreeHang ltfn rt z c.parent).links 0 = rt.links 0 := by
      rw [hlinks, if_neg hz.symm, if_neg fun h => h.2 h.1.symm]
    rw [h0]
    exact h.tnil_childless d

/-! ### Fix-up -/

/-- Parent and grandparent change places. -/
theorem Rep.fixupLift {d : Side} {p q : ℕ} {s u : NodeTree} (h : Rep rt (⟨d, p, s⟩ :: ⟨d, q, u⟩ :: c) t)
    (ht : t ≠ .nil) :
    Rep (rbTreeFixupLift d rt t.index) c (.mk d t p (.mk d s q u)) := by
  obtain ⟨a, z, b, rfl⟩ := exists_mk ht .left
  have hp := Rep.cons_iff.mp h
  have hzp : (rt.nodes z).parent = p := h.parent_eq
  have hpq : (rt.nodes p).parent = q := hp.parent_eq
  have hq0 : q ≠ 0 := hp.focus.around.1
  have hcolored := ((Rep.cons_iff.mp hp).setColor p .black fun _ => rfl).setColor q .red fun h => absurd h hq0
  simp only [← mk_other d] at hcolored
  rw [index_mk, rbTreeFixupLift, hzp, hpq]
  simpa only [mk_other] using hcolored.rotate

theorem rbTreeFixupLift_keeps (d : Side) (rt : RbTree) (z : ℕ) : Keeps rt (rbTreeFixupLift d rt z) :=
  (((Keeps.refl rt).setColor _ _).setColor _ _).rotate _ _

/-- Only the grandparent becomes red. -/
theorem rbTreeFixupLift_black (d : Side) {i : ℕ} (hi : i ≠ (rt.nodes (rt.nodes z).parent).parent)
    (hblack : (rt.nodes i).color = .black) : ((rbTreeFixupLift d rt z).nodes i).color = .black := by
  rw [rbTreeFixupLift, color_rotate, color_setColor, if_neg hi, color_setColor]
  split_ifs
  · rfl
  · exact hblack

/-- A node on the far side of its parent changes places with it. -/
theorem Rep.fixupTurn {d e : Side} {p : ℕ} {s : NodeTree} (h : Rep rt (⟨e, p, s⟩ :: c) t) (ht : t ≠ .nil) :
    ∃ p' s' t', (rbTreeFixupTurn d rt t.index).2 = index t' ∧ t' ≠ .nil ∧
      Rep (rbTreeFixupTurn d rt t.index).1 (⟨d, p', s'⟩ :: c) t' ∧
      (NodeTree.mk d t' p' s').inorder = (NodeTree.mk e t p s).inorder := by
  obtain ⟨a, z, b, rfl⟩ := exists_mk ht d
  have hzp : (rt.nodes z).parent = p := h.parent_eq
  have hp0 : parent (⟨e, p, s⟩ :: c) ≠ 0 := h.focus.around.1
  have hself : (rt.nodes p).child e = z := by simpa [links] using h.focus.child_eq hp0
  have hother : (rt.nodes p).child e.other ≠ z := by simpa [links] using h.focus.child_other_ne ht hp0
  rw [index_mk, rbTreeFixupTurn, hzp]
  by_cases he : e = d
  · subst he
    rw [if_neg (Ne.symm hother)]
    exact ⟨p, s, .mk e a z b, by rw [index_mk], ht, h, rfl⟩
  · obtain rfl := Side.eq_other_of_ne he
    have hup := Rep.cons_iff.mp h
    rw [mk_other] at hup
    rw [if_pos hself.symm]
    refine ⟨z, b, .mk d s p a, by rw [index_mk], by cases d <;> simp [NodeTree.mk], Rep.cons_iff.mpr hup.rotate, ?_⟩
    rw [inorder_rotate, mk_other]

theorem rbTreeFixupTurn_keeps (d : Side) (rt : RbTree) (z : ℕ) : Keeps rt (rbTreeFixupTurn d rt z).1 := by
  rw [rbTreeFixupTurn]
  split_ifs
  · exact (Keeps.refl rt).rotate _ _
  · exact Keeps.refl rt

theorem rbTreeFixupTurn_color (d : Side) (rt : RbTree) (z i : ℕ) :
    ((rbTreeFixupTurn d rt z).1.nodes i).color = (rt.nodes i).color := by
  rw [rbTreeFixupTurn]
  split_ifs
  · exact color_rotate _ _ _ _
  · rfl

theorem inorder_plug_congr (c : Place) {t t' : NodeTree} (h : t.inorder = t'.inorder) :
    (c.plug t).inorder = (c.plug t').inorder := by
  rw [inorder_plug, inorder_plug, h]

/-- The loop ends, with the nodes in the same order. -/
theorem rbTreeFixupInline_spec (h : Rep rt c t) (ht : t ≠ .nil)
    (hroot : c.parent ≠ 0 → (rt.nodes rt.root).color = .black) (hn : 2 ≤ n) :
    ∃ rt', rbTreeFixupInline n rt c.parent t.index = some rt' ∧ Rebuilt rt (c.plug t).inorder rt' := by
  obtain ⟨n, rfl⟩ : ∃ k, n = k + 2 := ⟨n - 2, by omega⟩
  have hend {rt' : RbTree} {y z : ℕ} (hy : (rt'.nodes y).color = .black) :
      rbTreeFixupInline (n + 1) rt' y z = some (rt'.setColor rt'.root .black) := by
    rw [rbTreeFixupInline, hy, if_neg (by simp)]
  rw [rbTreeFixupInline]
  by_cases hred : (rt.nodes c.parent).color = .red
  · rw [if_pos hred]
    obtain - | ⟨⟨e, p, s⟩, c⟩ := c
    · rw [parent, h.tnil_black] at hred
      cases hred
    have hup := Rep.cons_iff.mp h
    obtain - | ⟨⟨d, q, u⟩, c⟩ := c
    · -- the root is black
      have hrp : rt.root = p := h.focus.around.2.2.2.2.2
      have hblack := hroot h.focus.around.1
      rw [hrp] at hblack
      cases hblack.symm.trans hred
    obtain ⟨a, z, b, rfl⟩ := exists_mk ht .left
    have hzp : (rt.nodes z).parent = p := h.parent_eq
    have hpq : (rt.nodes p).parent = q := hup.parent_eq
    have hq0 : q ≠ 0 := hup.focus.around.1
    have hangs : Hangs rt.links q d p := by simpa using hup.hangs (by cases e <;> simp [NodeTree.mk])
    have hd := hangs.side_eq hq0
    have hu : (rt.nodes q).child d.other = u.index := hup.focus.around.2.2.1
    have huq : u.index ≠ q := (Rep.cons_iff.mp hup).focus.child_ne.2
    simp only [index_mk, hzp, hpq, hd, hu]
    by_cases hured : (rt.nodes u.index).color = .red
    · -- the uncle is red
      have hrep := (((h.setColor p .black fun _ => rfl).setColor u.index .black fun _ => rfl).setColor q .red
        fun h => absurd h hq0)
      have hkeeps := ((Keeps.refl rt).setColor p .black).setColor u.index .black |>.setColor q .red
      rw [if_pos hured, hend]
      · exact ⟨_, rfl, Rebuilt.setColor_root hkeeps hrep⟩
      · simp [color_setColor, huq]
    · obtain ⟨p', s', t', hz', ht', hrep, horder⟩ := h.fixupTurn (d := d) ht
      rw [index_mk] at hz' hrep
      have hlift := hrep.fixupLift ht'
      have hkeeps := (rbTreeFixupTurn_keeps d rt z).trans (rbTreeFixupLift_keeps d (rbTreeFixupTurn d rt z).1 t'.index)
      rw [if_neg hured, hz', hend]
      · refine ⟨_, rfl, ?_⟩
        have hrebuilt := Rebuilt.setColor_root hkeeps hlift
        rw [inorder_plug_congr c (inorder_rotate d t' p' s' q u).symm] at hrebuilt
        have hsame : (plug (⟨e, p, s⟩ :: ⟨d, q, u⟩ :: c) (.mk .left a z b)).inorder =
            (plug c (.mk d (.mk d t' p' s') q u)).inorder :=
          inorder_plug_congr (⟨d, q, u⟩ :: c) horder.symm
        rwa [hsame]
      · -- the uncle is still black
        obtain ⟨a', z', b', rfl⟩ := exists_mk ht' .left
        have hzp' := hrep.parent_eq
        have hpq' := (Rep.cons_iff.mp hrep).parent_eq
        simp only [parent_cons] at hzp' hpq'
        refine rbTreeFixupLift_black d ?_ ?_
        · rwa [index_mk, hzp', hpq']
        · rw [rbTreeFixupTurn_color]
          cases hcol : (rt.nodes u.index).color with
          | red => exact absurd hcol hured
          | black => rfl
  · rw [if_neg hred]
    exact ⟨_, rfl, Rebuilt.setColor_root (Keeps.refl rt) h⟩

/-! ### `rb_tree_add_custom` -/

/-- The nodes `is` and the free ones are nodes of the pool, and so is the sentinel. -/
structure Pooled (rt : RbTree) (is : List ℕ) : Prop where
  len_pos : 0 < rt.len
  lt_len : ∀ i ∈ is, i < rt.len
  free_lt : ∀ i ∈ rt.free, i < rt.len
  free_ne : ∀ i ∈ rt.free, i ≠ 0
  free_notMem : ∀ i ∈ rt.free, i ∉ is
  free_nodup : rt.free.Nodup

theorem Pooled.of_keeps {rt' : RbTree} {is : List ℕ} (h : Pooled rt is) (hkeeps : Keeps rt rt') :
    Pooled rt' is := by
  refine ⟨?_, ?_, ?_, ?_, ?_, ?_⟩ <;> simp only [hkeeps.len, hkeeps.free]
  · exact h.len_pos
  · exact h.lt_len
  · exact h.free_lt
  · exact h.free_ne
  · exact h.free_notMem
  · exact h.free_nodup

/-- The tree in memory, with its root black. -/
structure Shape (rt : RbTree) (t : NodeTree) : Prop where
  rep : Rep rt [] t
  root_black : (rt.nodes rt.root).color = .black
  pooled : Pooled rt t.inorder

/-- There are turns enough. -/
theorem Shape.length_lt (h : Shape rt t) : t.inorder.length < rt.len := by
  have hnd : (0 :: t.inorder).Nodup :=
    nodup_cons.mpr ⟨h.rep.focus.linked.zero_notMem, by simpa [indices] using h.rep.focus.nodup⟩
  have hsub : (0 :: t.inorder) ⊆ range rt.len := by
    intro i hi
    rw [mem_range]
    rcases mem_cons.mp hi with rfl | hi
    · exact h.pooled.len_pos
    · exact h.pooled.lt_len i hi
  have hlen := (subperm_of_subset hnd hsub).length_le
  rwa [length_cons, length_range] at hlen

/-- What `pool_get_zero` returns: another node, and nothing else changes. -/
structure Fresh (rt : RbTree) (is : List ℕ) (z : ℕ) (rt' : RbTree) : Prop where
  ne_zero : z ≠ 0
  notMem : z ∉ is
  nodes : rt'.nodes = Function.update rt.nodes z .zero
  root : rt'.root = rt.root
  pooled : ∀ js, (∀ j ∈ js, j = z ∨ j ∈ is) → Pooled rt' js

theorem poolGetZero_fresh {is : List ℕ} (h : Pooled rt is) : Fresh rt is rt.poolGetZero.2 rt.poolGetZero.1 := by
  unfold poolGetZero
  split
  · next hfree =>
    refine ⟨ne_of_gt h.len_pos, fun hmem => lt_irrefl _ (h.lt_len _ hmem), rfl, rfl, fun js hjs => ?_⟩
    refine ⟨Nat.succ_pos _, fun j hj => ?_, by simp [hfree], by simp [hfree], by simp [hfree], by simp [hfree]⟩
    rcases hjs j hj with rfl | hj
    · exact Nat.lt_succ_self _
    · exact Nat.lt_succ_of_lt (h.lt_len j hj)
  · next i free hfree =>
    have hi : i ∈ rt.free := by simp [hfree]
    have hsub (j : ℕ) (hj : j ∈ free) : j ∈ rt.free := by simp [hfree, hj]
    have hnd := h.free_nodup
    rw [hfree, nodup_cons] at hnd
    refine ⟨h.free_ne i hi, h.free_notMem i hi, rfl, rfl, fun js hjs => ?_⟩
    refine ⟨h.len_pos, fun j hj => ?_, fun j hj => h.free_lt j (hsub j hj), fun j hj => h.free_ne j (hsub j hj),
      fun j hj hmem => ?_, hnd.2⟩
    · rcases hjs j hj with rfl | hj
      · exact h.free_lt j hi
      · exact h.lt_len j hj
    · rcases hjs j hmem with rfl | hmem
      · exact hnd.1 hj
      · exact h.free_notMem j (hsub j hj) hmem

/-- The tree with a new node `z`, and every other node as it was. -/
structure Inserted (ltfn : RbTreeLtFn) (rt : RbTree) (t : NodeTree) (key : BitVec 32)
    (opaqueValue : BitVec 64) (z : ℕ)
    (rt' : RbTree) (t' : NodeTree) : Prop where
  notMem : z ∉ t.inorder
  shape : Shape rt' t'
  sorted : rt'.Sorted ltfn t'.inorder
  mem_iff : ∀ i, i ∈ t'.inorder ↔ i = z ∨ i ∈ t.inorder
  key_self : (rt'.nodes z).key = key
  value_self : (rt'.nodes z).opaqueValue = opaqueValue
  key_other : ∀ i, i ≠ z → (rt'.nodes i).key = (rt.nodes i).key
  value_other : ∀ i, i ≠ z → (rt'.nodes i).opaqueValue = (rt.nodes i).opaqueValue

/-- A new node that is not in the tree does not disturb it. -/
theorem Shape.write {rt' : RbTree} (h : Shape rt t) (hz : z ≠ 0) (hzt : z ∉ t.inorder)
    (hnodes : ∀ i, i ≠ z → rt'.nodes i = rt.nodes i) (hroot : rt'.root = rt.root)
    (hpooled : Pooled rt' t.inorder) :
    Shape rt' t := by
  have hlinks (i : ℕ) (hi : i ≠ z) : rt'.links i = rt.links i := congrArg RbNode.toLinks (hnodes i hi)
  have hzroot : rt.root ≠ z := by
    rw [h.rep.focus.root_eq rfl]
    intro hroot
    exact hzt (hroot ▸ index_mem_of_ne_zero (hroot ▸ hz))
  refine ⟨⟨?_, ?_, ?_⟩, ?_, hpooled⟩
  · rw [hroot]
    refine h.rep.focus.congr fun i hi => hlinks i ?_
    rintro rfl
    exact hzt (by simpa [indices] using hi)
  · rw [hnodes 0 hz.symm]
    exact h.rep.tnil_black
  · rw [hlinks 0 hz.symm]
    exact h.rep.tnil_childless
  · rw [hroot, hnodes _ hzroot]
    exact h.root_black

theorem rbTreeAddCustom_spec (hlt : StrictTotal ltfn) (h : Shape rt t) (hs : rt.Sorted ltfn t.inorder)
    {key : BitVec 32} (habsent : ∀ i ∈ t.inorder, (rt.nodes i).key ≠ key) (opaqueValue : BitVec 64) :
    ∃ rt' z t', rbTreeAddCustom ltfn rt key opaqueValue = some (rt', z) ∧
      Inserted ltfn rt t key opaqueValue z rt' t' := by
  have hfresh := poolGetZero_fresh h.pooled
  rw [rbTreeAddCustom]
  generalize rt.poolGetZero = got at hfresh ⊢
  obtain ⟨rt₁, z⟩ := got
  simp only at hfresh ⊢
  generalize hrt₂ : rt₁.modify z (fun n => { n with key := key, color := .red, opaqueValue := opaqueValue }) = rt₂
  have hself : rt₂.nodes z = ⟨⟨0, 0, 0⟩, .red, key, opaqueValue⟩ := by
    simp [← hrt₂, RbTree.modify, hfresh.nodes, RbNode.zero]
  have hother (i : ℕ) (hi : i ≠ z) : rt₂.nodes i = rt.nodes i := by
    simp [← hrt₂, RbTree.modify, hfresh.nodes, hi]
  have hpooled (js : List ℕ) (hjs : ∀ j ∈ js, j = z ∨ j ∈ t.inorder) : Pooled rt₂ js := by
    obtain ⟨h₁, h₂, h₃, h₄, h₅, h₆⟩ := hfresh.pooled js hjs
    rw [← hrt₂]
    exact ⟨h₁, h₂, h₃, h₄, h₅, h₆⟩
  have hshape : Shape rt₂ t := h.write hfresh.ne_zero hfresh.notMem hother (by rw [← hrt₂]; exact hfresh.root)
    (hpooled _ fun j hj => Or.inr hj)
  have hkey (i : ℕ) (hi : i ∈ t.inorder) : (rt₂.nodes i).key = (rt.nodes i).key := by
    rw [hother i]
    rintro rfl
    exact hfresh.notMem hi
  have hs₂ : rt₂.Sorted ltfn t.inorder := by
    refine List.Pairwise.imp_of_mem (fun {i j} hi hj hij => ?_) hs
    rwa [hkey i hi, hkey j hj]
  -- the way down
  have htop : Between ltfn rt₂ [] key := ⟨by simp [beyond], by simp [beyond], fun h => absurd rfl h⟩
  obtain ⟨c, hdescend, hnil, hplug, hbetween⟩ := rbTreeDescend_spec hlt hshape.rep hs₂
    (fun i hi => (hkey i hi).symm ▸ habsent i hi) htop (Nat.lt_succ_of_lt hshape.length_lt)
  rw [← hshape.rep.focus.root_eq rfl] at hdescend
  -- the new node, and the fix-up
  have hzc : z ∉ c.indices := fun hz => hfresh.notMem (by
    have hmem : z ∈ (c.plug .nil).inorder := mem_plug.mpr (Or.inl hz)
    rwa [hplug] at hmem)
  have hhang := hnil.hang ltfn hfresh.ne_zero hzc (by intro d; cases d <;> simp [links, hself, Links.child])
    (by rw [hself]; exact hbetween.side)
  obtain ⟨rt', hfixup, hrebuilt⟩ := rbTreeFixupInline_spec (n := rt₂.turns) hhang (by simp)
    (fun hp => by rw [rbTreeHang_root, if_neg hp, rbTreeHang_color]; exact hshape.root_black)
    (Nat.succ_le_succ hshape.pooled.len_pos)
  obtain ⟨t', hrep', horder⟩ := hrebuilt.rep
  have hkeeps := (rbTreeHang_keeps ltfn rt₂ z c.parent).trans hrebuilt.keeps
  have hold : t.inorder = (beyond .left c).reverse ++ beyond .right c := by
    have hinorder := congrArg inorder hplug
    rw [inorder_plug] at hinorder
    simpa [inorder, plug] using hinorder.symm
  have hnew : t'.inorder = (beyond .left c).reverse ++ z :: beyond .right c := by
    rw [horder, inorder_plug]
    simp [inorder]
  have hmem (i : ℕ) : i ∈ t'.inorder ↔ i = z ∨ i ∈ t.inorder := by
    simp only [hold, hnew, mem_append, mem_cons]
    tauto
  refine ⟨rt', z, t', ?_, hfresh.notMem, ⟨hrep', hrebuilt.root_black, ?_⟩, ?_, hmem, ?_, ?_, ?_, ?_⟩
  · have hdescend' : rbTreeDescend ltfn rt₂ key rt₂.turns rt₂.root 0 = some c.parent := hdescend
    have hfixup' : rbTreeFixupInline rt₂.turns (rbTreeHang ltfn rt₂ z c.parent) c.parent z = some rt' := hfixup
    simp [hdescend', hfixup']
  · exact (hpooled t'.inorder fun j hj => (hmem j).mp hj).of_keeps hkeeps
  · have hs' : rt₂.Sorted ltfn ((beyond .left c).reverse ++ beyond .right c) := hold ▸ hs₂
    obtain ⟨hleft, hright, hlr⟩ := pairwise_append.mp hs'
    rw [Sorted, hnew]
    simp only [hkeeps.key]
    refine pairwise_append.mpr ⟨hleft, pairwise_cons.mpr ⟨?_, hright⟩, ?_⟩
    · rw [hself]
      exact hbetween.below
    · intro i hi j hj
      rcases mem_cons.mp hj with rfl | hj
      · rw [hself]
        exact hbetween.above i (mem_reverse.mp hi)
      · exact hlr i hi j hj
  · rw [hkeeps.key, hself]
  · rw [hkeeps.value, hself]
  · exact fun i hi => by rw [hkeeps.key, hother i hi]
  · exact fun i hi => by rw [hkeeps.value, hother i hi]

end

end Vpp.Vppinfra
