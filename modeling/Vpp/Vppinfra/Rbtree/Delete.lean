import Vpp.Vppinfra.Rbtree.Insert

/-! Deletion from a red-black tree.

    A node with one subtree is replaced by it; one with two is replaced by the first node on its right, which leaves its
    own place to its right subtree:

             z                  y
            / \                / \
           l   .              l   .
              /       ->         /
             y                  s
              \
               s

    The subtree that moved up may be empty, and then the sentinel holds the parent from which the fix-up starts. The
    fix-up is safe whatever the colours are: it rotates about nodes that it has seen to be red, or to have a red child,
    and only the sentinel is without both. -/

namespace Vpp.Vppinfra
open Vpp.Schemes List Place Vpp.Vppinfra.Rep
open NodeTree RbTree Links

section
variable {rt rt' : RbTree} {c : Place} {t a b : NodeTree} {d : Side} {p n : ℕ}

/-! ### Steps of the fix-up -/

/-- The tree below the place was rebuilt, with the nodes in the same order and the root still black. -/
structure Turned (rt : RbTree) (t : NodeTree) (rt' : RbTree) (t' : NodeTree) : Prop where
  keeps : Keeps rt rt'
  order : t'.inorder = t.inorder
  root_black : (rt'.nodes rt'.root).color = .black

/-- A root that is black stays black when nodes below it are coloured. -/
theorem Rep.root_setColor (h : Rep rt c t) (hp : c.parent ≠ 0) (hroot : (rt.nodes rt.root).color = .black) {i : ℕ}
    (hi : i ∈ t.inorder) (col : RbNodeColor) : ((rt.setColor i col).nodes rt.root).color = .black := by
  rw [color_setColor, if_neg, hroot]
  rintro rfl
  exact h.focus.root_notMem hp hi

/-- With a red sibling, the parent becomes red and goes down. -/
theorem Rep.delTurn (h : Rep rt c (.mk d a p b)) (hroot : (rt.nodes rt.root).color = .black) :
    rbTreeDelTurn d rt p = rt ∨
    ∃ w b₁ b₂, (Rep (rbTreeDelTurn d rt p) (⟨d, w, b₂⟩ :: c) (.mk d a p b₁)) ∧
      ((rbTreeDelTurn d rt p).nodes p).color = .red ∧
      Turned rt (.mk d a p b) (rbTreeDelTurn d rt p) (.mk d (.mk d a p b₁) w b₂) := by
  rw [rbTreeDelTurn, h.child_other_eq]
  by_cases hred : (rt.nodes b.index).color = .red
  · right
    obtain ⟨b₁, w, b₂, rfl⟩ := exists_mk (h.ne_nil_of_red hred) d
    rw [index_mk] at hred ⊢
    have hp0 : p ≠ 0 := (linked_mk.mp h.focus.linked).1
    have hwp : w ≠ p := by simpa using h.focus.child_ne.2
    have hcolored := (h.setColor w .black fun _ => rfl).setColor p .red fun h => absurd h hp0
    rw [if_pos hred]
    refine ⟨w, b₁, b₂, cons_iff.mpr hcolored.rotate, ?_, ?_, inorder_rotate d a p b₁ w b₂, ?_⟩
    · simp [color_rotate, color_setColor]
    · exact (((Keeps.refl rt).setColor _ _).setColor _ _).rotate _ _
    · rw [hcolored.root_rotate, color_rotate, color_setColor, color_setColor]
      by_cases hc : c.parent = 0
      · simp [hc, hwp]
      · have hne : rt.root ≠ p := by
          rintro hroot
          exact h.focus.root_notMem hc (by simp [hroot])
        simp [hc, hne, hroot]
  · exact Or.inl (if_neg hred)

/-- The children of a node are black. -/
abbrev BlackChildren (rt : RbTree) (w : ℕ) : Prop :=
  (rt.nodes (rt.nodes w).left).color = .black ∧ (rt.nodes (rt.nodes w).right).color = .black

/-- The children of a node, on either side first. -/
theorem blackChildren_iff (rt : RbTree) (d : Side) (w : ℕ) : BlackChildren rt w ↔
      ((rt.nodes ((rt.nodes w).child d)).color = .black ∧
        (rt.nodes ((rt.nodes w).child d.other)).color = .black) := by
  cases d with
  | left => exact Iff.rfl
  | right => exact and_comm

/-- With a red child of the sibling there is a red one on the far side. -/
theorem Rep.delStraighten (h : Rep rt c (.mk d a p b)) (hroot : (rt.nodes rt.root).color = .black)
    (hb : ¬BlackChildren rt b.index) :
    ∃ b', b' ≠ .nil ∧ Rep (rbTreeDelStraighten d rt b.index) c (.mk d a p b') ∧
      Turned rt (.mk d a p b) (rbTreeDelStraighten d rt b.index) (.mk d a p b') := by
  rw [blackChildren_iff rt d] at hb
  have hne : b ≠ .nil := by
    rintro rfl
    have h0 := h.tnil_childless
    simp only [links] at h0
    exact hb (by simp [index, h0, h.tnil_black])
  rw [rbTreeDelStraighten]
  by_cases hfar : (rt.nodes ((rt.nodes b.index).child d.other)).color = .black
  · rw [if_pos hfar]
    -- the sibling is below the parent, on the far side
    have hbelow : Rep rt (⟨d.other, p, a⟩ :: c) b := cons_iff.mpr (by rwa [mk_other])
    have hp0 : parent (⟨d.other, p, a⟩ :: c) ≠ 0 := hbelow.focus.around.1
    obtain ⟨m, w, f, rfl⟩ := exists_mk hne d
    rw [index_mk] at hfar hb ⊢
    have hw0 : w ≠ 0 := (linked_mk.mp hbelow.focus.linked).1
    have hnear : (rt.nodes w).child d = m.index := (linked_mk.mp hbelow.focus.linked).2.2.1
    rw [hnear] at hb ⊢
    have hred : (rt.nodes m.index).color = .red := by
      cases hcol : (rt.nodes m.index).color with
      | red => rfl
      | black => exact absurd ⟨hcol, hfar⟩ hb
    obtain ⟨m₁, i, m₂, rfl⟩ := exists_mk (h.ne_nil_of_red hred) d
    rw [index_mk]
    have hcolored := (hbelow.setColor i .black fun _ => rfl).setColor w .red fun h => absurd h hw0
    have hcolored' := hcolored
    simp only [← mk_other d] at hcolored'
    have hrotated := hcolored'.rotate
    refine ⟨.mk d m₁ i (.mk d m₂ w f), by cases d <;> simp [NodeTree.mk], ?_, ?_, ?_, ?_⟩
    · have hup := cons_iff.mp hrotated
      simpa only [mk_other] using hup
    · exact (((Keeps.refl rt).setColor _ _).setColor _ _).rotate _ _
    · cases d <;> simp [NodeTree.mk, inorder]
    · rw [hcolored'.root_rotate, if_neg hp0, color_rotate]
      refine (hbelow.setColor i .black fun _ => rfl).root_setColor hp0 ?_ (by simp) .red
      exact hbelow.root_setColor hp0 hroot (by simp) .black
  · rw [if_neg hfar]
    exact ⟨b, hne, h, Keeps.refl rt, rfl, hroot⟩

/-- The sibling takes the place and the colour of the parent. -/
theorem Rep.delLift (h : Rep rt c (.mk d a p b)) (hb : b ≠ .nil) (hroot : (rt.nodes rt.root).color = .black) :
    ∃ t', Rep (rbTreeDelLift d rt p) c t' ∧ Turned rt (.mk d a p b) (rbTreeDelLift d rt p) t' := by
  obtain ⟨m, w, f, rfl⟩ := exists_mk hb d
  obtain ⟨-, -, -, -, -, hlw⟩ := linked_mk.mp h.focus.linked
  obtain ⟨hw0, -, -, hf, -, -⟩ := linked_mk.mp hlw
  rw [rbTreeDelLift, h.child_other_eq, index_mk, show (rt.nodes w).child d.other = f.index from hf]
  have hcolored := ((h.setColor w (rt.nodes p).color fun h => absurd h hw0).setColor p .black fun _ => rfl).setColor
    f.index .black fun _ => rfl
  refine ⟨_, hcolored.rotate, ?_, inorder_rotate d a p m w f, ?_⟩
  · exact ((((Keeps.refl rt).setColor _ _).setColor _ _).setColor _ _).rotate _ _
  · rw [hcolored.root_rotate, color_rotate]
    simp only [RbTree.root_setColor, RbTree.color_setColor]
    by_cases hc : c.parent = 0
    · -- the parent was the root
      have hrp : rt.root = p := by simpa using h.focus.root_eq hc
      rw [hrp] at hroot
      rw [if_pos hc, hroot]
      split_ifs <;> simp_all
    · have hrw : rt.root ≠ w := by
        intro hrw
        exact h.focus.root_notMem hc (by simp [hrw])
      rw [if_neg hc]
      split_ifs
      · rfl
      · rfl
      · exact hroot

/-! ### The loop -/

/-- A turn at the root, or at a red node, is the last one. -/
theorem rbTreeDelFixup_last {x : ℕ} (h : x = rt.root ∨ (rt.nodes x).color = .red) :
    rbTreeDelFixup (n + 1) rt x = some (rt.setColor x .black) := by
  rw [rbTreeDelFixup, if_neg]
  rintro ⟨hne, hblack⟩
  rcases h with h | h
  · exact hne h
  · cases h.symm.trans hblack

theorem Rebuilt.setColor_black {is : List ℕ} (hkeeps : Keeps rt rt') (h : Rep rt' c t)
    (horder : (c.plug t).inorder = is) (x : ℕ)
    (hroot : (rt'.nodes rt'.root).color = .black ∨ x = rt'.root) :
    Rebuilt rt is (rt'.setColor x .black) := by
  refine ⟨hkeeps.setColor _ _, ⟨c.plug t, (h.setColor _ _ fun _ => rfl).whole, horder⟩, ?_⟩
  rw [color_setColor]
  split_ifs with hx
  · rfl
  · exact hroot.resolve_right (Ne.symm hx)

theorem Rebuilt.trans {rt'' : RbTree} {is : List ℕ} (hkeeps : Keeps rt rt')
    (h : Rebuilt rt' is rt'') :
    Rebuilt rt is rt'' := ⟨hkeeps.trans h.keeps, h.rep, h.root_black⟩

theorem rbTreeDelRecolor_keeps (rt : RbTree) (w : ℕ) : Keeps rt (rbTreeDelRecolor rt w) := by
  unfold rbTreeDelRecolor
  split_ifs
  · exact (Keeps.refl rt).setColor _ _
  · exact Keeps.refl rt

@[simp] theorem rbTreeDelRecolor_links (rt : RbTree) (w : ℕ) : (rbTreeDelRecolor rt w).links = rt.links := by
  unfold rbTreeDelRecolor
  split_ifs <;> simp

@[simp] theorem rbTreeDelRecolor_root (rt : RbTree) (w : ℕ) : (rbTreeDelRecolor rt w).root = rt.root := by
  unfold rbTreeDelRecolor
  split_ifs <;> rfl

theorem rbTreeDelRecolor_color {w i : ℕ} (hi : i ≠ w) : ((rbTreeDelRecolor rt w).nodes i).color =
    (rt.nodes i).color := by
  unfold rbTreeDelRecolor
  split_ifs
  · rw [color_setColor, if_neg hi]
  · rfl

theorem Rep.delRecolor (h : Rep rt c t) (w : ℕ) : Rep (rbTreeDelRecolor rt w) c t := by
  refine ⟨by simpa using h.focus, ?_, by simpa using h.tnil_childless⟩
  unfold rbTreeDelRecolor
  split_ifs with hw
  · rw [color_setColor, if_neg (Ne.symm hw)]
    exact h.tnil_black
  · exact h.tnil_black

/-- The sibling is not the root. -/
theorem Rep.sibling_ne_root (h : Rep rt c (.mk d a p b)) : rt.root ≠ b.index := by
  have hbelow : Rep rt (⟨d.other, p, a⟩ :: c) b := cons_iff.mpr (by rwa [mk_other])
  have hp0 : parent (⟨d.other, p, a⟩ :: c) ≠ 0 := hbelow.focus.around.1
  intro hroot
  have hmem := hbelow.focus.around.root_mem hp0
  have hb0 : b.index ≠ 0 := by
    rw [← hroot]
    rintro h0
    exact hbelow.focus.around.zero_notMem (h0 ▸ hmem)
  exact hbelow.focus.root_notMem hp0 (hroot ▸ index_mem_of_ne_zero hb0)

/-- The last rotations, after which the loop is at the root. -/
theorem Rep.delEnd (h : Rep rt c (.mk d a p b)) (hroot : (rt.nodes rt.root).color = .black)
    (hb : ¬BlackChildren rt b.index) :
    ∃ rt', rbTreeDelFixup (n + 1) (rbTreeDelLift d (rbTreeDelStraighten d rt b.index) p)
        (rbTreeDelLift d (rbTreeDelStraighten d rt b.index) p).root = some rt' ∧
      Rebuilt rt (c.plug (.mk d a p b)).inorder rt' := by
  obtain ⟨b', hne, hstraight, hkept⟩ := h.delStraighten hroot hb
  obtain ⟨t', hlifted, hkept'⟩ := hstraight.delLift hne hkept.root_black
  refine ⟨_, rbTreeDelFixup_last (Or.inl rfl), ?_⟩
  refine Rebuilt.setColor_black (hkept.keeps.trans hkept'.keeps) hlifted ?_ _ (Or.inr rfl)
  exact inorder_plug_congr c (hkept'.order.trans hkept.order)

/-- The loop ends, with the nodes in the same order. The induction is on the frames above `x`. -/
theorem rbTreeDelFixup_spec (h : Rep rt c t) (hparent : (rt.nodes t.index).parent = c.parent)
    (hroot : (rt.nodes rt.root).color = .black ∨ t.index = rt.root) (hn : c.length + 2 ≤ n) :
    ∃ rt', rbTreeDelFixup n rt t.index = some rt' ∧ Rebuilt rt (c.plug t).inorder rt' := by
  induction c generalizing rt t n with
  | nil =>
    obtain ⟨n, rfl⟩ : ∃ k, n = k + 1 := ⟨n - 1, by omega⟩
    have hx : t.index = rt.root := (h.focus.root_eq rfl).symm
    exact ⟨_, rbTreeDelFixup_last (Or.inl hx), Rebuilt.setColor_black (Keeps.refl rt) h rfl _ hroot⟩
  | cons g c ih =>
    obtain ⟨n, rfl⟩ : ∃ k, n = k + 2 := ⟨n - 2, by omega⟩
    by_cases hgo : t.index ≠ rt.root ∧ (rt.nodes t.index).color = .black
    swap
    · refine ⟨_, rbTreeDelFixup_last ?_, Rebuilt.setColor_black (Keeps.refl rt) h rfl _ hroot⟩
      by_cases hx : t.index = rt.root
      · exact Or.inl hx
      · cases hcol : (rt.nodes t.index).color with
        | red => exact Or.inr rfl
        | black => exact absurd ⟨hx, hcol⟩ hgo
    have hblack := hroot.resolve_right hgo.1
    rw [rbTreeDelFixup, if_pos hgo]
    simp only [hparent, parent_cons]
    generalize hd : (if t.index = (rt.nodes g.index).left then Side.left else Side.right) = d
    obtain ⟨a, p, b, hmk⟩ := exists_mk (t := .mk g.side t g.index g.sib) (by cases g.side <;> simp [NodeTree.mk]) d
    have hgp : g.index = p := by simpa using congrArg index hmk
    have hup : Rep rt c (.mk d a p b) := hmk ▸ cons_iff.mp h
    have hplug : (plug (g :: c) t).inorder = (plug c (.mk d a p b)).inorder := by rw [plug, hmk]
    rw [hplug, hgp]
    obtain hsame | ⟨w, b₁, b₂, hturned, hpred, hkept⟩ := hup.delTurn hblack
    · -- the loop goes on one node higher
      rw [hsame, hup.child_other_eq]
      by_cases hbb : BlackChildren rt b.index
      · rw [if_pos hbb]
        have hrep := hup.delRecolor b.index
        have hrb : ((rbTreeDelRecolor rt b.index).nodes (rbTreeDelRecolor rt b.index).root).color = .black := by
          rw [rbTreeDelRecolor_root, rbTreeDelRecolor_color hup.sibling_ne_root, hblack]
        obtain ⟨rt', hrun, hrebuilt⟩ := ih (n := n + 1) hrep (by rw [index_mk, hrep.parent_eq]) (Or.inl hrb)
          (by simp only [length_cons] at hn; omega)
        rw [index_mk] at hrun
        exact ⟨rt', hrun, hrebuilt.trans (rbTreeDelRecolor_keeps rt b.index)⟩
      · rw [if_neg hbb]
        exact hup.delEnd hblack hbb
    · -- the parent is red, so that this turn is the last but one
      have horder : (plug (⟨d, w, b₂⟩ :: c) (.mk d a p b₁)).inorder = (plug c (.mk d a p b)).inorder :=
        inorder_plug_congr c hkept.order
      rw [hturned.child_other_eq, ← horder]
      by_cases hbb : BlackChildren (rbTreeDelTurn d rt p) b₁.index
      · rw [if_pos hbb]
        have hrep := hturned.delRecolor b₁.index
        have hne := hturned.focus.child_ne.2
        have hred : ((rbTreeDelRecolor (rbTreeDelTurn d rt p) b₁.index).nodes p).color = .red := by
          rw [rbTreeDelRecolor_color (Ne.symm hne), hpred]
        refine ⟨_, rbTreeDelFixup_last (Or.inr hred), ?_⟩
        refine Rebuilt.setColor_black (hkept.keeps.trans (rbTreeDelRecolor_keeps _ _)) hrep rfl _ (Or.inl ?_)
        rw [rbTreeDelRecolor_root, rbTreeDelRecolor_color hturned.sibling_ne_root, hkept.root_black]
      · rw [if_neg hbb]
        obtain ⟨rt', hrun, hrebuilt⟩ := hturned.delEnd (n := n) hkept.root_black hbb
        exact ⟨rt', hrun, hrebuilt.trans hkept.keeps⟩

/-! ### A node leaves the tree -/

/-- The node `y` was taken from the right of `z`, and the rest of what was there hangs below it. -/
structure Detached (rt : RbTree) (c : Place) (z y : ℕ) (l r : NodeTree) : Prop where
  around : Around rt.links rt.root c z
  hangs : Hangs rt.links c.parent c.side z
  z_parent : (rt.links z).parent = c.parent
  z_left : (rt.links z).left = l.index
  left : Linked rt.links z l
  right : Linked rt.links y r
  y_right : (rt.links y).right = r.index
  y_ne : y ≠ 0
  nodup : (c.indices ++ z :: y :: (l.inorder ++ r.inorder)).Nodup
  tnil_black : (rt.nodes 0).color = .black
  tnil_childless : ∀ d, (rt.links 0).child d = 0

section
variable {z y : ℕ} {l r s : NodeTree}

theorem rbTreeSubstitute_keeps (rt : RbTree) (z y : ℕ) : Keeps rt (rbTreeSubstitute rt z y) :=
  ((((Keeps.refl rt).transplant _ _).setChild _ _ _).setParent _ _).setColor _ _

theorem rbTreeSubstitute_color (rt : RbTree) (z y i : ℕ) : ((rbTreeSubstitute rt z y).nodes i).color =
    if i = y then (rt.nodes z).color else (rt.nodes i).color := by
  simp [rbTreeSubstitute, color_setColor, color_transplant]

theorem rbTreeSubstitute_root (rt : RbTree) (z y : ℕ) :
    (rbTreeSubstitute rt z y).root = if (rt.links z).parent = 0 then y else rt.root := by
  simp [rbTreeSubstitute, root_transplant]

/-- What is apart from what, for the links below. -/
theorem Detached.apart (h : Detached rt c z y l r) :
    (c.parent = z → c.parent = 0) ∧ (c.parent = y → c.parent = 0) ∧
    z ≠ y ∧ l.index ≠ y ∧ (l.index = c.parent → c.parent = 0) := by
  have hc : c.parent ≠ 0 → c.parent ∈ c.indices := parent_mem
  have hl : l.index ≠ 0 → l.index ∈ l.inorder := index_mem_of_ne_zero
  have hy := h.y_ne
  have hnd := h.nodup
  refine ⟨?_, ?_, ?_, ?_, ?_⟩ <;> grind

/-- The links after `y` was put in the place of `z`. -/
theorem Detached.links_substitute (h : Detached rt c z y l r) (hz : z ≠ 0) (j : ℕ) :
    (rbTreeSubstitute rt z y).links j =
      if j = y then ((rt.links j).setParent c.parent).setChild .left l.index
      else if j = l.index then (rt.links j).setParent y
      else if j = c.parent ∧ c.parent ≠ 0 then (rt.links j).setChild c.side y
      else rt.links j := by
  obtain ⟨hpz, hpy, hzy, hly, hlp⟩ := h.apart
  have hpz' : c.parent ≠ z := fun h => hz (h.symm.trans (hpz h))
  have hmoved := links_transplant (v := y) h.z_parent h.hangs hpz' hpy
  have hzleft : ((rbTreeTransplant rt z y).nodes z).left = l.index := by
    have hsame : (rbTreeTransplant rt z y).links z = rt.links z := by
      rw [hmoved, if_neg hzy, if_neg fun h => hpz' h.1.symm]
    rw [← h.z_left, ← hsame]
    rfl
  have hyleft : (((rbTreeTransplant rt z y).setChild y .left l.index).nodes y).left = l.index := by
    have hlinks := links_setChild (rbTreeTransplant rt z y) y y .left l.index
    rw [if_pos rfl] at hlinks
    exact (congrArg Links.left hlinks).trans (Links.child_setChild_self _ .left _)
  rw [rbTreeSubstitute, hzleft, hyleft, links_setColor, links_setParent, links_setChild, hmoved]
  by_cases hjy : j = y
  · simp [hjy, hly.symm]
  · by_cases hjl : j = l.index
    · have hjp : ¬(j = c.parent ∧ c.parent ≠ 0) := fun h => h.2 (hlp (hjl.symm.trans h.1))
      simp only [if_neg hjy, if_pos hjl, if_neg hjp]
    · simp only [if_neg hjy, if_neg hjl]

/-- The sentinel keeps the parent that it was given. -/
theorem Detached.substitute_tnil (h : Detached rt c z y l r) (hz : z ≠ 0) (hl : l ≠ .nil) :
    (rbTreeSubstitute rt z y).links 0 = rt.links 0 := by
  have hl0 : l.index ≠ 0 := mt h.left.index_eq_zero.mp hl
  rw [h.links_substitute hz, if_neg h.y_ne.symm, if_neg hl0.symm, if_neg fun h => h.2 h.1.symm]

theorem Detached.substitute (h : Detached rt c z y l r) (hz : z ≠ 0) (hl : l ≠ .nil) :
    Rep (rbTreeSubstitute rt z y) c (.node l y r) := by
  have hlinks := h.links_substitute hz
  have hnd := h.nodup
  have hnodup : (c.indices ++ (NodeTree.mk .left l y r).inorder).Nodup := by
    refine ((inorder_mk_perm .left l y r).append_left _).nodup_iff.mpr ?_
    exact hnd.sublist (List.Sublist.append_left (sublist_cons_self z _) _)
  have hpm : c.parent ≠ 0 → c.parent ∈ c.indices := parent_mem
  have hlm := index_mem hl
  have hc0 := h.around.zero_notMem
  have hy0 := h.y_ne
  refine ⟨?_, ?_, ?_⟩
  · rw [rbTreeSubstitute_root, h.z_parent]
    refine Focus.rebuild (d := .left) h.around h.left h.right h.y_ne hnodup ?_ ?_ ?_ ?_ ?_ ?_
    · intro i hi
      grind
    · rw [hlinks, if_pos rfl, parent_setChild, parent_setParent]
    · rw [hlinks, if_pos rfl, child_setChild_self]
    · rw [hlinks, if_pos rfl, child_setChild_other, child_setParent]
      exact h.y_right
    · intro i hi
      grind
    · intro i hi
      rw [h.right.setParent_index hi]
      grind
  · rw [rbTreeSubstitute_color, if_neg hy0.symm]
    exact h.tnil_black
  · intro d
    rw [h.substitute_tnil hz hl]
    exact h.tnil_childless d

/-- Around `z` and on its left everything is as it was. -/
theorem Rep.detached {r' : NodeTree} (h : Rep rt c (.node l z r')) (hroot : rt'.root = rt.root)
    (hsame : ∀ i, i ∈ c.indices ∨ i = z ∨ i ∈ l.inorder → rt'.links i = rt.links i)
    (hr : Linked rt'.links y r) (hyr : (rt'.links y).right = r.index) (hy : y ≠ 0)
    (hnodup : (c.indices ++ z :: y :: (l.inorder ++ r.inorder)).Nodup)
    (hblack : (rt'.nodes 0).color = .black) (hchildless : ∀ d, (rt'.links 0).child d = 0) :
    Detached rt' c z y l r := by
  obtain ⟨-, hz, hl, -⟩ := h.focus.linked
  have hz' : rt'.links z = ⟨c.parent, l.index, r'.index⟩ := by rw [hsame z (by simp), hz]
  have hparent (hp : c.parent ≠ 0) : rt'.links c.parent = rt.links c.parent := hsame _ (Or.inl (parent_mem hp))
  refine ⟨?_, ⟨?_, ?_⟩, ?_, ?_, ?_, hr, hyr, hy, hnodup, hblack, hchildless⟩
  · rw [hroot]
    exact h.focus.around.congr fun i hi => hsame i (Or.inl hi)
  · intro hp
    rw [hparent hp]
    exact h.focus.child_eq hp
  · intro hp
    rw [hparent hp]
    exact h.focus.child_other_ne (by simp) hp
  · rw [hz']
  · rw [hz']
  · exact hl.congr fun i hi => hsame i (Or.inr (Or.inr hi))

theorem rbTreeDetach_keeps (rt : RbTree) (z y : ℕ) : Keeps rt (rbTreeDetach rt z y) := by
  rw [rbTreeDetach]
  split_ifs
  · exact (Keeps.refl rt).setParent _ _
  · exact (((Keeps.refl rt).transplant _ _).setChild _ _ _).setParent _ _

theorem rbTreeDetach_color (rt : RbTree) (z y i : ℕ) : ((rbTreeDetach rt z y).nodes i).color =
    (rt.nodes i).color := by
  rw [rbTreeDetach]
  split_ifs <;> simp [color_transplant]

/-- The first node on the right of `z`, where it is the child of `z`. -/
theorem Rep.detach_child (h : Rep rt c (.node l z (.node .nil y s))) :
    Detached (rbTreeDetach rt z y) c z y l s ∧ (rbTreeDetach rt z y).root = rt.root ∧
      (s = .nil → ((rbTreeDetach rt z y).links 0).parent = y) := by
  obtain ⟨hz0, hz, hl, hy0, hy, -, hs⟩ := h.focus.linked
  have hyp : (rt.nodes y).parent = z := congrArg Links.parent hy
  have hyr : (rt.nodes y).right = s.index := congrArg right hy
  rw [rbTreeDetach, if_pos hyp, hyr]
  -- only the parent of the sentinel can change
  have hsame (i : ℕ) (hi : i ≠ 0) : (rt.setParent s.index y).links i = rt.links i := by
    rw [links_setParent]
    split_ifs with his
    · have hmem : i ∈ s.inorder := his ▸ index_mem_of_ne_zero (his ▸ hi)
      have hset := hs.setParent_index hmem
      rwa [if_pos his] at hset
    · rfl
  have hzero := h.focus.zero_notMem
  simp only [mem_append, inorder, mem_cons, not_mem_nil, not_or] at hzero
  refine ⟨h.detached rfl ?_ ?_ ?_ hy0 ?_ ?_ ?_, rfl, ?_⟩
  · intro i hi
    refine hsame i ?_
    rintro rfl
    rcases hi with hi | hi | hi
    · exact hzero.1 hi
    · exact hz0 hi.symm
    · exact hzero.2.1 hi
  · refine hs.congr fun i hi => hsame i ?_
    rintro rfl
    exact hs.zero_notMem hi
  · rw [hsame y hy0, hy]
  · have hnd := h.focus.nodup
    refine (List.Perm.append_left _ ?_).nodup_iff.mp hnd
    exact perm_middle.trans (List.Perm.cons z perm_middle)
  · rw [color_setParent]
    exact h.tnil_black
  · intro d
    rw [links_setParent]
    split_ifs
    · rw [child_setParent]
      exact h.tnil_childless d
    · exact h.tnil_childless d
  · rintro rfl
    rw [links_setParent]
    exact congrArg Links.parent (if_pos rfl)

/-- The first node on the right of `z`, further down. -/
theorem Rep.detach_deep {f : Frame} {c' : Place}
    (h : Rep rt c (.node l z (plug (f :: c') (.node .nil y s)))) :
    Detached (rbTreeDetach rt z y) c z y l (plug (f :: c') s) ∧ (rbTreeDetach rt z y).root = rt.root ∧
      (s = .nil → ((rbTreeDetach rt z y).links 0).parent = f.index) := by
  have hdeep : Rep rt ((f :: c') ++ (⟨.right, z, l⟩ :: c)) (.node .nil y s) :=
    append_iff.mpr (cons_iff.mpr h)
  obtain ⟨hy0, hy, -, hs⟩ := hdeep.focus.linked
  have hyp : (rt.nodes y).parent = f.index := congrArg Links.parent hy
  have hyr : (rt.nodes y).right = s.index := congrArg right hy
  set rt₁ := rbTreeTransplant rt y s.index with hrt₁
  have hmoved : Rep rt₁ ((f :: c') ++ (⟨.right, z, l⟩ :: c)) s :=
    transplant (d := .left) hdeep
  have hmoved' : Rep rt₁ c (.node l z (plug (f :: c') s)) :=
    cons_iff.mp (append_iff.mp hmoved)
  generalize hr : plug (f :: c') s = r at hmoved' ⊢
  have hfr : f.index ∈ r.inorder := by
    rw [← hr]
    exact mem_plug.mpr (Or.inl mem_cons_self)
  have hnodup : (c.indices ++ z :: y :: (l.inorder ++ r.inorder)).Nodup := by
    have hnd := h.focus.nodup
    refine (List.Perm.append_left _ ?_).nodup_iff.mp hnd
    have hplug : (plug (f :: c') (.node .nil y s)).inorder.Perm (y :: r.inorder) := by
      rw [← hr, inorder_plug, inorder_plug]
      simp only [inorder, nil_append, append_assoc, cons_append]
      exact perm_middle
    refine ((hplug.cons z).append_left _).trans (perm_middle.trans (List.Perm.cons z ?_))
    exact perm_middle
  obtain ⟨hz0, hz, -, hlr⟩ := hmoved'.focus.linked
  have hr0 := hlr.zero_notMem
  have hri : r.index ∈ r.inorder := index_mem (by rintro rfl; cases hfr)
  have hrnd : r.inorder.Nodup := by
    have h₁ := (nodup_append.mp hnodup).2.1
    exact (nodup_append.mp (nodup_cons.mp (nodup_cons.mp h₁).2).2).2.1
  have hfz : f.index ≠ z := by grind
  have hzr : (rt₁.nodes z).right = r.index := congrArg right hz
  have hyr' : ((rt₁.setChild y .right r.index).nodes y).right = r.index := by
    have hlinks := links_setChild rt₁ y y .right r.index
    rw [if_pos rfl] at hlinks
    exact (congrArg right hlinks).trans (child_setChild_self _ .right _)
  have hdetach : rbTreeDetach rt z y =
      (rt₁.setChild y .right r.index).setParent r.index y := by
    rw [rbTreeDetach, if_neg (by rwa [hyp]), hyr, ← hrt₁]
    simp only [hzr, hyr']
  have hlinks (i : ℕ) : (rbTreeDetach rt z y).links i =
      if i = r.index then (rt₁.links i).setParent y
      else if i = y then (rt₁.links i).setChild .right r.index
      else rt₁.links i := by
    rw [hdetach, links_setParent, links_setChild]
    by_cases hi : i = r.index
    · have hiy : i ≠ y := by grind
      simp only [if_pos hi, if_neg hiy]
    · simp only [if_neg hi]
  have hroot : (rbTreeDetach rt z y).root = rt₁.root := by rw [hdetach]; rfl
  have hroot' : rt₁.root = rt.root := by
    rw [root_transplant, if_neg]
    intro h0
    exact hr0 (hyp.symm.trans h0 ▸ hfr)
  refine ⟨hmoved'.detached hroot ?_ ?_ ?_ hy0 hnodup ?_ ?_, hroot.trans hroot', ?_⟩
  · intro i hi
    rw [hlinks, if_neg (by grind), if_neg (by grind)]
  · refine hlr.reparent hrnd fun i hi => ?_
    rw [hlinks]
    by_cases hir : i = r.index
    · simp only [if_pos hir]
    · simp only [if_neg hir, if_neg (show i ≠ y by grind)]
  · rw [hlinks, if_neg (by grind), if_pos rfl]
    exact child_setChild_self _ .right _
  · rw [rbTreeDetach_color]
    exact h.tnil_black
  · intro d
    rw [hlinks, if_neg (by grind), if_neg (by grind)]
    exact hmoved.tnil_childless d
  · rintro rfl
    rw [hlinks, if_neg (by grind), if_neg (by grind)]
    exact (parent_transplant rt y 0).trans hyp

/-- In either case the sentinel is given the parent of the place that `y` leaves, where nothing comes after it. -/
theorem Rep.detach {c' : Place} (h : Rep rt c (.node l z (c'.plug (.node .nil y s)))) :
    Detached (rbTreeDetach rt z y) c z y l (c'.plug s) ∧ (rbTreeDetach rt z y).root = rt.root ∧
      (s = .nil → ((rbTreeDetach rt z y).links 0).parent = parent (c' ++ ⟨.right, y, l⟩ :: c)) := by
  cases c' with
  | nil => exact h.detach_child
  | cons f c' => exact h.detach_deep

/-- The tree without a node, and where the fix-up starts. -/
structure Unlinked (rt : RbTree) (is : List ℕ) (rt' : RbTree) (x : ℕ) (yOriginalColor : RbNodeColor) : Prop where
  keeps : Keeps rt rt'
  rep : ∃ c t, Rep rt' c t ∧ index t = x ∧ (rt'.nodes x).parent = c.parent ∧ (c.plug t).inorder = is
  root_black : (rt'.nodes rt'.root).color = .black ∨ x = rt'.root ∧ yOriginalColor = .black

/-- A node with one subtree. -/
theorem Rep.unlink_one (h : Rep rt c (.mk d .nil z t)) (hroot : (rt.nodes rt.root).color = .black) :
    Unlinked rt (c.plug t).inorder (rbTreeTransplant rt z t.index) t.index (rt.nodes z).color := by
  have hzp : (rt.links z).parent = c.parent := h.parent_eq
  refine ⟨(Keeps.refl rt).transplant _ _, ⟨c, t, h.transplant, rfl, ?_, rfl⟩, ?_⟩
  · exact (parent_transplant rt z t.index).trans hzp
  · rw [root_transplant, hzp, color_transplant]
    by_cases hp : c.parent = 0
    · -- the node was the root, which is black
      right
      have hrz : rt.root = z := by simpa using h.focus.root_eq hp
      rw [if_pos hp]
      exact ⟨rfl, hrz ▸ hroot⟩
    · left
      rw [if_neg hp, hroot]

/-- The colours and the root after `y` took the place of `z`. -/
theorem Detached.root_black {r' : NodeTree} (h : Rep rt c (.node l z r'))
    (hdet : Detached rt' c z y l r) (hroot : (rt.nodes rt.root).color = .black)
    (hsame : rt'.root = rt.root) (hcolor : ∀ i, (rt'.nodes i).color = (rt.nodes i).color)
    (hyr : y ∈ r'.inorder) :
    ((rbTreeSubstitute rt' z y).nodes (rbTreeSubstitute rt' z y).root).color = .black := by
  rw [rbTreeSubstitute_root, hdet.z_parent, rbTreeSubstitute_color]
  by_cases hp : c.parent = 0
  · have hrz : rt.root = z := h.focus.root_eq hp
    simp only [if_pos hp, if_true]
    rw [hcolor, ← hrz, hroot]
  · have hry : rt.root ≠ y := by
      rintro rfl
      exact h.focus.root_notMem hp (by simp [inorder, hyr])
    rw [if_neg hp, hsame, if_neg hry, hcolor, hroot]

/-- A node with two subtrees. -/
theorem Rep.unlink_two {c' : Place} (h : Rep rt c (.node l z (c'.plug (.node .nil y s)))) (hl : l ≠ .nil)
    (hroot : (rt.nodes rt.root).color = .black) :
    Unlinked rt (c.plug (.node l y (c'.plug s))).inorder (rbTreeSubstitute (rbTreeDetach rt z y) z y) s.index
      (rt.nodes y).color := by
  obtain ⟨hdet, hsame, htnil⟩ := h.detach
  have hz0 : z ≠ 0 := h.focus.linked.1
  have hyr : y ∈ (c'.plug (.node .nil y s)).inorder := mem_plug.mpr (Or.inr (by simp [inorder]))
  have hrep := hdet.substitute hz0 hl
  have hdeep : Rep (rbTreeSubstitute (rbTreeDetach rt z y) z y) (c' ++ ⟨.right, y, l⟩ :: c) s :=
    append_iff.mpr (cons_iff.mpr hrep)
  refine ⟨(rbTreeDetach_keeps rt z y).trans (rbTreeSubstitute_keeps _ _ _),
    ⟨_, s, hdeep, rfl, ?_, ?_⟩, Or.inl ?_⟩
  · by_cases hs : s = .nil
    · have hkept := congrArg Links.parent (hdet.substitute_tnil hz0 hl)
      rw [htnil hs] at hkept
      rw [hs]
      exact hkept
    · obtain ⟨a, i, b, rfl⟩ := exists_mk hs .left
      rw [index_mk, hdeep.parent_eq]
  · rw [plug_append]
    rfl
  · exact hdet.root_black h hroot hsame (rbTreeDetach_color rt z y) hyr

/-- The first part of a deletion: the other nodes stay, in the same order. -/
theorem rbTreeUnlink_spec (h : Rep rt c (.node l z r)) (hroot : (rt.nodes rt.root).color = .black)
    (hn : r.inorder.length ≤ rt.turns) : ∃ rt' x col, rbTreeUnlink rt z = some (rt', x, col) ∧
      Unlinked rt ((beyond .left c).reverse ++ (l.inorder ++ r.inorder) ++ beyond .right c) rt' x col := by
  obtain ⟨-, hz, -, hlr⟩ := h.focus.linked
  have hleft : (rt.nodes z).left = l.index := congrArg left hz
  have hright : (rt.nodes z).right = r.index := congrArg right hz
  rw [rbTreeUnlink, hleft, hright]
  by_cases hl : l = .nil
  · subst hl
    refine ⟨_, _, _, if_pos rfl, ?_⟩
    simpa [inorder_plug, inorder] using unlink_one (d := .left) h hroot
  · rw [if_neg (mt h.focus.linked.2.2.1.index_eq_zero.mp hl)]
    by_cases hr : r = .nil
    · subst hr
      refine ⟨_, _, _, if_pos rfl, ?_⟩
      simpa [inorder_plug, inorder] using unlink_one (d := .right) h hroot
    · rw [if_neg (mt hlr.index_eq_zero.mp hr)]
      obtain ⟨c', y, s, hmin, rfl, hc'⟩ := rbTreeOutermost_spec .left hlr hr hn
      have hmin' : rbTreeMinSubtree rt (c'.plug (.mk .left .nil y s)).index = some y := hmin
      have hy : (rt.nodes y).right = s.index := by
        have hdeep : Rep rt (c' ++ ⟨.right, z, l⟩ :: c) (.node .nil y s) := append_iff.mpr (cons_iff.mpr h)
        exact congrArg right hdeep.focus.linked.2.1
      have hunlinked := unlink_two h hl hroot
      refine ⟨_, _, _, by rw [hmin']; rfl, ?_⟩
      -- `y` comes first in what was on the right
      have horder : (c'.plug (.mk .left .nil y s)).inorder = y :: (c'.plug s).inorder := by
        rw [inorder_plug, inorder_plug, beyond_eq_nil hc']
        simp [NodeTree.mk, inorder]
      rw [hy, horder]
      simpa [inorder_plug c, inorder] using hunlinked

end

/-! ### `rb_tree_del_node` -/

/-- The tree without the node `z`, and every other node as it was. -/
structure Deleted (ltfn : RbTreeLtFn) (rt : RbTree) (t : NodeTree) (z : ℕ) (rt' : RbTree) (t' : NodeTree) : Prop where
  shape : Shape rt' t'
  sorted : rt'.Sorted ltfn t'.inorder
  mem_iff : ∀ i, i ∈ t'.inorder ↔ i ≠ z ∧ i ∈ t.inorder
  key : ∀ i, (rt'.nodes i).key = (rt.nodes i).key
  value : ∀ i, (rt'.nodes i).opaqueValue = (rt.nodes i).opaqueValue

theorem rbTreeDelNodeInternal_spec {l r : NodeTree} {z : ℕ} (h : Rep rt c (.node l z r))
    (hroot : (rt.nodes rt.root).color = .black) (hn : (c.plug (.node l z r)).inorder.length < rt.len) :
    ∃ rt', rbTreeDelNodeInternal rt z = some rt' ∧
      Rebuilt rt ((beyond .left c).reverse ++ (l.inorder ++ r.inorder) ++ beyond .right c) rt' := by
  have hlen := congrArg List.length (inorder_plug c (.node l z r))
  simp only [inorder, length_append, length_cons] at hlen
  obtain ⟨rt₁, x, col, hunlink, hunlinked⟩ := rbTreeUnlink_spec h hroot (by simp only [turns]; omega)
  obtain ⟨c₁, t₁, hrep, rfl, hparent, horder⟩ := hunlinked.rep
  rw [rbTreeDelNodeInternal, hunlink]
  by_cases hcol : col = .red
  · refine ⟨rt₁, by simp [hcol], hunlinked.keeps, ⟨_, hrep.whole, horder⟩, ?_⟩
    exact hunlinked.root_black.resolve_right fun h => by cases h.2.symm.trans hcol
  · have hdepth := c₁.length_add_le t₁
    simp only [horder, length_append] at hdepth
    obtain ⟨rt', hfixup, hrebuilt⟩ := rbTreeDelFixup_spec (n := rt₁.turns) hrep hparent
      (hunlinked.root_black.imp_right And.left) (by simp only [turns, hunlinked.keeps.len]; omega)
    exact ⟨rt', by simp [hcol, hfixup], horder ▸ hrebuilt.trans hunlinked.keeps⟩

theorem mem_append_iff_of_nodup_middle {as bs : List ℕ} {z i : ℕ} (hnd : (as ++ z :: bs).Nodup) :
    i ∈ as ++ bs ↔ i ≠ z ∧ i ∈ as ++ z :: bs := by
  rw [nodup_middle, nodup_cons] at hnd
  rw [perm_middle.mem_iff, mem_cons]
  constructor
  · intro hi
    refine ⟨?_, Or.inr hi⟩
    rintro rfl
    exact hnd.1 hi
  · exact fun h => h.2.resolve_left h.1

theorem rbTreeDelNode_spec {ltfn : RbTreeLtFn} {z : ℕ} (h : Shape rt t) (hs : rt.Sorted ltfn t.inorder)
    (hz : z ∈ t.inorder) : ∃ rt' t', rbTreeDelNode rt z = some rt' ∧ Deleted ltfn rt t z rt' t' := by
  obtain ⟨c, l, r, rfl⟩ := exists_place hz
  have hplace : Rep rt c (.node l z r) := by simpa using append_iff.mpr h.rep
  obtain ⟨rt₁, hdel, hrebuilt⟩ := rbTreeDelNodeInternal_spec hplace h.root_black h.length_lt
  obtain ⟨t', hrep, horder⟩ := hrebuilt.rep
  have hold : (c.plug (.node l z r)).inorder =
      ((beyond .left c).reverse ++ l.inorder) ++ z :: (r.inorder ++ beyond .right c) := by
    simp [inorder_plug, inorder]
  have hnew : t'.inorder = ((beyond .left c).reverse ++ l.inorder) ++ (r.inorder ++ beyond .right c) := by
    simp [horder]
  have hnd : (c.plug (.node l z r)).inorder.Nodup := by simpa [indices] using h.rep.focus.nodup
  have hsub : t'.inorder.Sublist (c.plug (.node l z r)).inorder := by
    rw [hold, hnew]
    exact List.Sublist.append_left (sublist_cons_self _ _) _
  have hmem (i : ℕ) : i ∈ t'.inorder ↔ i ≠ z ∧ i ∈ (c.plug (.node l z r)).inorder := by
    rw [hold] at hnd ⊢
    rw [hnew, mem_append_iff_of_nodup_middle hnd]
  refine ⟨rt₁.poolPut z, t', by simp [rbTreeDelNode, hdel],
    ⟨⟨?_, ?_, ?_⟩, hrebuilt.root_black, ?_⟩, ?_, hmem,
    hrebuilt.keeps.key, hrebuilt.keeps.value⟩
  · exact hrep.focus
  · exact hrep.tnil_black
  · exact hrep.tnil_childless
  · have hpooled := h.pooled.of_keeps hrebuilt.keeps
    have hz0 : z ≠ 0 := by
      rintro rfl
      exact h.rep.focus.linked.zero_notMem hz
    refine ⟨hpooled.len_pos, fun i hi => hpooled.lt_len i ((hmem i).mp hi).2, ?_, ?_, ?_, ?_⟩
    · exact forall_mem_cons.mpr ⟨hpooled.lt_len z hz, hpooled.free_lt⟩
    · exact forall_mem_cons.mpr ⟨hz0, hpooled.free_ne⟩
    · intro i hi hit
      rcases mem_cons.mp hi with rfl | hi
      · exact ((hmem i).mp hit).1 rfl
      · exact hpooled.free_notMem i hi ((hmem i).mp hit).2
    · exact nodup_cons.mpr ⟨fun hfree => hpooled.free_notMem z hfree hz, hpooled.free_nodup⟩
  · have hs' := hs.sublist hsub
    refine List.Pairwise.imp (fun {i j} hij => ?_) hs'
    change ltfn (rt₁.nodes i).key (rt₁.nodes j).key
    rwa [hrebuilt.keeps.key, hrebuilt.keeps.key]

end

end Vpp.Vppinfra
