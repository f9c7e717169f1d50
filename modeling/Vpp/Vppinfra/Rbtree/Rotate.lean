import Vpp.Vppinfra.Rbtree.Model

/-! What the writes of the red-black tree do to its links.

    Rotations, transplants and the hanging of a node are described index by index, and from that as operations on the
    tree seen from a place. None of them touches a key, a value or the pool (`Keeps`), and none needs to know what
    colours the nodes have. -/

namespace Vpp.Vppinfra
open Vpp.Schemes List RbTree NodeTree

namespace RbTree

def links (rt : RbTree) (i : ℕ) : Links := (rt.nodes i).toLinks

section
variable (rt : RbTree) (i j p : ℕ) (d : Side) (c : RbNodeColor)

@[simp] theorem links_setColor : (rt.setColor i c).links = rt.links := by
  funext j
  by_cases h : j = i <;> simp [links, setColor, modify, h]

theorem links_setParent : (rt.setParent i p).links j = if j = i then (rt.links j).setParent p else rt.links j := by
  by_cases h : j = i <;> simp [links, setParent, modify, h]

theorem links_setChild (k : ℕ) :
    (rt.setChild i d k).links j = if j = i then (rt.links j).setChild d k else rt.links j := by
  by_cases h : j = i <;> simp [links, setChild, modify, h]

@[simp] theorem root_setColor : (rt.setColor i c).root = rt.root := rfl

@[simp] theorem root_setParent : (rt.setParent i p).root = rt.root := rfl

@[simp] theorem root_setChild : (rt.setChild i d j).root = rt.root := rfl

theorem color_setColor :
    ((rt.setColor i c).nodes j).color = if j = i then c else (rt.nodes j).color := by
  by_cases h : j = i <;> simp [setColor, modify, h]

@[simp] theorem color_setParent : ((rt.setParent i p).nodes j).color = (rt.nodes j).color := by
  by_cases h : j = i <;> simp [setParent, modify, h]

@[simp] theorem color_setChild (k : ℕ) : ((rt.setChild i d k).nodes j).color = (rt.nodes j).color := by
  by_cases h : j = i <;> simp [setChild, modify, h]

@[simp] theorem color_replaceChild (k : ℕ) : ((rt.replaceChild d p i k).nodes j).color = (rt.nodes j).color := by
  unfold replaceChild
  split_ifs <;> simp

@[simp] theorem color_handOver (k : ℕ) : ((rt.handOver d i k).nodes j).color = (rt.nodes j).color := by
  unfold handOver
  split_ifs <;> simp

@[simp] theorem root_handOver (k : ℕ) : (rt.handOver d i k).root = rt.root := by
  unfold handOver
  split_ifs <;> rfl

end

/-! ### What is kept -/

/-- Keys, values and the pool are the same. -/
structure Keeps (rt rt' : RbTree) : Prop where
  key : ∀ i, (rt'.nodes i).key = (rt.nodes i).key
  value : ∀ i, (rt'.nodes i).opaqueValue = (rt.nodes i).opaqueValue
  len : rt'.len = rt.len
  free : rt'.free = rt.free

namespace Keeps
variable {rt rt' rt'' : RbTree} {i j p : ℕ} {d : Side}

theorem refl (rt : RbTree) : Keeps rt rt := ⟨fun _ => rfl, fun _ => rfl, rfl, rfl⟩

section

variable (h : Keeps rt rt')
include h

theorem trans (h' : Keeps rt' rt'') : Keeps rt rt'' :=
  ⟨fun i => (h'.key i).trans (h.key i), fun i => (h'.value i).trans (h.value i), h'.len.trans h.len,
    h'.free.trans h.free⟩

theorem modify {f : RbNode → RbNode} (hkey : ∀ n, (f n).key = n.key)
    (hvalue : ∀ n, (f n).opaqueValue = n.opaqueValue) : Keeps rt (rt'.modify i f) := by
  refine h.trans ⟨fun j => ?_, fun j => ?_, rfl, rfl⟩
  · by_cases hj : j = i <;> simp [RbTree.modify, hj, hkey]
  · by_cases hj : j = i <;> simp [RbTree.modify, hj, hvalue]

theorem setColor (i : ℕ) (c : RbNodeColor) : Keeps rt (rt'.setColor i c) :=
  h.modify (fun _ => rfl) (fun _ => rfl)

theorem setParent (i p : ℕ) : Keeps rt (rt'.setParent i p) :=
  h.modify (fun _ => rfl) (fun _ => rfl)

theorem setChild (i : ℕ) (d : Side) (j : ℕ) : Keeps rt (rt'.setChild i d j) :=
  h.modify (fun _ => rfl) (fun _ => rfl)

theorem setRoot (i : ℕ) : Keeps rt { rt' with root := i } := h.trans ⟨fun _ => rfl, fun _ => rfl, rfl, rfl⟩

theorem replaceChild (d : Side) (p i j : ℕ) : Keeps rt (rt'.replaceChild d p i j) := by
  unfold RbTree.replaceChild
  split_ifs
  · exact h.setRoot j
  · exact h.setChild _ _ _
  · exact h.setChild _ _ _

theorem handOver (d : Side) (x b : ℕ) : Keeps rt (rt'.handOver d x b) := by
  unfold RbTree.handOver
  split_ifs
  · exact (h.setChild _ _ _).setParent _ _
  · exact h.setChild _ _ _

theorem rotate (d : Side) (x : ℕ) : Keeps rt (rbTreeRotate d rt' x) := by
  exact ((((h.handOver _ _ _).setParent _ _).replaceChild _ _ _ _).setChild _ _ _).setParent _ _

theorem transplant (u v : ℕ) : Keeps rt (rbTreeTransplant rt' u v) :=
  (h.replaceChild _ _ _ _).setParent _ _

end

end Keeps

theorem color_rotate (d : Side) (rt : RbTree) (x i : ℕ) :
    ((rbTreeRotate d rt x).nodes i).color = (rt.nodes i).color := by
  simp [rbTreeRotate]

theorem color_transplant (rt : RbTree) (u v i : ℕ) :
    ((rbTreeTransplant rt u v).nodes i).color = (rt.nodes i).color := by
  simp [rbTreeTransplant]

/-! ### Links, index by index -/

/-- The node `x` is where `p` has it on side `e`, or it is the root. -/
structure Hangs (m : ℕ → Links) (p : ℕ) (e : Side) (x : ℕ) : Prop where
  at_side : p ≠ 0 → (m p).child e = x
  not_other : p ≠ 0 → (m p).child e.other ≠ x

variable {rt : RbTree} {p x y b v : ℕ} {d e : Side}

theorem root_replaceChild (rt : RbTree) (d : Side) (p x y : ℕ) :
    (rt.replaceChild d p x y).root = if p = 0 then y else rt.root := by
  unfold replaceChild
  split_ifs <;> rfl

theorem links_replaceChild (h : Hangs rt.links p e x) (j : ℕ) : (rt.replaceChild d p x y).links j =
    if j = p ∧ p ≠ 0 then (rt.links j).setChild e y else rt.links j := by
  unfold replaceChild
  by_cases hp : p = 0
  · rw [if_pos hp, if_neg fun h => h.2 hp]
    rfl
  · rw [if_neg hp]
    have hchild : (rt.nodes p).child d = x ↔ d = e := by
      constructor
      · intro hd
        by_contra hne
        exact h.not_other hp (Side.eq_other_of_ne hne ▸ hd)
      · rintro rfl
        exact h.at_side hp
    by_cases hd : d = e
    · subst hd
      rw [if_pos (hchild.mpr rfl), links_setChild]
      simp [hp]
    · rw [if_neg (mt hchild.mp hd), links_setChild, Side.eq_other_of_ne hd, Side.other_other]
      simp [hp]

theorem links_handOver (hbx : b ≠ x) (j : ℕ) : (rt.handOver d x b).links j =
    if j = x then (rt.links j).setChild d b else if j = b ∧ b ≠ 0 then (rt.links j).setParent x
    else rt.links j := by
  unfold handOver
  by_cases hb : b = 0
  · rw [if_neg (not_not.mpr hb), links_setChild, if_neg fun h : j = b ∧ b ≠ 0 => h.2 hb]
  · rw [if_pos hb, links_setParent, links_setChild]
    by_cases hj : j = x
    · simp [hj, hbx.symm]
    · simp [hj, hb]

theorem parent_handOver (hbx : b ≠ x) : ((rt.handOver d x b).links x).parent = (rt.links x).parent := by
  rw [links_handOver hbx, if_pos rfl, Links.parent_setChild]

section

variable (hy : (rt.links x).child d.other = y)
include hy

section
variable (hb : (rt.links y).child d = b) (hbx : b ≠ x) (hp : (rt.links x).parent = p)
include hb hbx hp

theorem rbTreeRotate_eq : rbTreeRotate d rt x =
      (((((rt.handOver d.other x b).setParent y p).replaceChild d p x y).setChild y d x).setParent x y) := by
  subst hy hb hp
  rw [← parent_handOver hbx]
  rfl

theorem root_rotate : (rbTreeRotate d rt x).root = if p = 0 then y else rt.root := by
  rw [rbTreeRotate_eq hy hb hbx hp]
  simp [root_replaceChild]

end

/-- The links after a rotation. -/
theorem links_rotate (hb : (rt.links y).child d = b) (hp : (rt.links x).parent = p)
    (hangs : Hangs rt.links p e x) (hxy : x ≠ y) (hbx : b ≠ x) (hby : b ≠ y) (hpx : p ≠ x)
    (hpy : p ≠ y) (hpb : p = b → p = 0) (j : ℕ) : (rbTreeRotate d rt x).links j =
      if j = x then ((rt.links j).setChild d.other b).setParent y
      else if j = y then ((rt.links j).setParent p).setChild d x
      else if j = p ∧ p ≠ 0 then (rt.links j).setChild e y
      else if j = b ∧ b ≠ 0 then (rt.links j).setParent x
      else rt.links j := by
  have hmoved (i : ℕ) : ((rt.handOver d.other x b).setParent y p).links i =
      if i = y then (rt.links i).setParent p else if i = x then (rt.links i).setChild d.other b
      else if i = b ∧ b ≠ 0 then (rt.links i).setParent x else rt.links i := by
    rw [links_setParent, links_handOver hbx]
    by_cases hi : i = y
    · simp [hi, hxy.symm, hby.symm]
    · simp [hi]
  have hhangs : Hangs ((rt.handOver d.other x b).setParent y p).links p e x := by
    have hsame (hp0 : p ≠ 0) : ((rt.handOver d.other x b).setParent y p).links p = rt.links p := by
      rw [hmoved, if_neg hpy, if_neg hpx, if_neg fun h => hp0 (hpb h.1)]
    exact ⟨fun h => (hsame h).symm ▸ hangs.at_side h, fun h => (hsame h).symm ▸ hangs.not_other h⟩
  rw [rbTreeRotate_eq hy hb hbx hp, links_setParent, links_setChild, links_replaceChild hhangs, hmoved]
  by_cases hjx : j = x
  · simp [hjx, hxy, hpx.symm]
  · by_cases hjy : j = y
    · simp [hjy, hxy.symm, hpy.symm]
    · by_cases hjp : j = p ∧ p ≠ 0
      · have hjb : ¬(j = b ∧ b ≠ 0) := fun h => hjp.2 (hpb (hjp.1.symm.trans h.1))
        simp only [if_neg hjx, if_neg hjy, if_pos hjp, if_neg hjb]
      · simp [hjx, hjy, hjp]

end

/-- Which side `x` is on, as the source finds out. -/
theorem Hangs.side_eq (h : Hangs rt.links p e x) (hp : p ≠ 0) :
    (if x = (rt.nodes p).left then Side.left else Side.right) = e := by
  have hside := h.at_side hp
  have hother := h.not_other hp
  cases e with
  | left => exact if_pos hside.symm
  | right => exact if_neg (Ne.symm hother)

theorem root_transplant (rt : RbTree) (u v : ℕ) :
    (rbTreeTransplant rt u v).root = if (rt.links u).parent = 0 then v else rt.root := by
  rw [rbTreeTransplant, root_setParent, root_replaceChild]
  rfl

theorem parent_replaceChild (rt : RbTree) (d : Side) (p x y i : ℕ) :
    ((rt.replaceChild d p x y).links i).parent = (rt.links i).parent := by
  unfold replaceChild
  split_ifs
  · rfl
  · rw [links_setChild]
    split_ifs <;> simp
  · rw [links_setChild]
    split_ifs <;> simp

/-- What replaces a node gets its parent; for the sentinel, this is where the fix-up finds it. -/
theorem parent_transplant (rt : RbTree) (u v : ℕ) :
    ((rbTreeTransplant rt u v).links v).parent = (rt.links u).parent := by
  rw [rbTreeTransplant, links_setParent, if_pos rfl, Links.parent_setParent]
  exact parent_replaceChild rt _ _ _ _ u

/-- The links after a transplant; `v` may be the sentinel. -/
theorem links_transplant (hp : (rt.links x).parent = p) (hangs : Hangs rt.links p e x) (hpx : p ≠ x)
    (hpv : p = v → p = 0)
    (j : ℕ) : (rbTreeTransplant rt x v).links j =
      if j = v then (rt.links j).setParent p
      else if j = p ∧ p ≠ 0 then (rt.links j).setChild e v
      else rt.links j := by
  subst hp
  have hparent : (((rt.replaceChild .left (rt.nodes x).parent x v)).nodes x).parent = (rt.links x).parent := by
    have h := links_replaceChild (d := .left) (y := v) hangs x
    rw [if_neg fun h => hpx h.1.symm] at h
    exact congrArg Links.parent h
  rw [rbTreeTransplant, links_setParent, hparent]
  have hrest := links_replaceChild (d := .left) (y := v) hangs j
  by_cases hjv : j = v
  · rw [if_pos hjv, if_pos hjv]
    rw [if_neg fun h => h.2 (hpv (h.1.symm.trans hjv))] at hrest
    exact congrArg (Links.setParent · _) hrest
  · rw [if_neg hjv, if_neg hjv]
    exact hrest

end RbTree

/-! ### Trees -/

/-- The tree in memory, seen from a place, and the sentinel: black and without children. -/
structure Rep (rt : RbTree) (c : Place) (t : NodeTree) : Prop where
  focus : Focus rt.links rt.root c t
  tnil_black : (rt.nodes 0).color = .black
  tnil_childless : ∀ d, (rt.links 0).child d = 0

namespace Rep
variable {rt : RbTree} {c : Place} {t : NodeTree}

theorem hangs (h : Rep rt c t) (ht : t ≠ .nil) : Hangs rt.links c.parent c.side t.index :=
  ⟨fun hp => h.focus.child_eq hp, fun hp => h.focus.child_other_ne ht hp⟩

section
variable {d : Side} {a b : NodeTree} {i : ℕ} (h : Rep rt c (.mk d a i b))
include h

theorem parent_eq : (rt.nodes i).parent = c.parent := (linked_mk.mp h.focus.linked).2.1

theorem child_other_eq : (rt.nodes i).child d.other = b.index := (linked_mk.mp h.focus.linked).2.2.2.1

end

theorem cons_iff {f : Frame} : Rep rt (f :: c) t ↔ Rep rt c (.mk f.side t f.index f.sib) :=
  ⟨fun h => ⟨Focus.cons_iff.mp h.focus, h.tnil_black, h.tnil_childless⟩,
    fun h => ⟨Focus.cons_iff.mpr h.focus, h.tnil_black, h.tnil_childless⟩⟩

theorem append_iff {c' : Place} : Rep rt (c ++ c') t ↔ Rep rt c' (c.plug t) :=
  ⟨fun h => ⟨Focus.append_iff.mp h.focus, h.tnil_black, h.tnil_childless⟩,
    fun h => ⟨Focus.append_iff.mpr h.focus, h.tnil_black, h.tnil_childless⟩⟩

theorem whole (h : Rep rt c t) : Rep rt [] (c.plug t) := append_iff.mp (by rwa [append_nil])

/-- A node other than the sentinel may have any colour. -/
theorem setColor (h : Rep rt c t) (i : ℕ) (col : RbNodeColor) (hi : i = 0 → col = .black) :
    Rep (rt.setColor i col) c t := by
  refine ⟨by simpa using h.focus, ?_, by simpa using h.tnil_childless⟩
  rw [color_setColor]
  split_ifs with h0
  · exact hi h0.symm
  · exact h.tnil_black

/-- A node that is red is a node. -/
theorem ne_nil_of_red {t : NodeTree} (h : Rep rt c t) {s : NodeTree}
    (hs : (rt.nodes s.index).color = .red) : s ≠ .nil := by
  rintro rfl
  rw [show index .nil = 0 from rfl, h.tnil_black] at hs
  cases hs

/-- A rotation, and what it makes the root. -/
theorem rotate_and_root {d : Side} {a b e : NodeTree} {x y : ℕ} (h : Rep rt c (.mk d a x (.mk d b y e))) :
    Rep (rbTreeRotate d rt x) c (.mk d (.mk d a x b) y e) ∧
      (rbTreeRotate d rt x).root = if c.parent = 0 then y else rt.root := by
  obtain ⟨hx0, hp, -, hxy, -, hly⟩ := linked_mk.mp h.focus.linked
  rw [index_mk] at hxy
  obtain ⟨hy0, -, hyb, -, hlb, -⟩ := linked_mk.mp hly
  have hnd : (c.indices ++ x :: (a.inorder ++ y :: (b.inorder ++ e.inorder))).Nodup := by
    refine (List.Perm.nodup_iff (List.Perm.append_left _ ?_)).mp h.focus.nodup
    refine (inorder_mk_perm _ _ _ _).trans (List.Perm.cons _ (List.Perm.append_left _ ?_))
    exact inorder_mk_perm _ _ _ _
  have hangs : Hangs rt.links c.parent c.side x := by
    simpa using h.hangs (t := .mk d a x (.mk d b y e)) (by cases d <;> simp [NodeTree.mk])
  have hpm : c.parent ≠ 0 → c.parent ∈ c.indices := Place.parent_mem
  have hc0 := h.focus.around.zero_notMem
  have hbm : b.index ≠ 0 → b.index ∈ b.inorder := index_mem_of_ne_zero
  have hlinks := links_rotate hxy hyb hp hangs (by grind) (by grind) (by grind) (by grind) (by grind) (by grind)
  have hfocus : Focus (rbTreeRotate d rt x).links (if c.parent = 0 then y else rt.root) c
    (.mk d (.mk d a x b) y e) := by
    refine h.focus.rotate ?_ ?_ ?_ ?_ ?_ ?_
    · intro i hi
      grind
    · grind
    · grind
    · grind
    · grind
    · have h0 := hlb.zero_notMem
      grind
  have hroot := root_rotate hxy hyb (by grind) hp
  refine ⟨⟨?_, ?_, ?_⟩, hroot⟩
  · rwa [hroot]
  · rw [color_rotate]
    exact h.tnil_black
  · intro d'
    have h0 : (rbTreeRotate d rt x).links 0 = rt.links 0 := by grind
    rw [h0]
    exact h.tnil_childless d'

theorem rotate {d : Side} {a b e : NodeTree} {x y : ℕ} (h : Rep rt c (.mk d a x (.mk d b y e))) :
    Rep (rbTreeRotate d rt x) c (.mk d (.mk d a x b) y e) := h.rotate_and_root.1

theorem root_rotate {d : Side} {a b e : NodeTree} {x y : ℕ} (h : Rep rt c (.mk d a x (.mk d b y e))) :
    (rbTreeRotate d rt x).root = if c.parent = 0 then y else rt.root := h.rotate_and_root.2

/-- A node with one subtree is replaced by the subtree. -/
theorem transplant {d : Side} {z : ℕ} (h : Rep rt c (.mk d .nil z t)) :
    Rep (rbTreeTransplant rt z t.index) c t := by
  obtain ⟨hz0, hp, -, -, -, hlt⟩ := linked_mk.mp h.focus.linked
  have hnd : (c.indices ++ z :: t.inorder).Nodup :=
    (List.Perm.nodup_iff (List.Perm.append_left _ (inorder_mk_perm d .nil z t))).mp h.focus.nodup
  have hangs : Hangs rt.links c.parent c.side z := by
    simpa using h.hangs (t := .mk d .nil z t) (by cases d <;> simp [NodeTree.mk])
  have hpm : c.parent ≠ 0 → c.parent ∈ c.indices := Place.parent_mem
  have hc0 := h.focus.around.zero_notMem
  have htm : t.index ≠ 0 → t.index ∈ t.inorder := index_mem_of_ne_zero
  have hnd' : (c.indices ++ t.inorder).Nodup :=
    hnd.sublist (List.Sublist.append_left (sublist_cons_self z _) _)
  have hlinks := links_transplant (v := t.index) hp hangs (by grind) (by grind)
  have haround : Around rt.links rt.root c z := by simpa using h.focus.around
  refine ⟨?_, ?_, ?_⟩
  · rw [root_transplant, hp]
    refine Focus.replace haround hlt hnd' ?_ ?_
    · intro i hi
      grind
    · intro i hi
      grind
  · rw [color_transplant]
    exact h.tnil_black
  · intro d'
    have h0 : ((rbTreeTransplant rt z t.index).links 0).child d' = (rt.links 0).child d' := by
      rw [hlinks 0]
      split_ifs with hv hp0
      · exact Links.child_setParent _ _ _
      · exact absurd hp0.1.symm hp0.2
      · rfl
    rw [h0]
    exact h.tnil_childless d'

end Rep

end Vpp.Vppinfra
