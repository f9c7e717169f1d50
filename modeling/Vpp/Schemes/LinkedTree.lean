import Mathlib

/-! Binary trees in memory, with links to both children and to the parent.

    A node is an index into a memory of links; 0 stands for no node. `Linked m p t` says that the nodes of `t` are
    linked to one another as the tree has them, with `p` as the parent of the uppermost one. A place in a tree is
    given by the frames around it, from the inside out:

                i                    frame  ⟨left, i, s⟩
               / \
        hole -´   s

    `Focus m root c t` is a tree in memory, seen from the place `c` where `t` hangs. What an algorithm does at a place
    is one of two things: a subtree is hung there in place of another (`Focus.replace`), or a node is, with subtrees
    that are at hand (`Focus.rebuild`). Each has as premise what the links are afterwards, index by index.

    Left and right are exchanged by a parameter, so that what is proved for one side is proved for the other. -/

namespace Vpp.Schemes
open List

inductive Side where
  | left | right
deriving DecidableEq

def Side.other : Side → Side
  | left => right
  | right => left

variable (d : Side)

@[simp] theorem Side.other_other : d.other.other = d := by cases d <;> rfl

theorem Side.eq_other_of_ne {d d' : Side} (h : d ≠ d') : d = d'.other := by
  cases d <;> cases d' <;> first | rfl | exact absurd rfl h

/-- The links of a node. -/
structure Links where
  parent : ℕ
  left : ℕ
  right : ℕ
deriving DecidableEq

namespace Links

def child (n : Links) : Side → ℕ
  | .left => n.left
  | .right => n.right

def setParent (n : Links) (p : ℕ) : Links := { n with parent := p }

def setChild (n : Links) (d : Side) (j : ℕ) : Links :=
  match d with
  | .left => { n with left := j }
  | .right => { n with right := j }

variable (n : Links)

@[simp] theorem child_setChild_self (d : Side) (j : ℕ) : (n.setChild d j).child d = j := by
  cases d <;> rfl

@[simp] theorem child_setChild_other (d : Side) (j : ℕ) : (n.setChild d j).child d.other = n.child d.other := by
  cases d <;> rfl

@[simp] theorem child_setChild_of_other (d : Side) (j : ℕ) : (n.setChild d.other j).child d = n.child d := by
  cases d <;> rfl

@[simp] theorem parent_setChild (d : Side) (j : ℕ) : (n.setChild d j).parent = n.parent := by
  cases d <;> rfl

@[simp] theorem child_setParent (p : ℕ) (d : Side) : (n.setParent p).child d = n.child d := by
  cases d <;> rfl

@[simp] theorem parent_setParent (p : ℕ) : (n.setParent p).parent = p := rfl

end Links

/-! ### Trees -/

inductive NodeTree where
  | nil
  | node (l : NodeTree) (i : ℕ) (r : NodeTree)
deriving DecidableEq

namespace NodeTree

/-- The node with `a` on side `d` and `b` on the other. -/
def mk (d : Side) (a : NodeTree) (i : ℕ) (b : NodeTree) : NodeTree :=
  match d with
  | .left => node a i b
  | .right => node b i a

/-- The index of the uppermost node. -/
def index : NodeTree → ℕ
  | nil => 0
  | node _ i _ => i

def inorder : NodeTree → List ℕ
  | nil => []
  | node l i r => l.inorder ++ i :: r.inorder

variable (a : NodeTree)

@[simp] theorem index_mk (i : ℕ) (b : NodeTree) : (mk d a i b).index = i := by cases d <;> rfl

theorem inorder_mk_perm (i : ℕ) (b : NodeTree) :
    (mk d a i b).inorder.Perm (i :: (a.inorder ++ b.inorder)) := by
  cases d with
  | left => exact perm_middle
  | right => exact perm_middle.trans (perm_append_comm.cons i)

variable {i : ℕ} {t : NodeTree}

@[simp] theorem mem_inorder_mk {d : Side} {a b : NodeTree} {j : ℕ} :
    j ∈ (mk d a i b).inorder ↔ j = i ∨ j ∈ a.inorder ∨ j ∈ b.inorder := by
  rw [(inorder_mk_perm d a i b).mem_iff, mem_cons, mem_append]

/-- A rotation keeps the order. -/
theorem inorder_rotate (x : ℕ) (b : NodeTree) (y : ℕ) (e : NodeTree) :
    (mk d (mk d a x b) y e).inorder = (mk d a x (mk d b y e)).inorder := by
  cases d <;> simp [mk, inorder]

theorem mk_other (i : ℕ) (b : NodeTree) : mk d.other a i b = mk d b i a := by cases d <;> rfl

/-- The nodes in order, towards one side. -/
def order (t : NodeTree) : Side → List ℕ
  | .right => t.inorder
  | .left => t.inorder.reverse

theorem order_mk (i : ℕ) (b : NodeTree) : (mk d a i b).order d = b.order d ++ i :: a.order d := by
  cases d <;> simp [order, mk, inorder]

theorem exists_mk (h : t ≠ nil) (d : Side) : ∃ a i b, t = mk d a i b := by
  cases t with
  | nil => exact absurd rfl h
  | node l i r =>
    cases d with
    | left => exact ⟨l, i, r, rfl⟩
    | right => exact ⟨r, i, l, rfl⟩

theorem index_mem (h : t ≠ nil) : t.index ∈ t.inorder := by
  cases t with
  | nil => exact absurd rfl h
  | node l i r => simp [index, inorder]

theorem index_mem_of_ne_zero (h : t.index ≠ 0) : t.index ∈ t.inorder :=
  index_mem fun hnil => h (by rw [hnil]; rfl)

end NodeTree

open NodeTree

/-! ### Trees in memory -/

/-- The nodes of the tree are linked as the tree has them, below `p`. -/
def Linked (m : ℕ → Links) (p : ℕ) : NodeTree → Prop
  | .nil => True
  | .node l i r => i ≠ 0 ∧ m i = ⟨p, l.index, r.index⟩ ∧ Linked m i l ∧ Linked m i r

section
variable {m m' : ℕ → Links} {p q : ℕ} {t : NodeTree}

theorem linked_mk {d : Side} {a b : NodeTree} :
    Linked m p (.mk d a i b) ↔ i ≠ 0 ∧ (m i).parent = p ∧ (m i).child d = a.index ∧
    (m i).child d.other = b.index ∧
      Linked m i a ∧ Linked m i b := by
  have hext (n : Links) (j k : ℕ) : n = ⟨p, j, k⟩ ↔ n.parent = p ∧ n.left = j ∧ n.right = k := by
    cases n
    simp
  cases d with
  | left =>
    simp only [mk, Linked, hext, Links.child, Side.other]
    tauto
  | right =>
    simp only [mk, Linked, hext, Links.child, Side.other]
    tauto

section

variable (h : Linked m p t)
include h

theorem Linked.zero_notMem : 0 ∉ t.inorder := by
  induction t generalizing p with
  | nil => exact not_mem_nil
  | node l i r ihl ihr =>
    obtain ⟨hi, -, hl, hr⟩ := h
    simp [inorder, ihl hl, ihr hr, hi.symm]

theorem Linked.index_eq_zero : t.index = 0 ↔ t = .nil := by
  constructor
  · intro h0
    by_contra hne
    exact h.zero_notMem (h0 ▸ index_mem hne)
  · rintro rfl
    rfl

/-- The index of a tree is no node of a list that the tree has nothing in common with. -/
theorem Linked.index_notMem {is : List ℕ} (h0 : 0 ∉ is) (hdisj : ∀ i ∈ is, i ∉ t.inorder) :
    t.index ∉ is := by
  cases t with
  | nil => exact h0
  | node l i r => exact fun hmem => hdisj _ hmem (by simp [index, inorder])

theorem Linked.congr (hm : ∀ i ∈ t.inorder, m' i = m i) : Linked m' p t := by
  induction t generalizing p with
  | nil => trivial
  | node l i r ihl ihr =>
    obtain ⟨hi, hlinks, hl, hr⟩ := h
    refine ⟨hi, by rw [hm i (by simp [inorder]), hlinks], ihl hl ?_, ihr hr ?_⟩
    · exact fun j hj => hm j (by simp [inorder, hj])
    · exact fun j hj => hm j (by simp [inorder, hj])

/-- A tree is hung below another parent. -/
theorem Linked.reparent (hnodup : t.inorder.Nodup)
    (hm : ∀ i ∈ t.inorder, m' i = if i = t.index then (m i).setParent q else m i) : Linked m' q t := by
  cases t with
  | nil => trivial
  | node l i r =>
    obtain ⟨hi, hlinks, hl, hr⟩ := h
    have hperm := (inorder_mk_perm .left l i r).nodup_iff.mp hnodup
    rw [nodup_cons, mem_append, not_or] at hperm
    refine ⟨hi, ?_, hl.congr ?_, hr.congr ?_⟩
    · rw [hm i (by simp [inorder]), hlinks]
      exact if_pos rfl
    · intro j hj
      rw [hm j (by simp [inorder, hj]), if_neg]
      rintro rfl
      exact hperm.1.1 hj
    · intro j hj
      rw [hm j (by simp [inorder, hj]), if_neg]
      rintro rfl
      exact hperm.1.2 hj

/-- A tree that hangs below its parent already. -/
theorem Linked.setParent_index (hi : i ∈ t.inorder) :
    (if i = t.index then (m i).setParent p else m i) = m i := by
  split_ifs with hindex
  · cases t with
    | nil => cases hi
    | node l j r =>
      obtain rfl : i = j := hindex
      rw [h.2.1]
      rfl
  · rfl

end

end

/-! ### Places -/

/-- One step up: the node above, the side on which one is below it, and what is on the other side. -/
structure Frame where
  side : Side
  index : ℕ
  sib : NodeTree

/-- The frames around a place, from the inside out. -/
abbrev Place := List Frame

namespace Place

def plug : Place → NodeTree → NodeTree
  | [], t => t
  | f :: c, t => plug c (.mk f.side t f.index f.sib)

/-- The index of the node above. -/
def parent : Place → ℕ
  | [] => 0
  | f :: _ => f.index

/-- The side of the node above. -/
def side : Place → Side
  | [] => .left
  | f :: _ => f.side

@[simp] theorem parent_cons (f : Frame) (c : Place) : parent (f :: c) = f.index := rfl

@[simp] theorem side_cons (f : Frame) (c : Place) : side (f :: c) = f.side := rfl

/-- The nodes around the place. -/
def indices : Place → List ℕ
  | [] => []
  | f :: c => f.index :: (f.sib.inorder ++ indices c)

theorem parent_mem {c : Place} (hp : c.parent ≠ 0) : c.parent ∈ c.indices := by
  cases c with
  | nil => exact absurd rfl hp
  | cons f c => exact mem_cons_self

theorem mem_plug {c : Place} : i ∈ (c.plug t).inorder ↔ i ∈ c.indices ∨ i ∈ t.inorder := by
  induction c generalizing t with
  | nil => simp [plug, indices]
  | cons f c ih =>
    simp only [plug, ih, indices, mem_inorder_mk, mem_cons, mem_append]
    tauto

/-- The nodes on one side of the place in order, the nearest first. -/
def beyond (d : Side) : Place → List ℕ
  | [] => []
  | f :: c => if f.side = d then beyond d c else f.index :: (f.sib.order d ++ beyond d c)

variable (c : Place)

theorem inorder_plug (t : NodeTree) :
    (c.plug t).inorder = (beyond .left c).reverse ++ t.inorder ++ beyond .right c := by
  induction c generalizing t with
  | nil => simp [plug, beyond]
  | cons f c ih =>
    rw [plug, ih]
    obtain ⟨d, i, s⟩ := f
    cases d <;> simp [beyond, mk, inorder, order]

/-- A place from which there is nothing but up and to one side is at the end of the order. -/
theorem beyond_eq_nil {d : Side} {c : Place} (h : ∀ f ∈ c, f.side = d) : beyond d c = [] := by
  induction c with
  | nil => rfl
  | cons f c ih =>
    rw [beyond, if_pos (h f mem_cons_self)]
    exact ih fun g hg => h g (mem_cons_of_mem f hg)

theorem order_plug (t : NodeTree) :
    (c.plug t).order d = (beyond d.other c).reverse ++ t.order d ++ beyond d c := by
  cases d <;> simp [order, inorder_plug, Side.other]

/-- A place is no deeper than there are nodes around it. -/
theorem length_add_le (t : NodeTree) : c.length + t.inorder.length ≤ (c.plug t).inorder.length := by
  induction c generalizing t with
  | nil => simp [plug]
  | cons f c ih =>
    have hmk := (inorder_mk_perm f.side t f.index f.sib).length_eq
    rw [length_cons, length_append] at hmk
    have hrest := ih (.mk f.side t f.index f.sib)
    rw [plug, length_cons]
    omega

theorem plug_append (c' : Place) (t : NodeTree) : plug (c ++ c') t = plug c' (plug c t) := by
  induction c generalizing t with
  | nil => rfl
  | cons f c ih => exact ih _

/-- Every node of a tree is at some place. -/
theorem exists_place (hi : i ∈ t.inorder) : ∃ c l r, t = plug c (.node l i r) := by
  induction t with
  | nil => cases hi
  | node l j r ihl ihr =>
    simp only [inorder, mem_append, mem_cons] at hi
    rcases hi with hi | rfl | hi
    · obtain ⟨c, a, b, rfl⟩ := ihl hi
      exact ⟨c ++ [⟨.left, j, r⟩], a, b, by rw [plug_append]; rfl⟩
    · exact ⟨[], l, r, rfl⟩
    · obtain ⟨c, a, b, rfl⟩ := ihr hi
      exact ⟨c ++ [⟨.right, j, l⟩], a, b, by rw [plug_append]; rfl⟩

end Place

open Place

/-- The frames are linked to one another, and down to `j` at the place. -/
def Around (m : ℕ → Links) (root : ℕ) : Place → ℕ → Prop
  | [], j => root = j
  | f :: c, j => f.index ≠ 0 ∧ (m f.index).child f.side = j ∧ (m f.index).child f.side.other = f.sib.index ∧
      (m f.index).parent = parent c ∧ Linked m f.index f.sib ∧ Around m root c f.index

section
variable {m m' : ℕ → Links} {root j k : ℕ} {c : Place}

section

variable (h : Around m root c j)
include h

theorem Around.zero_notMem : 0 ∉ c.indices := by
  induction c generalizing j with
  | nil => exact not_mem_nil
  | cons f c ih =>
    obtain ⟨hi, -, -, -, hs, hc⟩ := h
    simp [indices, hi.symm, hs.zero_notMem, ih hc]

theorem Around.root_mem (hp : c.parent ≠ 0) : root ∈ c.indices := by
  induction c generalizing j with
  | nil => exact absurd rfl hp
  | cons f c ih =>
    obtain ⟨-, -, -, -, -, hc⟩ := h
    cases c with
    | nil =>
      obtain rfl : root = f.index := hc
      exact mem_cons_self
    | cons g c => exact mem_cons_of_mem _ (mem_append_right _ (ih hc hc.1))

theorem Around.congr (hm : ∀ i ∈ c.indices, m' i = m i) : Around m' root c j := by
  induction c generalizing j with
  | nil => exact h
  | cons f c ih =>
    obtain ⟨hi, hj, hs, hp, hsib, hc⟩ := h
    rw [Around, hm f.index (by simp [indices])]
    refine ⟨hi, hj, hs, hp, hsib.congr ?_, ih hc ?_⟩
    · exact fun i hi => hm i (by simp [indices, hi])
    · exact fun i hi => hm i (by simp [indices, hi])

/-- Another node is hung at the place. -/
theorem Around.refill (hnodup : c.indices.Nodup)
    (hm : ∀ i ∈ c.indices, m' i = if i = c.parent then (m i).setChild c.side k else m i) :
    Around m' (if c.parent = 0 then k else root) c k := by
  cases c with
  | nil => exact if_pos rfl
  | cons f c =>
    obtain ⟨hi, -, hs, hp, hsib, hc⟩ := h
    rw [indices, nodup_cons, mem_append, not_or] at hnodup
    have hself : m' f.index = (m f.index).setChild f.side k := by
      rw [hm f.index (by simp [indices])]
      exact if_pos rfl
    have hrest (i : ℕ) (hi : i ∈ f.sib.inorder ∨ i ∈ indices c) : m' i = m i := by
      rw [hm i (by simpa [indices] using .inr hi), if_neg]
      rintro rfl
      exact hi.elim hnodup.1.1 hnodup.1.2
    have hne : parent (f :: c) ≠ 0 := hi
    rw [if_neg hne]
    refine ⟨hi, ?_, ?_, ?_, hsib.congr fun i hi => hrest i (.inl hi), hc.congr fun i hi => hrest i (.inr hi)⟩
    · rw [hself, Links.child_setChild_self]
    · rw [hself, Links.child_setChild_other, hs]
    · rw [hself, Links.parent_setChild, hp]

end

end

/-- A tree in memory, seen from a place in it. -/
structure Focus (m : ℕ → Links) (root : ℕ) (c : Place) (t : NodeTree) : Prop where
  around : Around m root c t.index
  linked : Linked m c.parent t
  nodup : (c.indices ++ t.inorder).Nodup

namespace Focus
variable {m m' : ℕ → Links} {root : ℕ} {c c' : Place} {t : NodeTree}

/-- One step up or down. -/
theorem cons_iff {f : Frame} : Focus m root (f :: c) t ↔ Focus m root c (.mk f.side t f.index f.sib) := by
  have hnodup : (indices (f :: c) ++ t.inorder).Perm
      (indices c ++ (NodeTree.mk f.side t f.index f.sib).inorder) := by
    have hmiddle : (f.index :: (f.sib.inorder ++ indices c ++ t.inorder)).Perm
        (f.index :: (indices c ++ (t.inorder ++ f.sib.inorder))) := by
      refine List.Perm.cons _ ((perm_append_comm.append_right _).trans ?_)
      rw [append_assoc]
      exact perm_append_comm.append_left _
    exact hmiddle.trans (perm_middle.symm.trans ((inorder_mk_perm _ _ _ _).symm.append_left _))
  constructor
  · rintro ⟨⟨hi, ht, hs, hp, hsib, hc⟩, hlinked, hnd⟩
    exact ⟨by rwa [index_mk], linked_mk.mpr ⟨hi, hp, ht, hs, hlinked, hsib⟩, hnodup.nodup_iff.mp hnd⟩
  · rintro ⟨hc, hlinked, hnd⟩
    rw [index_mk] at hc
    obtain ⟨hi, hp, ht, hs, hlt, hsib⟩ := linked_mk.mp hlinked
    exact ⟨⟨hi, ht, hs, hp, hsib, hc⟩, hlt, hnodup.nodup_iff.mpr hnd⟩

/-- The same tree from another place. -/
theorem append_iff : Focus m root (c ++ c') t ↔ Focus m root c' (c.plug t) := by
  induction c generalizing t with
  | nil => exact .rfl
  | cons f c ih =>
    rw [cons_append, cons_iff, ih]
    rfl

section

variable (h : Focus m root c t)
include h

theorem zero_notMem : 0 ∉ c.indices ++ t.inorder := by
  rw [mem_append, not_or]
  exact ⟨h.around.zero_notMem, h.linked.zero_notMem⟩

theorem congr (hm : ∀ i ∈ c.indices ++ t.inorder, m' i = m i) : Focus m' root c t :=
  ⟨h.around.congr fun i hi => hm i (mem_append_left _ hi),
    h.linked.congr fun i hi => hm i (mem_append_right _ hi), h.nodup⟩

theorem root_eq (hp : c.parent = 0) : root = t.index := by
  cases c with
  | nil => exact h.around
  | cons f c => exact absurd hp h.around.1

/-- The root is not below the place. -/
theorem root_notMem (hp : c.parent ≠ 0) : root ∉ t.inorder := by
  intro hmem
  exact (nodup_append.mp h.nodup).2.2 root (h.around.root_mem hp) root hmem rfl

theorem child_eq (hp : c.parent ≠ 0) : (m c.parent).child c.side = t.index := by
  cases c with
  | nil => exact absurd rfl hp
  | cons f c => exact h.around.2.1

theorem child_other_ne (ht : t ≠ .nil) (hp : c.parent ≠ 0) :
    (m c.parent).child c.side.other ≠ t.index := by
  cases c with
  | nil => exact absurd rfl hp
  | cons f c =>
    obtain ⟨-, -, hsib, -, hlinked, -⟩ := h.around
    have hdisj : ∀ i ∈ t.inorder, i ∉ f.sib.inorder := by
      intro i hi hsib
      exact (nodup_append.mp h.nodup).2.2 i (by simp [indices, hsib]) i hi rfl
    have hsibling := hlinked.index_notMem h.linked.zero_notMem hdisj
    intro heq
    exact hsibling (heq.symm.trans hsib ▸ index_mem ht)

end

/-- A child is another node. -/
theorem child_ne {d : Side} {a b : NodeTree} (h : Focus m root c (.mk d a i b)) : a.index ≠ i ∧ b.index ≠ i := by
  have hi : i ≠ 0 := (linked_mk.mp h.linked).1
  have hnd := (inorder_mk_perm d a i b).nodup_iff.mp (nodup_append.mp h.nodup).2.1
  rw [nodup_cons, mem_append, not_or] at hnd
  constructor
  · rintro rfl
    exact hnd.1.1 (index_mem_of_ne_zero hi)
  · rintro rfl
    exact hnd.1.2 (index_mem_of_ne_zero hi)

/-- A subtree is hung at the place. -/
theorem replace {p : ℕ} {j : ℕ} (haround : Around m root c j) (hlinked : Linked m p t)
    (hnodup : (c.indices ++ t.inorder).Nodup)
    (hc : ∀ i ∈ c.indices, m' i = if i = c.parent then (m i).setChild c.side t.index else m i)
    (ht : ∀ i ∈ t.inorder, m' i = if i = t.index then (m i).setParent c.parent else m i) :
    Focus m' (if c.parent = 0 then t.index else root) c t := by
  obtain ⟨hcnd, htnd, -⟩ := nodup_append.mp hnodup
  exact ⟨haround.refill hcnd hc, hlinked.reparent htnd ht, hnodup⟩

/-- A node is hung at the place, with two subtrees. -/
theorem rebuild {d : Side} {a b : NodeTree} {y j p q : ℕ} (haround : Around m root c j) (ha : Linked m p a)
    (hb : Linked m q b) (hy : y ≠ 0) (hnodup : (c.indices ++ (NodeTree.mk d a y b).inorder).Nodup)
    (hc : ∀ i ∈ c.indices, m' i = if i = c.parent then (m i).setChild c.side y else m i)
    (hparent : (m' y).parent = c.parent) (hchild : (m' y).child d = a.index)
    (hother : (m' y).child d.other = b.index)
    (hma : ∀ i ∈ a.inorder, m' i = if i = a.index then (m i).setParent y else m i)
    (hmb : ∀ i ∈ b.inorder, m' i = if i = b.index then (m i).setParent y else m i) :
    Focus m' (if c.parent = 0 then y else root) c (.mk d a y b) := by
  obtain ⟨hcnd, hmknd, -⟩ := nodup_append.mp hnodup
  have hperm := (inorder_mk_perm d a y b).nodup_iff.mp hmknd
  rw [nodup_cons] at hperm
  obtain ⟨hand, hbnd, -⟩ := nodup_append.mp hperm.2
  refine ⟨?_, linked_mk.mpr ⟨hy, hparent, hchild, hother, ha.reparent hand hma, hb.reparent hbnd hmb⟩, hnodup⟩
  rw [index_mk]
  exact haround.refill hcnd hc

/-- The node above its child on one side is hung below it, on the other. -/
theorem rotate {d : Side} {a b e : NodeTree} {x y : ℕ} (h : Focus m root c (.mk d a x (.mk d b y e)))
    (hc : ∀ i ∈ c.indices, m' i = if i = c.parent then (m i).setChild c.side y else m i)
    (hx : m' x = ((m x).setChild d.other b.index).setParent y)
    (hy : m' y = ((m y).setParent c.parent).setChild d x)
    (ha : ∀ i ∈ a.inorder, m' i = m i) (he : ∀ i ∈ e.inorder, m' i = m i)
    (hb : ∀ i ∈ b.inorder, m' i = if i = b.index then (m i).setParent x else m i) :
    Focus m' (if c.parent = 0 then y else root) c (.mk d (.mk d a x b) y e) := by
  obtain ⟨haround, hlinked, hnodup⟩ := h
  rw [← inorder_rotate] at hnodup
  obtain ⟨hx0, -, hxa, -, hla, hly⟩ := linked_mk.mp hlinked
  obtain ⟨hy0, -, -, hye, hlb, hle⟩ := linked_mk.mp hly
  obtain ⟨hcnd, hnd, -⟩ := nodup_append.mp hnodup
  have hbnd : b.inorder.Nodup := by
    have hyx := (nodup_cons.mp ((inorder_mk_perm _ _ _ _).nodup_iff.mp hnd)).2
    have hab := (inorder_mk_perm _ _ _ _).nodup_iff.mp (nodup_append.mp hyx).1
    exact (nodup_append.mp (nodup_cons.mp hab).2).2.1
  refine ⟨?_, ?_, hnodup⟩
  · rw [index_mk]
    exact haround.refill hcnd hc
  · refine linked_mk.mpr ⟨hy0, ?_, ?_, ?_, linked_mk.mpr ⟨hx0, ?_, ?_, ?_, hla.congr ha, hlb.reparent hbnd hb⟩,
      hle.congr he⟩
    · rw [hy, Links.parent_setChild, Links.parent_setParent]
    · rw [hy, Links.child_setChild_self, index_mk]
    · rw [hy, Links.child_setChild_other, Links.child_setParent, hye]
    · rw [hx, Links.parent_setParent]
    · simpa [hx] using hxa
    · rw [hx, Links.child_setParent, Links.child_setChild_self]

end Focus

end Vpp.Schemes
