import Vpp.Schemes.Run
import Vpp.Vppinfra.Rbtree.Delete

/-! The red-black tree as an ordered map, over whole runs.

    Beside the tree a list of the live nodes is kept, each with the index that it was given, its key and its value. A
    command adds an entry to the list or takes one from it and touches no other. In every state of a run the tree in
    memory holds that list (`IsOrderedMap`), and every operation returns. -/

namespace Vpp.Vppinfra
open Vpp.Schemes List NodeTree Place

/-- A node that was added and not yet deleted. -/
structure LiveNode where
  index : ℕ
  key : BitVec 32
  opaqueValue : BitVec 64
deriving DecidableEq

structure RbState where
  rt : RbTree
  live : List LiveNode

open RbState

def RbState.init : RbState := ⟨.init, []⟩

inductive RbCmd where
  | add (key : BitVec 32) (opaqueValue : BitVec 64)
  | delCustom (key : BitVec 32)
  | delNode (z : ℕ)
deriving DecidableEq

open RbCmd

/-- A loop did not end within its bound. -/
inductive RbFault where
  | noEnd
deriving DecidableEq

def RbCmd.exec (ltfn : RbTreeLtFn) (s : RbState) : RbCmd → Except RbFault RbState
  | .add key opaqueValue =>
    match rbTreeAddCustom ltfn s.rt key opaqueValue with
    | some (rt, z) => .ok ⟨rt, ⟨z, key, opaqueValue⟩ :: s.live⟩
    | none => .error .noEnd
  | .delCustom key =>
    match rbTreeDelCustom ltfn s.rt key with
    | some rt => .ok ⟨rt, s.live.filter (·.key ≠ key)⟩
    | none => .error .noEnd
  | .delNode z =>
    match rbTreeDelNode s.rt z with
    | some rt => .ok ⟨rt, s.live.filter (·.index ≠ z)⟩
    | none => .error .noEnd

/-- What is added is absent, and a node that is deleted by index is present. -/
def RbCmd.Valid (s : RbState) : RbCmd → Prop
  | .add key _ => ∀ e ∈ s.live, e.key ≠ key
  | .delCustom _ => True
  | .delNode z => ∃ e ∈ s.live, e.index = z

instance (s : RbState) : ∀ c, Decidable (Valid s c)
  | .add key _ => inferInstanceAs (Decidable (∀ e ∈ s.live, e.key ≠ key))
  | .delCustom _ => isTrue trivial
  | .delNode z => inferInstanceAs (Decidable (∃ e ∈ s.live, e.index = z))

/-! ### What the map is -/

namespace RbTree

/-- The nodes that can be reached from the root. -/
inductive Reachable (rt : RbTree) : ℕ → Prop
  | root : rt.root ≠ 0 → Reachable rt rt.root
  | child {i : ℕ} (d : Side) : Reachable rt i → (rt.nodes i).child d ≠ 0 → Reachable rt ((rt.nodes i).child d)

/-- The nodes from `x` downwards in order, to a depth. -/
def inorderFrom (rt : RbTree) : ℕ → ℕ → List ℕ
  | 0, _ => []
  | fuel + 1, x =>
    if x = 0 then [] else inorderFrom rt fuel (rt.nodes x).left ++ x :: inorderFrom rt fuel (rt.nodes x).right

def subtree (rt : RbTree) (i : ℕ) : List ℕ := rt.inorderFrom rt.turns i

def inorder (rt : RbTree) : List ℕ := rt.subtree rt.root

end RbTree

/-- The tree holds the live nodes in the order of their keys. -/
structure IsOrderedMap (ltfn : RbTreeLtFn) (rt : RbTree) (live : List LiveNode) : Prop where
  reachable : ∀ i, rt.Reachable i ↔ ∃ e ∈ live, e.index = i
  data : ∀ e ∈ live, (rt.nodes e.index).key = e.key ∧ (rt.nodes e.index).opaqueValue = e.opaqueValue
  parent_root : rt.root ≠ 0 → (rt.nodes rt.root).parent = 0
  parent_child : ∀ i, rt.Reachable i → ∀ d, (rt.nodes i).child d ≠ 0 →
    (rt.nodes ((rt.nodes i).child d)).parent = i
  child_parent : ∀ i, rt.Reachable i → i ≠ rt.root →
    rt.Reachable (rt.nodes i).parent ∧ ∃ d, (rt.nodes (rt.nodes i).parent).child d = i
  mem_inorder : ∀ i, i ∈ rt.inorder ↔ rt.Reachable i
  sorted : rt.Sorted ltfn rt.inorder
  search_live : ∀ e ∈ live, rbTreeSearchSubtreeCustom ltfn rt rt.root e.key = some e.index
  search_absent : ∀ key, (∀ e ∈ live, e.key ≠ key) → rbTreeSearchSubtreeCustom ltfn rt rt.root key = some 0
  search_subtree : ∀ i, i = 0 ∨ rt.Reachable i →
    ∀ key, ∃ j, rbTreeSearchSubtreeCustom ltfn rt i key = some j ∧
    (j ∈ rt.subtree i ∧ (rt.nodes j).key = key ∨ j = 0 ∧ ∀ k ∈ rt.subtree i, (rt.nodes k).key ≠ key)
  min_subtree : ∀ i, i = 0 ∨ rt.Reachable i → rbTreeMinSubtree rt i = some ((rt.subtree i).headD 0)
  max_subtree : ∀ i, i = 0 ∨ rt.Reachable i → rbTreeMaxSubtree rt i = some ((rt.subtree i).getLastD 0)
  successor : ∀ as i bs, rt.inorder = as ++ i :: bs → rbTreeSuccessor rt i = some (bs.headD 0)
  predecessor : ∀ as i bs, rt.inorder = as ++ i :: bs → rbTreePredecessor rt i = some (as.getLastD 0)
  sentinel : (rt.nodes 0).color = .black ∧ (rt.nodes 0).left = 0 ∧ (rt.nodes 0).right = 0

section
variable {ltfn : RbTreeLtFn} {rt : RbTree} {t : NodeTree} {p n : ℕ} {live : List LiveNode}

/-! ### The map of a tree -/

theorem Linked.inorderFrom_eq (h : Linked rt.links p t) (hn : t.inorder.length < n) :
    rt.inorderFrom n t.index = t.inorder := by
  induction t generalizing p n with
  | nil =>
    obtain ⟨n, rfl⟩ : ∃ k, n = k + 1 := ⟨n - 1, by omega⟩
    simp [RbTree.inorderFrom, index, inorder]
  | node l i r ihl ihr =>
    obtain ⟨n, rfl⟩ : ∃ k, n = k + 1 := ⟨n - 1, by omega⟩
    obtain ⟨hi, hm, hl, hr⟩ := h
    have hleft : (rt.nodes i).left = l.index := congrArg Links.left hm
    have hright : (rt.nodes i).right = r.index := congrArg Links.right hm
    simp only [inorder, length_append, length_cons] at hn ⊢
    rw [index, RbTree.inorderFrom, if_neg hi, hleft, hright, ihl hl (by omega), ihr hr (by omega)]

/-- A node of the tree, seen from its place with either side first. -/
theorem Shape.exists_at (h : Shape rt t) {i : ℕ} (hi : i ∈ t.inorder) (d : Side) :
    ∃ c a b, t = plug c (.mk d a i b) ∧ Rep rt c (.mk d a i b) := by
  obtain ⟨c, l, r, rfl⟩ := exists_place hi
  have hrep : Rep rt c (.node l i r) := by simpa using Rep.append_iff.mpr h.rep
  cases d with
  | left => exact ⟨c, l, r, rfl, hrep⟩
  | right => exact ⟨c, r, l, rfl, hrep⟩

/-- Whatever is at a place can be reached. The induction is on the frames above it. -/
theorem Rep.reachable {c : Place} (h : Rep rt c t) (ht : t ≠ .nil) : rt.Reachable t.index := by
  have ht0 : t.index ≠ 0 := mt h.focus.linked.index_eq_zero.mp ht
  induction c generalizing t with
  | nil =>
    rw [← h.focus.root_eq rfl] at ht0 ⊢
    exact .root ht0
  | cons f c ih =>
    have hup := Rep.cons_iff.mp h
    have hf : f.index ≠ 0 := h.focus.around.1
    have hparent := ih hup (by cases f.side <;> simp [NodeTree.mk]) (by rwa [NodeTree.index_mk])
    rw [index_mk] at hparent
    have hchild : (rt.nodes f.index).child f.side = t.index := h.focus.around.2.1
    rw [← hchild] at ht0 ⊢
    exact .child f.side hparent ht0

section
variable (h : Shape rt t)
include h

/-- What can be reached from the root is the tree. -/
theorem Shape.reachable_iff (i : ℕ) : rt.Reachable i ↔ i ∈ t.inorder := by
  constructor
  · intro hi
    induction hi with
    | root h0 =>
      rw [h.rep.focus.root_eq rfl] at h0 ⊢
      exact index_mem_of_ne_zero h0
    | @child i d _ h0 hi =>
      obtain ⟨c, a, b, rfl, hrep⟩ := h.exists_at hi d
      have hchild : (rt.nodes i).child d = a.index := (linked_mk.mp hrep.focus.linked).2.2.1
      rw [hchild] at h0 ⊢
      exact mem_plug.mpr (Or.inr (by simp [index_mem_of_ne_zero h0]))
  · intro hi
    obtain ⟨c, a, b, rfl, hrep⟩ := h.exists_at hi .left
    simpa using hrep.reachable (by simp [NodeTree.mk])

theorem Shape.inorder_eq : rt.inorder = t.inorder := by
  rw [RbTree.inorder, h.rep.focus.root_eq rfl]
  exact Linked.inorderFrom_eq h.rep.focus.linked (Nat.lt_succ_of_lt h.length_lt)

/-- Below a node that can be reached is a part of the tree, and below the sentinel nothing. -/
theorem Shape.exists_subtree {i : ℕ} (hi : i = 0 ∨ rt.Reachable i) :
    ∃ p s, Linked rt.links p s ∧ s.index = i ∧ s.inorder.Sublist t.inorder ∧ rt.subtree i = s.inorder := by
  have hrest : ∃ p s, Linked rt.links p s ∧ s.index = i ∧ s.inorder.Sublist t.inorder := by
    rcases hi with rfl | hi
    · exact ⟨0, .nil, trivial, rfl, nil_sublist _⟩
    · obtain ⟨c, a, b, rfl, hrep⟩ := h.exists_at ((h.reachable_iff i).mp hi) .left
      refine ⟨_, _, hrep.focus.linked, index_mk _ _ _ _, ?_⟩
      rw [inorder_plug, append_assoc]
      exact (sublist_append_left _ _).trans (sublist_append_right _ _)
  obtain ⟨p, s, hs, rfl, hsub⟩ := hrest
  have hlen := hsub.length_le
  have hlt := h.length_lt
  exact ⟨p, s, hs, rfl, hsub, Linked.inorderFrom_eq hs (by simp only [RbTree.turns]; omega)⟩

theorem Shape.parent_child {i : ℕ} (hi : i ∈ t.inorder) {d : Side} (h0 : (rt.nodes i).child d ≠ 0) :
    (rt.nodes ((rt.nodes i).child d)).parent = i := by
  obtain ⟨c, a, b, rfl, hrep⟩ := h.exists_at hi d
  obtain ⟨-, -, hchild, -, ha, -⟩ := linked_mk.mp hrep.focus.linked
  have hchild' : (rt.nodes i).child d = a.index := hchild
  rw [hchild'] at h0 ⊢
  cases a with
  | nil => exact absurd rfl h0
  | node l j r => exact congrArg Links.parent ha.2.1

theorem Shape.child_parent {i : ℕ} (hi : i ∈ t.inorder) (hroot : i ≠ rt.root) :
    rt.Reachable (rt.nodes i).parent ∧ ∃ d, (rt.nodes (rt.nodes i).parent).child d = i := by
  obtain ⟨c, a, b, rfl, hrep⟩ := h.exists_at hi .left
  have hparent : (rt.nodes i).parent = c.parent := hrep.parent_eq
  rw [hparent]
  cases c with
  | nil => exact absurd (hrep.focus.root_eq rfl).symm hroot
  | cons f c =>
    refine ⟨?_, f.side, by simpa [RbTree.links] using hrep.focus.around.2.1⟩
    simpa using (Rep.cons_iff.mp hrep).reachable (by cases f.side <;> simp [NodeTree.mk])

end

/-- The first node on one side. -/
theorem Linked.outermost (h : Linked rt.links p t) (h0 : ∀ d, (rt.links 0).child d = 0) (d : Side)
    (hn : t.inorder.length ≤ rt.turns) : rbTreeOutermost d rt rt.turns t.index =
    some ((t.order d.other).headD 0) := by
  by_cases ht : t = .nil
  · subst ht
    have h0 : (rt.nodes 0).child d = 0 := h0 d
    have horder : (nil.order d.other).headD 0 = 0 := by cases d <;> rfl
    rw [RbTree.turns, index, rbTreeOutermost, if_neg (not_not.mpr h0), horder]
  · obtain ⟨c, i, s, hi, rfl, hc⟩ := rbTreeOutermost_spec (n := rt.turns) d h ht hn
    have hmk : (mk d .nil i s).order d.other = i :: s.order d.other := by
      rw [← mk_other, order_mk]
      cases d <;> rfl
    rw [hi, order_plug, Side.other_other, beyond_eq_nil hc, hmk]
    rfl

/-- And below a node of the tree, or the sentinel. -/
theorem Shape.outermost (h : Shape rt t) (d : Side) {i : ℕ} (hi : i = 0 ∨ rt.Reachable i) :
    ∃ s : NodeTree, rt.subtree i = s.inorder ∧
      rbTreeOutermost d rt rt.turns i = some ((s.order d.other).headD 0) := by
  obtain ⟨p, s, hs, rfl, hsub, hinorder⟩ := h.exists_subtree hi
  have hlen := hsub.length_le
  have hlt := h.length_lt
  exact ⟨s, hinorder, Linked.outermost hs h.rep.tnil_childless d (by simp only [RbTree.turns]; omega)⟩

/-- The next node towards one side, wherever the node is in the order. -/
theorem Shape.neighbour (h : Shape rt t) (d : Side) {as bs : List ℕ} {i : ℕ} (hi : t.order d = as ++ i :: bs) :
    rbTreeNeighbour d rt i = some (bs.headD 0) := by
  have hnd : t.inorder.Nodup := by simpa [indices] using h.rep.focus.nodup
  have hmem : i ∈ t.inorder := by
    have hi' : i ∈ t.order d := by simp [hi]
    cases d with
    | left => simpa [order] using hi'
    | right => exact hi'
  have hnd' : (t.order d).Nodup := by
    cases d with
    | left => exact nodup_reverse.mpr hnd
    | right => exact hnd
  obtain ⟨c, a, b, rfl, hrep⟩ := h.exists_at hmem d
  obtain ⟨pre, post, horder, hnext⟩ := rbTreeNeighbour_spec hrep (Nat.lt_succ_of_lt h.length_lt)
  rw [hnext]
  -- the node is once in the order
  rw [horder, nodup_middle, nodup_cons, mem_append, not_or] at hnd'
  rw [horder, append_cons_inj_of_notMem hnd'.1.1 hnd'.1.2] at hi
  rw [hi.2.2]

/-! ### Steps -/

/-- The invariant of the runs: a tree in memory, with the live nodes in order. -/
structure Holds (ltfn : RbTreeLtFn) (rt : RbTree) (live : List LiveNode) (t : NodeTree) : Prop where
  shape : Shape rt t
  sorted : rt.Sorted ltfn t.inorder
  mem_iff : ∀ i, i ∈ t.inorder ↔ ∃ e ∈ live, e.index = i
  data : ∀ e ∈ live, (rt.nodes e.index).key = e.key ∧ (rt.nodes e.index).opaqueValue = e.opaqueValue

namespace Holds

section
variable (h : Holds ltfn rt live t) (hlt : StrictTotal ltfn)
include h hlt

/-- Two live nodes with one key are one node. -/
theorem index_inj {e : LiveNode} (he : e ∈ live) {i : ℕ}
    (hi : i ∈ t.inorder) (hkey : (rt.nodes i).key = e.key) : e.index = i := by
  have hmem : e.index ∈ t.inorder := (h.mem_iff _).mpr ⟨e, he, rfl⟩
  by_contra hne
  have hnd : t.inorder.Pairwise fun i j => (rt.nodes i).key ≠ (rt.nodes j).key := h.sorted.imp fun hij => hlt.ne hij
  have hsymm : Std.Symm fun i j => (rt.nodes i).key ≠ (rt.nodes j).key := ⟨fun _ _ h => h.symm⟩
  exact hnd.forall hmem hi hne ((h.data e he).1.trans hkey.symm)

theorem search (key : BitVec 32) :
    ∃ i, rbTreeSearchSubtreeCustom ltfn rt rt.root key = some i ∧
      (i ∈ t.inorder ∧ (rt.nodes i).key = key ∨ i = 0 ∧ ∀ j ∈ t.inorder, (rt.nodes j).key ≠ key) := by
  rw [rbTreeSearchSubtreeCustom, h.shape.rep.focus.root_eq rfl]
  exact rbTreeSearch_spec hlt h.shape.rep.focus.linked h.sorted (Nat.lt_succ_of_lt h.shape.length_lt)

theorem isOrderedMap : IsOrderedMap ltfn rt live where
  reachable i := (h.shape.reachable_iff i).trans (h.mem_iff i)
  data := h.data
  parent_root h0 := by
    have hroot := h.shape.rep.focus.root_eq rfl
    rw [hroot] at h0 ⊢
    cases t with
    | nil => exact absurd rfl h0
    | node l i r => exact congrArg Links.parent h.shape.rep.focus.linked.2.1
  parent_child i hi d h0 := h.shape.parent_child ((h.shape.reachable_iff i).mp hi) h0
  child_parent i hi hroot := h.shape.child_parent ((h.shape.reachable_iff i).mp hi) hroot
  mem_inorder i := by rw [h.shape.inorder_eq, h.shape.reachable_iff]
  sorted := by
    rw [h.shape.inorder_eq]
    exact h.sorted
  search_live e he := by
    have hmem : e.index ∈ t.inorder := (h.mem_iff _).mpr ⟨e, he, rfl⟩
    obtain ⟨i, hi, ⟨hit, hkey⟩ | ⟨-, hnone⟩⟩ := h.search hlt e.key
    · rw [hi, h.index_inj hlt he hit hkey]
    · exact absurd (h.data e he).1 (hnone _ hmem)
  search_absent key habsent := by
    obtain ⟨i, hi, ⟨hit, hkey⟩ | ⟨rfl, -⟩⟩ := h.search hlt key
    · obtain ⟨e, he, rfl⟩ := (h.mem_iff i).mp hit
      exact absurd ((h.data e he).1.symm.trans hkey) (habsent e he)
    · exact hi
  search_subtree i hi key := by
    obtain ⟨p, s, hs, rfl, hsub, hinorder⟩ := h.shape.exists_subtree hi
    have hlen := hsub.length_le
    have hturns := h.shape.length_lt
    rw [hinorder]
    exact rbTreeSearch_spec hlt hs (h.sorted.sublist hsub) (by simp only [RbTree.turns]; omega)
  min_subtree i hi := by
    obtain ⟨s, hinorder, hmin⟩ := h.shape.outermost .left hi
    rw [hinorder]
    exact hmin
  max_subtree i hi := by
    obtain ⟨s, hinorder, hmax⟩ := h.shape.outermost .right hi
    simp only [Side.other, order, headD_eq_head?_getD, head?_reverse] at hmax
    rw [hinorder, getLastD_eq_getLast?]
    exact hmax
  successor as i bs hi := by
    rw [h.shape.inorder_eq] at hi
    exact h.shape.neighbour .right hi
  predecessor as i bs hi := by
    rw [h.shape.inorder_eq] at hi
    have hleft : t.order .left = bs.reverse ++ i :: as.reverse := by simp [order, hi]
    have hprev := h.shape.neighbour .left hleft
    simp only [headD_eq_head?_getD, head?_reverse] at hprev
    rw [getLastD_eq_getLast?]
    exact hprev
  sentinel := ⟨h.shape.rep.tnil_black, h.shape.rep.tnil_childless .left, h.shape.rep.tnil_childless .right⟩

end

theorem init (ltfn : RbTreeLtFn) : Holds ltfn init.rt init.live .nil := by
  refine ⟨⟨⟨⟨rfl, trivial, nodup_nil⟩, rfl, ?_⟩, rfl, ?_⟩, List.Pairwise.nil, ?_, ?_⟩
  · intro d
    cases d <;> rfl
  · exact ⟨Nat.zero_lt_one, by simp [inorder],
      by simp [RbState.init, RbTree.init, RbTree.poolGetZero, RbTree.setColor,
      RbTree.modify], by simp [RbState.init, RbTree.init, RbTree.poolGetZero, RbTree.setColor, RbTree.modify],
      by simp [inorder], nodup_nil⟩
  · simp [inorder, RbState.init]
  · simp [RbState.init]

/-- A node that is added. -/
theorem added (h : Holds ltfn rt live t) {rt' : RbTree} {t' : NodeTree} {key : BitVec 32}
    {opaqueValue : BitVec 64} {z : ℕ}
    (hins : Inserted ltfn rt t key opaqueValue z rt' t') : Holds ltfn rt' (⟨z, key, opaqueValue⟩ :: live) t' := by
  refine ⟨hins.shape, hins.sorted, fun i => ?_, fun e he => ?_⟩
  · rw [hins.mem_iff, h.mem_iff]
    simp [eq_comm]
  · rcases mem_cons.mp he with rfl | he
    · exact ⟨hins.key_self, hins.value_self⟩
    · have hne : e.index ≠ z := by
        intro heq
        exact hins.notMem (heq ▸ (h.mem_iff _).mpr ⟨e, he, rfl⟩)
      rw [hins.key_other _ hne, hins.value_other _ hne]
      exact h.data e he

/-- A node that is deleted; `keep` tells the entries that remain. -/
theorem deleted (h : Holds ltfn rt live t) {rt' : RbTree} {t' : NodeTree} {z : ℕ} (hdel : Deleted ltfn rt t z rt' t')
    {keep : LiveNode → Bool} (hkeep : ∀ e ∈ live, keep e ↔ e.index ≠ z) :
    Holds ltfn rt' (live.filter keep) t' := by
  refine ⟨hdel.shape, hdel.sorted, fun i => ?_, fun e he => ?_⟩
  · rw [hdel.mem_iff, h.mem_iff]
    constructor
    · rintro ⟨hne, e, he, rfl⟩
      exact ⟨e, mem_filter.mpr ⟨he, (hkeep e he).mpr hne⟩, rfl⟩
    · rintro ⟨e, he, rfl⟩
      obtain ⟨he, hk⟩ := mem_filter.mp he
      exact ⟨(hkeep e he).mp hk, e, he, rfl⟩
  · rw [hdel.key, hdel.value]
    exact h.data e (mem_filter.mp he).1

/-- Every command returns, and the tree holds what is live after it. -/
theorem exec {s : RbState} (h : Holds ltfn s.rt s.live t) (hlt : StrictTotal ltfn) {c : RbCmd} (hc : c.Valid s) :
    ∃ s', c.exec ltfn s = .ok s' ∧ ∃ t', Holds ltfn s'.rt s'.live t' := by
  cases c with
  | add key opaqueValue =>
    have habsent : ∀ i ∈ t.inorder, (s.rt.nodes i).key ≠ key := by
      intro i hi hkey
      obtain ⟨e, he, rfl⟩ := (h.mem_iff i).mp hi
      exact hc e he ((h.data e he).1.symm.trans hkey)
    obtain ⟨rt', z, t', hadd, hins⟩ := rbTreeAddCustom_spec hlt h.shape h.sorted habsent opaqueValue
    exact ⟨_, by rw [RbCmd.exec, hadd], t', h.added hins⟩
  | delCustom key =>
    obtain ⟨i, hi, ⟨hit, hkey⟩ | ⟨rfl, hnone⟩⟩ := h.search hlt key
    · have hi0 : i ≠ 0 := by
        rintro rfl
        exact h.shape.rep.focus.linked.zero_notMem hit
      obtain ⟨rt', t', hdel, hdeleted⟩ := rbTreeDelNode_spec h.shape h.sorted hit
      have hrun : rbTreeDelCustom ltfn s.rt key = some rt' := by simp [rbTreeDelCustom, hi, hi0, hdel]
      refine ⟨⟨rt', s.live.filter (·.key ≠ key)⟩, by rw [RbCmd.exec, hrun], t',
        h.deleted hdeleted fun e he => ?_⟩
      rw [decide_eq_true_iff]
      refine not_congr ⟨fun heq => h.index_inj hlt he hit (hkey.trans heq.symm), ?_⟩
      rintro rfl
      exact (h.data e he).1.symm.trans hkey
    · refine ⟨s, ?_, t, h⟩
      have hall : s.live.filter (fun e => decide (e.key ≠ key)) = s.live := by
        refine filter_eq_self.mpr fun e he => ?_
        rw [decide_eq_true_iff]
        intro heq
        exact hnone e.index ((h.mem_iff _).mpr ⟨e, he, rfl⟩) ((h.data e he).1.trans heq)
      have hrun : rbTreeDelCustom ltfn s.rt key = some s.rt := by simp [rbTreeDelCustom, hi]
      simp only [RbCmd.exec, hrun, hall]
  | delNode z =>
    have hz : z ∈ t.inorder := (h.mem_iff z).mpr hc
    obtain ⟨rt', t', hdel, hdeleted⟩ := rbTreeDelNode_spec h.shape h.sorted hz
    refine ⟨⟨rt', s.live.filter (·.index ≠ z)⟩, by rw [RbCmd.exec, hdel], t',
      h.deleted hdeleted fun e _ => ?_⟩
    exact decide_eq_true_iff

end Holds

/-- In every run the tree is the ordered map of the live nodes, and every operation returns. -/
theorem rbTree_isOrderedMap (ltfn : RbTreeLtFn) (hlt : StrictTotal ltfn) (cs : List RbCmd)
    (hcs : AllStepsM Valid (fun s c => exec ltfn s c) init cs) :
    ∃ s, runM (fun s c => exec ltfn s c) init cs = .ok s ∧ IsOrderedMap ltfn s.rt s.live := by
  obtain ⟨s, hrun, t, h⟩ := runM_total_of_allSteps (P := fun s => ∃ t, Holds ltfn s.rt s.live t)
    (fun s c ⟨t, h⟩ hc => h.exec hlt hc) hcs ⟨.nil, Holds.init ltfn⟩
  exact ⟨s, hrun, h.isOrderedMap hlt⟩

/-- The order of `rb_tree_add`. -/
def keyLt : RbTreeLtFn := fun a b => a < b

theorem keyLt_strictTotal : StrictTotal keyLt where
  irrefl a := by simp [keyLt]
  trans a b c hab hbc := by
    simp only [keyLt, decide_eq_true_iff] at *
    exact BitVec.lt_trans hab hbc
  total a b hne := by
    simp only [keyLt, decide_eq_true_iff, BitVec.lt_def]
    exact Nat.lt_or_gt_of_ne fun h => hne (BitVec.eq_of_toNat_eq h)

/-- A run with insertions on both sides, a rotation, two deletions and an index that is used again. -/
def rbCmdsSample : List RbCmd :=
  [.add 5 50, .add 3 30, .add 8 80, .add 1 10, .add 4 40, .delCustom 3, .delNode 1, .add 7 70, .delCustom 9]

theorem rbTree_isOrderedMap_sample : AllStepsM Valid (fun s c => exec keyLt s c) init rbCmdsSample ∧
    ∃ s, runM (fun s c => exec keyLt s c) init rbCmdsSample = .ok s ∧ IsOrderedMap keyLt s.rt s.live :=
  have hvalid : AllStepsM Valid (fun s c => exec keyLt s c) init rbCmdsSample := by decide +kernel
  ⟨hvalid, rbTree_isOrderedMap keyLt keyLt_strictTotal rbCmdsSample hvalid⟩

end

end Vpp.Vppinfra
