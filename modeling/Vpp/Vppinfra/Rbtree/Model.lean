import Vpp.Schemes.LinkedTree

/-! The red-black tree (`vppinfra/rbtree.c`).

    The nodes are elements of a pool and are linked by index, to both children and to the parent; index 0 is the
    sentinel `T.nil`, a node like the others, whose parent link is borrowed while a node is deleted:

        nodes   [ T.nil | 5 red | 3 black | (free) | 8 red ]        root = 2
        free               3

    A write is a write to one field of one node, in the order of the source. Loops are given a bound on their number of
    turns and return `none` when it is reached; the number of nodes is bound enough. Where the source has a branch and
    its mirror image, there is one branch with a side. -/

namespace Vpp.Vppinfra
open Vpp.Schemes Function

inductive RbNodeColor where
  | red | black
deriving DecidableEq

structure RbNode extends Links where
  color : RbNodeColor
  key : BitVec 32
  opaqueValue : BitVec 64
deriving DecidableEq

/-- `rb_tree_t`, with the length of the pool and its free indices, the one freed last first. A
    `rb_node_index_t` has 32 bits: the pool is taken to stay below `2 ^ 32` elements. -/
structure RbTree where
  nodes : ℕ → RbNode
  len : ℕ
  free : List ℕ
  root : ℕ

abbrev RbTreeLtFn := BitVec 32 → BitVec 32 → Bool

/-- A node of zeros; the colour 0 is red. -/
def RbNode.zero : RbNode := ⟨⟨0, 0, 0⟩, .red, 0, 0⟩

namespace RbTree

def modify (rt : RbTree) (i : ℕ) (f : RbNode → RbNode) : RbTree :=
  { rt with nodes := update rt.nodes i (f (rt.nodes i)) }

def setColor (rt : RbTree) (i : ℕ) (c : RbNodeColor) : RbTree := rt.modify i fun n => { n with color := c }

def setParent (rt : RbTree) (i p : ℕ) : RbTree := rt.modify i fun n => { n with toLinks := n.toLinks.setParent p }

def setChild (rt : RbTree) (i : ℕ) (d : Side) (j : ℕ) : RbTree :=
  rt.modify i fun n => { n with toLinks := n.toLinks.setChild d j }

def poolGetZero (rt : RbTree) : RbTree × ℕ :=
  match rt.free with
  | [] => ({ rt with nodes := update rt.nodes rt.len .zero, len := rt.len + 1 }, rt.len)
  | i :: free => ({ rt with nodes := update rt.nodes i .zero, free := free }, i)

def poolPut (rt : RbTree) (i : ℕ) : RbTree := { rt with free := i :: rt.free }

/-- The bound on the number of turns of a loop. -/
def turns (rt : RbTree) : ℕ := rt.len + 1

/-- `rb_tree_init`: the first node is the sentinel -/
def init : RbTree :=
  ({ nodes := fun _ => .zero, len := 0, free := [], root := 0 } : RbTree).poolGetZero.1.setColor 0 .black

/-- The node `new` is put in the place of `old` below `p`; side `d` is tried first. -/
def replaceChild (rt : RbTree) (d : Side) (p old new : ℕ) : RbTree :=
  if p = 0 then { rt with root := new }
  else if (rt.nodes p).child d = old then rt.setChild p d new
  else rt.setChild p d.other new

/-- The node `b`, if it is one, becomes the child of `x` on side `d`. -/
def handOver (rt : RbTree) (d : Side) (x b : ℕ) : RbTree :=
  let rt := rt.setChild x d b
  if b ≠ 0 then rt.setParent b x else rt

end RbTree

/-- `rb_tree_rotate_left` and its mirror image -/
def rbTreeRotate (d : Side) (rt : RbTree) (x : ℕ) : RbTree :=
  let y := (rt.nodes x).child d.other
  let b := (rt.nodes y).child d
  let rt := rt.handOver d.other x b
  let xp := (rt.nodes x).parent
  let rt := rt.setParent y xp
  let rt := rt.replaceChild d xp x y
  let rt := rt.setChild y d x
  rt.setParent x y

def rbTreeRotateLeft : RbTree → ℕ → RbTree := rbTreeRotate .left

def rbTreeRotateRight : RbTree → ℕ → RbTree := rbTreeRotate .right

/-! ### Insertion -/

/-- The first rotation of `rb_tree_fixup_inline`: with `z` on the far side of its parent, the two change places. -/
def rbTreeFixupTurn (d : Side) (rt : RbTree) (z : ℕ) : RbTree × ℕ :=
  let zp := (rt.nodes z).parent
  if z = (rt.nodes zp).child d.other then (rbTreeRotate d rt zp, zp) else (rt, z)

/-- The second: the parent of `z` becomes black and takes the place of the grandparent. -/
def rbTreeFixupLift (d : Side) (rt : RbTree) (z : ℕ) : RbTree :=
  let zp := (rt.nodes z).parent
  let zpp := (rt.nodes zp).parent
  rbTreeRotate d.other ((rt.setColor zp .black).setColor zpp .red) zpp

/-- `rb_tree_fixup_inline`; `y` is the parent of `z` in the first turn and the uncle after it -/
def rbTreeFixupInline : ℕ → RbTree → ℕ → ℕ → Option RbTree
  | 0, _, _, _ => none
  | fuel + 1, rt, y, z =>
    if (rt.nodes y).color = .red then
      let zp := (rt.nodes z).parent
      let zpp := (rt.nodes zp).parent
      let d := if zp = (rt.nodes zpp).left then Side.left else Side.right
      let y := (rt.nodes zpp).child d.other
      if (rt.nodes y).color = .red then
        rbTreeFixupInline fuel (((rt.setColor zp .black).setColor y .black).setColor zpp .red) y zpp
      else
        let (rt, z) := rbTreeFixupTurn d rt z
        rbTreeFixupInline fuel (rbTreeFixupLift d rt z) y z
    else some (rt.setColor rt.root .black)

/-- The way down of `rb_tree_add_custom`: the node below which `key` belongs. -/
def rbTreeDescend (ltfn : RbTreeLtFn) (rt : RbTree) (key : BitVec 32) : ℕ → ℕ → ℕ → Option ℕ
  | 0, _, _ => none
  | fuel + 1, x, y =>
    if x ≠ 0 then
      rbTreeDescend ltfn rt key fuel (if ltfn key (rt.nodes x).key then (rt.nodes x).left else (rt.nodes x).right) x
    else some y

/-- The new node is hung below `y`. -/
def rbTreeHang (ltfn : RbTreeLtFn) (rt : RbTree) (z y : ℕ) : RbTree :=
  let rt := rt.setParent z y
  if y = 0 then { rt with root := z }
  else if ltfn (rt.nodes z).key (rt.nodes y).key then rt.setChild y .left z
  else rt.setChild y .right z

def rbTreeAddCustom (ltfn : RbTreeLtFn) (rt : RbTree) (key : BitVec 32) (opaqueValue : BitVec 64) :
    Option (RbTree × ℕ) := do
  let (rt, z) := rt.poolGetZero
  let rt := rt.modify z fun n => { n with key := key, color := .red, opaqueValue := opaqueValue }
  let y ← rbTreeDescend ltfn rt key rt.turns rt.root 0
  let rt ← rbTreeFixupInline rt.turns (rbTreeHang ltfn rt z y) y z
  return (rt, z)

/-! ### Queries -/

/-- The loop of `rb_tree_search_subtree_custom`. -/
def rbTreeSearch (ltfn : RbTreeLtFn) (rt : RbTree) (key : BitVec 32) : ℕ → ℕ → Option ℕ
  | 0, _ => none
  | fuel + 1, x =>
    if x ≠ 0 ∧ key ≠ (rt.nodes x).key then
      rbTreeSearch ltfn rt key fuel (if ltfn key (rt.nodes x).key then (rt.nodes x).left else (rt.nodes x).right)
    else some x

def rbTreeSearchSubtreeCustom (ltfn : RbTreeLtFn) (rt : RbTree) (x : ℕ) (key : BitVec 32) : Option ℕ :=
  rbTreeSearch ltfn rt key rt.turns x

/-- The loop of `rb_tree_min_subtree` and `rb_tree_max_subtree`. -/
def rbTreeOutermost (d : Side) (rt : RbTree) : ℕ → ℕ → Option ℕ
  | 0, _ => none
  | fuel + 1, x => if (rt.nodes x).child d ≠ 0 then rbTreeOutermost d rt fuel ((rt.nodes x).child d) else some x

def rbTreeMinSubtree (rt : RbTree) (x : ℕ) : Option ℕ := rbTreeOutermost .left rt rt.turns x

def rbTreeMaxSubtree (rt : RbTree) (x : ℕ) : Option ℕ := rbTreeOutermost .right rt rt.turns x

/-- The way up of `rb_tree_successor` and `rb_tree_predecessor`. -/
def rbTreeAscend (d : Side) (rt : RbTree) : ℕ → ℕ → ℕ → Option ℕ
  | 0, _, _ => none
  | fuel + 1, x, y => if y ≠ 0 ∧ (rt.nodes y).child d = x then rbTreeAscend d rt fuel y
      (rt.nodes y).parent else some y

/-- The next node on side `d` in order. -/
def rbTreeNeighbour (d : Side) (rt : RbTree) (x : ℕ) : Option ℕ :=
  if (rt.nodes x).child d ≠ 0 then rbTreeOutermost d.other rt rt.turns ((rt.nodes x).child d)
  else rbTreeAscend d rt rt.turns x (rt.nodes x).parent

def rbTreeSuccessor : RbTree → ℕ → Option ℕ := rbTreeNeighbour .right

def rbTreePredecessor : RbTree → ℕ → Option ℕ := rbTreeNeighbour .left

/-! ### Deletion -/

def rbTreeTransplant (rt : RbTree) (u v : ℕ) : RbTree :=
  let rt := rt.replaceChild .left (rt.nodes u).parent u v
  rt.setParent v (rt.nodes u).parent

/-- `y`, the first node on the right of `z`, is taken from its place. -/
def rbTreeDetach (rt : RbTree) (z y : ℕ) : RbTree :=
  let x := (rt.nodes y).right
  if (rt.nodes y).parent = z then rt.setParent x y
  else
    let rt := rbTreeTransplant rt y x
    let rt := rt.setChild y .right (rt.nodes z).right
    rt.setParent (rt.nodes y).right y

/-- And put in the place of `z`. -/
def rbTreeSubstitute (rt : RbTree) (z y : ℕ) : RbTree :=
  let rt := rbTreeTransplant rt z y
  let rt := rt.setChild y .left (rt.nodes z).left
  let rt := rt.setParent (rt.nodes y).left y
  rt.setColor y (rt.nodes z).color

/-- The first part of `rb_tree_del_node_internal`: the tree without `z`, `x` and `y_original_color`. -/
def rbTreeUnlink (rt : RbTree) (z : ℕ) : Option (RbTree × ℕ × RbNodeColor) :=
  if (rt.nodes z).left = 0 then
    some (rbTreeTransplant rt z (rt.nodes z).right, (rt.nodes z).right, (rt.nodes z).color)
  else if (rt.nodes z).right = 0 then
    some (rbTreeTransplant rt z (rt.nodes z).left, (rt.nodes z).left, (rt.nodes z).color)
  else do
    let y ← rbTreeMinSubtree rt (rt.nodes z).right
    return (rbTreeSubstitute (rbTreeDetach rt z y) z y, (rt.nodes y).right, (rt.nodes y).color)

/-- A red sibling of `x` changes places with the parent. -/
def rbTreeDelTurn (d : Side) (rt : RbTree) (xp : ℕ) : RbTree :=
  let w := (rt.nodes xp).child d.other
  if (rt.nodes w).color = .red then rbTreeRotate d ((rt.setColor w .black).setColor xp .red) xp else rt

/-- A sibling with two black children becomes red, if it is a node. -/
def rbTreeDelRecolor (rt : RbTree) (w : ℕ) : RbTree := if w ≠ 0 then rt.setColor w .red else rt

/-- With a red child of the sibling `w`, the one that is far from `x` is red after this. -/
def rbTreeDelStraighten (d : Side) (rt : RbTree) (w : ℕ) : RbTree :=
  if (rt.nodes ((rt.nodes w).child d.other)).color = .black then
    rbTreeRotate d.other ((rt.setColor ((rt.nodes w).child d) .black).setColor w .red) w
  else rt

/-- The sibling `w` takes the place and the colour of the parent. -/
def rbTreeDelLift (d : Side) (rt : RbTree) (xp : ℕ) : RbTree :=
  let w := (rt.nodes xp).child d.other
  let far := (rt.nodes w).child d.other
  let rt := rt.setColor w (rt.nodes xp).color
  rbTreeRotate d ((rt.setColor xp .black).setColor far .black) xp

/-- The loop of `rb_tree_del_node_internal`. -/
def rbTreeDelFixup : ℕ → RbTree → ℕ → Option RbTree
  | 0, _, _ => none
  | fuel + 1, rt, x =>
    if x ≠ rt.root ∧ (rt.nodes x).color = .black then
      let xp := (rt.nodes x).parent
      let d := if x = (rt.nodes xp).left then Side.left else Side.right
      let rt := rbTreeDelTurn d rt xp
      let w := (rt.nodes xp).child d.other
      if (rt.nodes (rt.nodes w).left).color = .black ∧ (rt.nodes (rt.nodes w).right).color = .black then
        rbTreeDelFixup fuel (rbTreeDelRecolor rt w) xp
      else
        let rt := rbTreeDelLift d (rbTreeDelStraighten d rt w) xp
        rbTreeDelFixup fuel rt rt.root
    else some (rt.setColor x .black)

def rbTreeDelNodeInternal (rt : RbTree) (z : ℕ) : Option RbTree := do
  let (rt, x, yOriginalColor) ← rbTreeUnlink rt z
  if yOriginalColor = .red then return rt
  rbTreeDelFixup rt.turns rt x

def rbTreeDelNode (rt : RbTree) (z : ℕ) : Option RbTree := do
  let rt ← rbTreeDelNodeInternal rt z
  return rt.poolPut z

def rbTreeDelCustom (ltfn : RbTreeLtFn) (rt : RbTree) (key : BitVec 32) : Option RbTree := do
  let n ← rbTreeSearchSubtreeCustom ltfn rt rt.root key
  if n ≠ 0 then rbTreeDelNode rt n else return rt

end Vpp.Vppinfra
