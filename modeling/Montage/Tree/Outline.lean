import Montage.Element
import Montage.Error
import Montage.Tree

/-!
# Nesting a flat batch

The elements of a batch refer to their parents by identifier, in any order.  The
first element that can be a root is the root of the tree.  One pass over the others
files each under its parent: an element that reuses the root's identifier goes under
the root and gets no children of its own, and of several other elements with one
identifier only the first is kept.  `Outline` is the resulting shape, in which every
node still knows its position in the batch; `Outline.toTree` forgets the positions.

No path down from the root meets a position twice, because every identifier that is
kept has one parent and nothing is filed twice; so a walk that is as deep as the
batch is long reaches everything.
-/

namespace Montage

/-- An element together with its position in the batch. -/
structure Placed where
  /-- The position in the batch, from zero. -/
  position : Nat
  /-- The element at that position. -/
  element : Element

/-- A place under a parent. -/
inductive Slot where
  /-- An element whose own children are followed. -/
  | node (placed : Placed)
  /-- An element that stays without children. -/
  | leaf (placed : Placed)

/-- The element in a slot. -/
def Slot.placed : Slot → Placed
  | .node placed => placed
  | .leaf placed => placed

/-- What one pass over a batch finds out. -/
structure Filing where
  /-- The position of the first element with each identifier. -/
  firstWith : Dict Nat := []
  /-- The slots under each parent identifier, in the order of the batch. -/
  under : Dict (List Slot) := []

namespace Filing

/-- The slots under an identifier. -/
def slotsUnder
    (filing : Filing)
    (id : String) : List Slot :=
  (filing.under.find? id).getD []

/-- Files a slot as the last one under an identifier. -/
def file
    (filing : Filing)
    (id : String)
    (slot : Slot) : Filing :=
  { filing with under := filing.under.insert id (filing.slotsUnder id ++ [slot]) }

/-- Takes one element other than the root into account. -/
def add
    (rootId : String)
    (filing : Filing)
    (placed : Placed) : Filing :=
  let id := placed.element.id
  if id = rootId then
    filing.file rootId (.leaf placed)
  else
    match filing.firstWith.find? id with
    | some _ => filing
    | none =>
        let noted :=
          { filing with firstWith := filing.firstWith.insert id placed.position }
        match placed.element.parent with
        | none => noted
        | some parent => noted.file parent (.node placed)

/-- Files a batch around its root. -/
def ofBatch
    (root : Placed)
    (batch : List Placed) : Filing :=
  let start : Filing :=
    { firstWith := Dict.insert root.element.id root.position [] }
  (batch.filter fun placed => placed.position ≠ root.position).foldl
    (add root.element.id) start

end Filing

/-- The shape of a tree, with the element of each node and its position. -/
structure Outline where
  /-- The element of the node. -/
  placed : Placed
  /-- The outlines below it, in order. -/
  children : List Outline

namespace Outline

/-- The outline below a slot, down to a given depth. -/
def grow (filing : Filing) : Nat → Slot → Outline
  | 0, slot => ⟨slot.placed, []⟩
  | _ + 1, .leaf placed => ⟨placed, []⟩
  | depth + 1, .node placed =>
      ⟨placed, (filing.slotsUnder placed.element.id).map (grow filing depth)⟩

/-- The batch with its positions. -/
def place (elements : List Element) : List Placed :=
  elements.zipIdx.map fun entry => ⟨entry.2, entry.1⟩

/-- The first element that can be the root. -/
def root? (elements : List Element) : Option Placed :=
  (place elements).find? fun placed => placed.element.isRootCandidate

/-- An element in front that can be the root is the root. -/
theorem root?_cons
    {first : Element}
    (candidate : first.isRootCandidate = true)
    (rest : List Element) :
    root? (first :: rest) = some ⟨0, first⟩ := by
  rw [root?, place, List.zipIdx_cons, List.map_cons]
  exact List.find?_cons_of_pos candidate

/-- The outline of a batch, unless no element of it can be the root. -/
def ofElements? (elements : List Element) : Option Outline :=
  (root? elements).map fun root =>
    grow (Filing.ofBatch root (place elements)) elements.length (.node root)

/-- The outline of a batch around its root. -/
theorem ofElements?_of_root?
    {elements : List Element}
    {root : Placed}
    (found : root? elements = some root) :
    ofElements? elements =
      some (grow (Filing.ofBatch root (place elements)) elements.length (.node root)) := by
  rw [ofElements?, found, Option.map_some]

/-- The text of an element as a child in last place. -/
def ownText (element : Element) : List (Child Tree) :=
  match element.text with
  | none => []
  | some content => [.text content]

mutual

/-- The tree of an outline: each element's nested nodes, and after them its text. -/
def toTree : Outline → Tree
  | ⟨placed, children⟩ =>
      { name := placed.element.name
        props := placed.element.props
        children := toChildren children ++ ownText placed.element }

/-- The nested nodes of a list of outlines. -/
def toChildren : List Outline → List (Child Tree)
  | [] => []
  | outline :: rest => .element (toTree outline) :: toChildren rest

end

mutual

/-- The elements of an outline's nodes with their positions, each node before what is
below it. -/
def nodes : Outline → List Placed
  | ⟨placed, children⟩ => placed :: nodesOf children

/-- The elements of the nodes of a list of outlines. -/
def nodesOf : List Outline → List Placed
  | [] => []
  | outline :: rest => nodes outline ++ nodesOf rest

end

end Outline

/-- Nests a batch. -/
def Tree.ofElements (elements : List Element) : Except Error Tree :=
  match Outline.ofElements? elements with
  | none => .error .noRoot
  | some outline => .ok outline.toTree

/-- A batch with an outline has the tree of that outline. -/
theorem Tree.ofElements_of_ofElements?
    {elements : List Element}
    {outline : Outline}
    (built : Outline.ofElements? elements = some outline) :
    Tree.ofElements elements = .ok outline.toTree := by
  rw [Tree.ofElements, built]

end Montage
