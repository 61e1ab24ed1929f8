import Montage.Property

/-!
# Trees

A tree is a named node with properties and a list of children, each of which is a
further node or a text.  The kind of node is a parameter of `Child`, since sampled
trees have children of the same form.
-/

namespace Montage

/-- One entry in the list of children of a node. -/
inductive Child (α : Type) where
  /-- A nested node. -/
  | element (node : α)
  /-- A text. -/
  | text (content : String)

namespace Child

variable {α : Type}

/-- The nested node of an entry that is one. -/
def element? : Child α → Option α
  | .element node => some node
  | .text _ => none

/-- The text of an entry that is one. -/
def text? : Child α → Option String
  | .element _ => none
  | .text content => some content

end Child

/-- A node of the tree that is sampled frame by frame; its properties still change in
time. -/
structure Tree where
  /-- The name of the component. -/
  name : String
  /-- The properties, in key order. -/
  props : List (String × Property)
  /-- Nested nodes and texts in order. -/
  children : List (Child Tree)

namespace Tree

/-- The nested nodes, without the texts between them. -/
def elementChildren (tree : Tree) : List Tree :=
  tree.children.filterMap Child.element?

/-- The text in last place, if there is one. -/
def text? (tree : Tree) : Option String :=
  tree.children.getLast?.bind Child.text?

end Tree
end Montage
