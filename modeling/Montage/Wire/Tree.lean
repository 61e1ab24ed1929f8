import Montage.Tree
import Montage.Wire.Property

/-!
# Trees in documents

A tree is written as a record, a text among the children of a node as a string.  What
a child is gets decided by what it can be decoded as; children therefore are kept, and
have to be sound as a whole.
-/

namespace Montage
namespace Tree

/-- The fields of a node in order. -/
def fieldNames : List String :=
  ["name", "props", "children"]

/-- Decodes a tree in the given room. -/
def ofJsonWithin? (kept : Bool) : Nat → Json → Option Tree
  | room + 2, json => do
      match ← json.fields? fieldNames with
      | [some name, some props, some children] =>
          let name ← name.string?
          let props ← Property.dictOfJsonWithin? kept (room + 1) props
          let children ← (← children.items?).mapM fun child =>
            if child.isSound room then
              match ofJsonWithin? true room child with
              | some node => some (Child.element node)
              | none => child.string?.map Child.text
            else
              none
          return ⟨name, props, children⟩
      | _ => none
  | _, _ => none

/-- Decodes a whole document as a tree. -/
def ofJson? (json : Json) : Option Tree :=
  ofJsonWithin? false Json.maxDepth json

mutual

/-- The document of a tree. -/
def toJson : Tree → Json
  | ⟨name, props, children⟩ =>
      Json.record
        [("name", .text name),
          ("props", Property.dictToJson props),
          ("children", .array (childrenToJson children))]

/-- The documents of the children of a node. -/
def childrenToJson : List (Child Tree) → List Json
  | [] => []
  | .element node :: rest => toJson node :: childrenToJson rest
  | .text content :: rest => .text content :: childrenToJson rest

end

end Tree
end Montage
