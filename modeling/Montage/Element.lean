import Montage.Property

/-!
# Elements and batches

An element is one entry of a flat batch: it has a name and properties, and it refers
to its parent by identifier.  A batch is a list of elements with a root of the
library's own in front.
-/

namespace Montage

/-- One element of a flat batch. -/
structure Element where
  /-- The identifier that other elements refer to. -/
  id : String
  /-- The name of the component. -/
  name : String
  /-- The identifier of the parent, if there is one. -/
  parent : Option String
  /-- The properties, in key order. -/
  props : Dict Property
  /-- The element's own text. -/
  text : Option String

namespace Element

/-- The identifier of the root. -/
def rootId : String :=
  "root"

/-- The name of the root that is put in front of every batch. -/
def rootName : String :=
  "AbsoluteFill"

/-- The word that stands for the absence of a parent. -/
def nullWord : String :=
  "null"

/-- The root that is put in front of every batch. -/
def root : Element where
  id := rootId
  name := rootName
  parent := none
  props := []
  text := none

/-- Whether the element can be the root of a tree: by its identifier, or because it
names no parent. -/
def isRootCandidate (element : Element) : Bool :=
  element.id = rootId || element.parent.all (· = nullWord)

end Element

/-- Elements ready to be nested. -/
structure Batch where
  /-- The library's root, followed by the caller's elements in order. -/
  elements : List Element
  /-- Whether the caller has an element with the identifier of the root as well. -/
  declaresRoot : Bool

/-- Puts the root in front of the caller's elements, whatever these are. -/
def Batch.ofElements (elements : List Element) : Batch where
  elements := Element.root :: elements
  declaresRoot := elements.any fun element => element.id = Element.rootId

end Montage
