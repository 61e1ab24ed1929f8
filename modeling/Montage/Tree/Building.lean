import Montage.Element.Description
import Montage.Tree.Outline

/-!
# From descriptions to a tree

The descriptions of a clip are read, the library's root is put in front of them, and
the batch is nested.
-/

namespace Montage

/-- The tree of a list of element descriptions. -/
def Tree.ofDescriptions (sources : List String) : Except Error Tree := do
  let batch ← Batch.read sources
  Tree.ofElements batch.elements

end Montage
