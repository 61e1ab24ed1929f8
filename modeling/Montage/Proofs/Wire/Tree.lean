import Montage.Proofs.Wire.Property
import Montage.Wire.Tree

/-!
# Trees come back

What a child is gets decided by what it can be read as.  A written node is an object and a
written text a string, and no string is read as a node, so that each child comes back as
what it was.  Since children are kept while they are read, their documents have to be sound
as a whole, and they are.
-/

namespace Montage
namespace Tree

/-- The document of an entry in the list of children. -/
def childToJson : Child Tree → Json
  | .element node => node.toJson
  | .text content => .text content

theorem childrenToJson_eq_map (children : List (Child Tree)) :
    childrenToJson children = children.map childToJson := by
  induction children with
  | nil => rfl
  | cons child rest inductionHypothesis =>
      cases child <;> rw [childrenToJson, inductionHypothesis] <;> rfl

mutual

/-- The numbers in the properties of all nodes of a tree. -/
def numbers : Tree → List Float
  | ⟨_, props, children⟩ => Property.dictNumbers props ++ childrenNumbers children

/-- The numbers in the nodes among children. -/
def childrenNumbers : List (Child Tree) → List Float
  | [] => []
  | .element node :: rest => numbers node ++ childrenNumbers rest
  | .text _ :: rest => childrenNumbers rest

end

theorem mem_childrenNumbers
    {children : List (Child Tree)}
    {amount : Float} :
    amount ∈ childrenNumbers children ↔
      ∃ node, Child.element node ∈ children ∧ amount ∈ node.numbers := by
  induction children with
  | nil => simp [childrenNumbers]
  | cons child rest inductionHypothesis =>
      cases child <;> simp [childrenNumbers, inductionHypothesis, or_and_right, exists_or]

theorem forall_mem_numbers
    {name : String}
    {props : Dict Property}
    {children : List (Child Tree)}
    {holds : Float → Prop} :
    (∀ amount ∈ numbers ⟨name, props, children⟩, holds amount) ↔
      (∀ amount ∈ Property.dictNumbers props, holds amount) ∧
        ∀ node, Child.element node ∈ children → ∀ amount ∈ node.numbers, holds amount := by
  rw [numbers, List.forall_mem_append]
  apply and_congr_right
  intro _
  constructor
  · intro all node member amount inNode
    exact all amount (mem_childrenNumbers.mpr ⟨node, member, inNode⟩)
  · intro each amount member
    obtain ⟨node, isNode, inNode⟩ := mem_childrenNumbers.mp member
    exact each node isNode amount inNode

mutual

/-- The document of a tree has a text. -/
theorem isWritable_toJson (tree : Tree) : tree.toJson.IsWritable := by
  match tree with
  | ⟨name, props, children⟩ =>
      have childrenWritable := Json.isWritable_array (isWritable_childrenToJson children)
      apply Json.isWritable_record
      simpa using ⟨Json.isWritable_text _, Property.isWritable_dictToJson props,
        childrenWritable⟩

theorem isWritable_childrenToJson (children : List (Child Tree)) :
    ∀ json ∈ childrenToJson children, json.IsWritable := by
  match children with
  | [] => exact List.forall_mem_nil _
  | .element node :: rest =>
      exact List.forall_mem_cons.mpr ⟨isWritable_toJson node, isWritable_childrenToJson rest⟩
  | .text content :: rest =>
      exact List.forall_mem_cons.mpr
        ⟨Json.isWritable_text _, isWritable_childrenToJson rest⟩

end

/-- The tree is nested no deeper than the room allows, and its properties fit. -/
def Fits : Nat → Tree → Prop
  | room + 2, tree =>
      Property.DictFits (room + 1) tree.props ∧
        ∀ node, Child.element node ∈ tree.children → Fits room node
  | _, _ => False

/-- A tree that is read fits, and its numbers are finite. -/
theorem fits_of_ofJsonWithin?
    {kept : Bool}
    {room : Nat}
    {json : Json}
    {tree : Tree}
    (read : ofJsonWithin? kept room json = some tree) :
    tree.Fits room ∧ ∀ amount ∈ tree.numbers, amount.isFinite = true := by
  induction room using Nat.strongRecOn generalizing kept json tree with
  | ind room inductionHypothesis =>
  unfold ofJsonWithin? at read
  split at read
  · next room =>
      simp only [Option.bind_eq_bind, Option.bind_eq_some_iff, Option.pure_def] at read
      obtain ⟨fields, -, read⟩ := read
      split at read
      · simp only [Option.bind_eq_some_iff, Option.some.injEq] at read
        obtain ⟨name, -, props, propsRead, items, -, children, childrenRead, rfl⟩ := read
        have propsFit := Property.fits_of_dictOfJsonWithin? propsRead
        have each : ∀ node, Child.element node ∈ children →
            node.Fits room ∧ ∀ amount ∈ node.numbers, amount.isFinite = true := by
          intro node member
          obtain ⟨document, -, found⟩ := exists_of_mem_of_mapM childrenRead member
          split at found
          · split at found
            · next other nodeRead =>
                cases found
                exact inductionHypothesis room (by omega) nodeRead
            · obtain ⟨content, -, same⟩ := Option.map_eq_some_iff.mp found
              cases same
          · cases found
        refine ⟨⟨propsFit.1, fun node member => (each node member).1⟩, ?_⟩
        rw [forall_mem_numbers]
        exact ⟨propsFit.2, fun node member => (each node member).2⟩
      · cases read
  · cases read

/-- The document of a tree that fits, and whose numbers survive, can be kept. -/
theorem isSound_toJson
    {room : Nat}
    {tree : Tree}
    (fits : tree.Fits room)
    (survive : ∀ amount ∈ tree.numbers, Json.Survives amount) :
    tree.toJson.isSound room = true := by
  induction room using Nat.strongRecOn generalizing tree with
  | ind room inductionHypothesis =>
  obtain ⟨name, props, children⟩ := tree
  match room with
  | 0 | 1 => exact fits.elim
  | room + 2 =>
      rw [forall_mem_numbers] at survive
      have propsSound := Property.isSound_dictToJson fits.1 survive.1
      have childrenSound : ∀ child ∈ children, (childToJson child).isSound room = true := by
        intro child member
        cases child with
        | text content => simp [childToJson, Json.text, Json.isSound]
        | element node =>
            exact inductionHypothesis room (by omega) (fits.2 node member)
              (survive.2 node member)
      rw [toJson, childrenToJson_eq_map, Json.isSound_record]
      simpa [Json.text, Json.isSound, propsSound] using childrenSound

/-- A text is no node. -/
theorem ofJsonWithin?_text
    (kept : Bool)
    (room : Nat)
    (content : String) :
    ofJsonWithin? kept room (.text content) = none := by
  unfold ofJsonWithin?
  split
  · rfl
  · rfl

/-- A tree that fits, and whose numbers survive, is read from its own document. -/
theorem ofJsonWithin?_toJson
    (kept : Bool)
    {room : Nat}
    {tree : Tree}
    (fits : tree.Fits room)
    (survive : ∀ amount ∈ tree.numbers, Json.Survives amount) :
    ofJsonWithin? kept room tree.toJson = some tree := by
  induction room using Nat.strongRecOn generalizing kept tree with
  | ind room inductionHypothesis =>
  obtain ⟨name, props, children⟩ := tree
  match room with
  | 0 | 1 => exact fits.elim
  | room + 2 =>
      rw [forall_mem_numbers] at survive
      have propsRead := Property.dictOfJsonWithin?_dictToJson kept fits.1 survive.1
      have fields : (toJson ⟨name, props, children⟩).fields? fieldNames =
          some [some (.text name), some (Property.dictToJson props),
            some (.array (children.map childToJson))] := by
        rw [toJson, childrenToJson_eq_map, Json.fields?_record _ (by simp)]
        simp [fieldNames, List.lookup]
      simp only [ofJsonWithin?, fields, Option.bind_eq_bind, Option.bind_some, Json.text,
        Json.string?, propsRead, Json.items?]
      rw [List.mapM_map, mapM_eq_some_self]
      · rfl
      · intro child member
        cases child with
        | text content =>
            have sound : (Json.text content).isSound room = true := by
              simp [Json.text, Json.isSound]
            simp only [Function.comp_apply, childToJson, sound, ofJsonWithin?_text, if_true]
            rfl
        | element node =>
            -- A child is kept before it is known to be a node, so that a nested node is read
            -- as kept even where the tree itself is not.
            have sound := isSound_toJson (fits.2 node member) (survive.2 node member)
            have nodeRead := inductionHypothesis room (by omega) true (fits.2 node member)
              (survive.2 node member)
            simp only [Function.comp_apply, childToJson, sound, nodeRead, if_true]

end Tree
end Montage
