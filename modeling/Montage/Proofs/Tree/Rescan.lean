import Montage.Proofs.Tree.Descent

/-!
# Trees by looking through the whole batch

`Tree.Renders` says what the tree of a slot looks like without any filing: at every node
the whole batch is looked through for the slots below it, each of them is shown by a
nested node, in the order of the batch, and the element's own text comes last.  Exactly
one tree is like this, and it is the one that nesting the batch makes.
-/

namespace Montage

namespace Tree

mutual

/-- A tree shows a slot: the node has the name and the properties of the element in the
slot, and its children show what a look through the whole batch finds below the slot. -/
inductive Renders
    (root : Placed)
    (batch : List Placed) : Slot → Tree → Prop where
  | node
      {slot : Slot}
      {children : List (Child Tree)}
      (below :
        RendersAll root batch slot.placed.element (slotsBelow root batch slot) children) :
      Renders root batch slot
        ⟨slot.placed.element.name, slot.placed.element.props, children⟩

/-- Children show slots: one nested node for each slot, in order, and after them the text
of the element that they belong to, if it has one. -/
inductive RendersAll
    (root : Placed)
    (batch : List Placed) : Element → List Slot → List (Child Tree) → Prop where
  | noText
      {owner : Element}
      (absent : owner.text = none) :
      RendersAll root batch owner [] []
  | text
      {owner : Element}
      {content : String}
      (own : owner.text = some content) :
      RendersAll root batch owner [] [.text content]
  | node
      {owner : Element}
      {slot : Slot}
      {slots : List Slot}
      {tree : Tree}
      {rest : List (Child Tree)}
      (first : Renders root batch slot tree)
      (others : RendersAll root batch owner slots rest) :
      RendersAll root batch owner (slot :: slots) (.element tree :: rest)

end

section Renders

variable {root : Placed} {batch : List Placed}

mutual

/-- At most one tree shows a slot. -/
theorem Renders.unique {slot : Slot} {left right : Tree} :
    Renders root batch slot left → Renders root batch slot right → left = right
  | .node leftBelow, .node rightBelow => by
      rw [leftBelow.unique rightBelow]

/-- At most one list of children shows a list of slots. -/
theorem RendersAll.unique
    {owner : Element}
    {slots : List Slot}
    {left right : List (Child Tree)} :
    RendersAll root batch owner slots left → RendersAll root batch owner slots right →
      left = right
  | .noText _, .noText _ => rfl
  | .text left, .text right => by rw [Option.some.inj (left.symm.trans right)]
  | .noText absent, .text own => by simp [absent] at own
  | .text own, .noText absent => by simp [absent] at own
  | .node leftFirst leftOthers, .node rightFirst rightOthers => by
      rw [leftFirst.unique rightFirst, leftOthers.unique rightOthers]

end

/-- With no slot left, the own text of an element is all there is. -/
theorem rendersAll_ownText (owner : Element) :
    RendersAll root batch owner [] (Outline.ownText owner) := by
  rw [Outline.ownText]
  split
  · next absent => exact RendersAll.noText absent
  · next content own => exact RendersAll.text own

/-- Outlines that show slots one by one give children that show all of them. -/
theorem rendersAll_toChildren
    (owner : Element)
    {outlineOf : Slot → Outline}
    {slots : List Slot}
    (renders : ∀ slot ∈ slots, Renders root batch slot (outlineOf slot).toTree) :
    RendersAll root batch owner slots
      (Outline.toChildren (slots.map outlineOf) ++ Outline.ownText owner) := by
  induction slots with
  | nil => exact rendersAll_ownText owner
  | cons slot slots inductionHypothesis =>
      obtain ⟨first, others⟩ := List.forall_mem_cons.mp renders
      exact RendersAll.node first (inductionHypothesis others)

/-- The outline below the end of a descent gives a tree that shows its slot. -/
theorem renders_grow
    (rooted : Rooted root batch)
    {path : List Slot}
    {slot : Slot}
    {depth : Nat}
    (descent : Descent root batch path slot)
    (deep : batch.length ≤ depth + path.length) :
    Renders root batch slot
      (Outline.grow (Filing.ofBatch root batch) depth slot).toTree := by
  induction depth generalizing path slot with
  | zero =>
      have short := descent.length_le rooted
      omega
  | succ depth inductionHypothesis =>
      rw [Outline.grow_succ rooted, Outline.toTree]
      refine Renders.node (rendersAll_toChildren _ fun next member => ?_)
      refine inductionHypothesis (descent.step member) ?_
      rw [List.length_cons]
      omega

end Renders

section OfRoot

variable {elements : List Element} {root : Placed}

/-- A batch with a root has a tree that shows the root. -/
theorem exists_renders_of_root?
    (found : Outline.root? elements = some root) :
    ∃ tree, Tree.ofElements elements = .ok tree ∧
      tree.Renders root (Outline.place elements) (.node root) := by
  have built := ofElements_of_ofElements? (Outline.ofElements?_of_root? found)
  rw [← Outline.length_place] at built
  exact ⟨_, built, renders_grow (Rooted.of_root? found) Descent.start (Nat.le_refl _)⟩

/-- Nesting makes the tree that shows the root. -/
theorem ofElements_eq_ok_of_renders
    (found : Outline.root? elements = some root)
    {tree : Tree}
    (renders : tree.Renders root (Outline.place elements) (.node root)) :
    Tree.ofElements elements = .ok tree := by
  obtain ⟨made, isMade, madeRenders⟩ := exists_renders_of_root? found
  rw [isMade, madeRenders.unique renders]

/-- A batch with a root has a tree, and that tree is the only one that shows the root
when the whole batch is looked through at every node. -/
theorem ofElements_eq_ok_iff_renders
    (found : Outline.root? elements = some root) :
    (∃ tree, Tree.ofElements elements = .ok tree) ∧
      ∀ tree, Tree.ofElements elements = .ok tree ↔
        tree.Renders root (Outline.place elements) (.node root) := by
  obtain ⟨made, isMade, madeRenders⟩ := exists_renders_of_root? found
  refine ⟨⟨made, isMade⟩, fun tree => ⟨fun isTree => ?_, ofElements_eq_ok_of_renders found⟩⟩
  rw [← Except.ok.inj (isMade.symm.trans isTree)]
  exact madeRenders

/-- The tree of the tangled batch. -/
theorem ofElements_tangledBatch_iff_renders :
    Outline.root? tangledBatch = some tangledRoot ∧
      (∃ tree, Tree.ofElements tangledBatch = .ok tree) ∧
      ∀ tree, Tree.ofElements tangledBatch = .ok tree ↔
        tree.Renders tangledRoot (Outline.place tangledBatch) (.node tangledRoot) := by
  have found : Outline.root? tangledBatch = some tangledRoot := rfl
  exact ⟨found, ofElements_eq_ok_iff_renders found⟩

end OfRoot

end Tree
end Montage
