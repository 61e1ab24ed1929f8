import Montage.Proofs.Tree.Descent

/-!
# Which elements a tree shows

An element of a batch gets a node when it is the root, when it carries the identifier
of the root, or when it is the first with its identifier and its chain of parents leads
to the root.  `Placed.IsRendered` says so without any walk down from the root; the nodes
of the tree are exactly these elements, each of them once.
-/

namespace Montage

/-- From an identifier, going from the first element that carries it to the parent of
that element and so on, one comes to the target. -/
inductive Reaches
    (batch : List Placed)
    (target : String) : String → Prop where
  /-- The target itself. -/
  | arrived : Reaches batch target target
  /-- An identifier whose first element has a parent from which one comes there. -/
  | step
      {placed : Placed}
      {id parent : String}
      (member : placed ∈ batch)
      (first : placed.IsFirst batch)
      (carries : placed.element.id = id)
      (under : placed.element.parent = some parent)
      (reaches : Reaches batch target parent) :
      Reaches batch target id

/-- Whether an element of a batch gets a node: the root, every other element with its
identifier, and every first element of another identifier from which one comes to the
root. -/
def Placed.IsRendered
    (placed root : Placed)
    (batch : List Placed) : Prop :=
  placed = root ∨
    (placed.position ≠ root.position ∧ placed.element.id = root.element.id) ∨
    (placed.element.id ≠ root.element.id ∧ placed.IsFirst batch ∧
      Reaches batch root.element.id placed.element.id)

/-- What a tree shows of the element at a node, besides what is below it. -/
def Placed.label (placed : Placed) : String × Dict Property :=
  (placed.element.name, placed.element.props)

namespace Tree

mutual

/-- The names and properties of a tree's nodes, each node before what is below it. -/
def labels : Tree → List (String × Dict Property)
  | ⟨name, props, children⟩ => (name, props) :: labelsOf children

/-- The names and properties of the nodes in a list of children. -/
def labelsOf : List (Child Tree) → List (String × Dict Property)
  | [] => []
  | .element tree :: rest => labels tree ++ labelsOf rest
  | .text _ :: rest => labelsOf rest

end

theorem labelsOf_append (front back : List (Child Tree)) :
    labelsOf (front ++ back) = labelsOf front ++ labelsOf back := by
  induction front with
  | nil => simp [labelsOf]
  | cons child rest inductionHypothesis =>
      cases child with
      | element tree => simp [labelsOf, inductionHypothesis]
      | text content => simp [labelsOf, inductionHypothesis]

@[simp] theorem labelsOf_ownText (element : Element) :
    labelsOf (Outline.ownText element) = [] := by
  unfold Outline.ownText
  cases element.text with
  | none => rfl
  | some content => rfl

end Tree

/-! ## Descents and chains of parents -/

section Chains

variable {root : Placed} {batch : List Placed}

/-- From what a descent reaches one comes back to the root. -/
theorem Descent.reaches
    {path : List Slot}
    {slot : Slot}
    (descent : Descent root batch path slot) :
    Reaches batch root.element.id slot.placed.element.id := by
  induction descent with
  | start => exact Reaches.arrived
  | @step path above next descent member inductionHypothesis =>
      obtain ⟨parent, rfl, inScan⟩ := exists_node_of_mem_below member
      cases next with
      | node placed =>
          obtain ⟨placedMember, -, first, under⟩ := node_mem_scan_iff.mp inScan
          exact Reaches.step placedMember first rfl under inductionHypothesis
      | leaf placed =>
          obtain ⟨-, isRootId, -⟩ := leaf_mem_scan_iff.mp inScan
          rw [Slot.placed, isRootId]
          exact Reaches.arrived

/-- An identifier from which one comes to the root is carried by a node that a descent
reaches. -/
theorem Reaches.exists_descent
    {id : String}
    (reaches : Reaches batch root.element.id id) :
    ∃ path placed, Descent root batch path (.node placed) ∧ placed.element.id = id := by
  induction reaches with
  | arrived => exact ⟨[], root, Descent.start, rfl⟩
  | @step placed id parent member first carries under reaches inductionHypothesis =>
      by_cases isRootId : id = root.element.id
      · exact ⟨[], root, Descent.start, isRootId.symm⟩
      · obtain ⟨path, above, descent, aboveId⟩ := inductionHypothesis
        have inScan : .node placed ∈ scan root batch above.element.id :=
          node_mem_scan_iff.mpr
            ⟨member, carries ▸ isRootId, first, under.trans (congrArg some aboveId.symm)⟩
        exact ⟨.node above :: path, placed, descent.step inScan, carries⟩

/-- Descents reach exactly the elements that get a node. -/
theorem exists_descent_iff_isRendered
    (rooted : Rooted root batch)
    {placed : Placed} :
    (∃ path slot, Descent root batch path slot ∧ slot.placed = placed) ↔
      placed ∈ batch ∧ placed.IsRendered root batch := by
  constructor
  · rintro ⟨path, slot, descent, rfl⟩
    refine ⟨descent.placed_mem rooted, ?_⟩
    cases slot with
    | node placed =>
        rcases descent.eq_root_or_isFirst with isRoot | ⟨-, notRootId, first⟩
        · exact Or.inl isRoot
        · exact Or.inr (Or.inr ⟨notRootId, first, descent.reaches⟩)
    | leaf placed =>
        cases descent with
        | step descent member =>
            obtain ⟨parent, -, inScan⟩ := Descent.exists_node_of_mem_below member
            obtain ⟨-, isRootId, notRoot, -⟩ := leaf_mem_scan_iff.mp inScan
            exact Or.inr (Or.inl ⟨notRoot, isRootId⟩)
  · rintro ⟨member, isRoot | ⟨notRoot, isRootId⟩ | ⟨notRootId, first, reaches⟩⟩
    · exact ⟨[], .node root, Descent.start, isRoot.symm⟩
    · have inScan : .leaf placed ∈ scan root batch root.element.id :=
        leaf_mem_scan_iff.mpr ⟨member, isRootId, notRoot, rfl⟩
      exact ⟨[.node root], .leaf placed, Descent.start.step inScan, rfl⟩
    · obtain ⟨path, reached, descent, sameId⟩ := reaches.exists_descent
      refine ⟨path, .node reached, descent, ?_⟩
      rcases descent.eq_root_or_isFirst with rfl | ⟨reachedMember, -, reachedFirst⟩
      · exact absurd sameId.symm notRootId
      · refine rooted.eq_of_position_eq reachedMember member (Nat.le_antisymm ?_ ?_)
        · exact reachedFirst placed member sameId.symm
        · exact first reached reachedMember sameId

end Chains

/-! ## The nodes of an outline -/

namespace Outline

variable {root : Placed} {batch : List Placed}

theorem nodesOf_eq_flatMap (outlines : List Outline) :
    nodesOf outlines = outlines.flatMap nodes := by
  induction outlines with
  | nil => rfl
  | cons outline rest inductionHypothesis =>
      rw [nodesOf, List.flatMap_cons, inductionHypothesis]

theorem nodes_grow_succ
    (rooted : Rooted root batch)
    (depth : Nat)
    (slot : Slot) :
    (grow (Filing.ofBatch root batch) (depth + 1) slot).nodes =
      slot.placed ::
        (slotsBelow root batch slot).flatMap fun next =>
          (grow (Filing.ofBatch root batch) depth next).nodes := by
  rw [grow_succ rooted, nodes, nodesOf_eq_flatMap, List.flatMap_map]

/-- The outline below the end of a descent shows what the longer descents end at. -/
theorem mem_nodes_grow_iff
    (rooted : Rooted root batch)
    {path : List Slot}
    {slot : Slot}
    {depth : Nat}
    (descent : Descent root batch path slot)
    (deep : batch.length ≤ depth + path.length)
    {placed : Placed} :
    placed ∈ (grow (Filing.ofBatch root batch) depth slot).nodes ↔
      ∃ rest last, Descent root batch rest last ∧
        (slot :: path) <:+ (last :: rest) ∧ last.placed = placed := by
  induction depth generalizing path slot with
  | zero =>
      have short := descent.length_le rooted
      omega
  | succ depth inductionHypothesis =>
      have deepBelow : batch.length ≤ depth + (slot :: path).length := by
        rw [List.length_cons]
        omega
      rw [nodes_grow_succ rooted, List.mem_cons, List.mem_flatMap]
      constructor
      · rintro (isSlot | ⟨next, member, inside⟩)
        · exact ⟨path, slot, descent, List.suffix_refl _, isSlot.symm⟩
        · obtain ⟨rest, last, longer, suffix, shown⟩ :=
            (inductionHypothesis (descent.step member) deepBelow).mp inside
          exact ⟨rest, last, longer, (List.suffix_cons _ _).trans suffix, shown⟩
      · rintro ⟨rest, last, longer, ⟨front, split⟩, shown⟩
        rcases List.eq_nil_or_concat front with rfl | ⟨higher, next, rfl⟩
        · obtain ⟨rfl, rfl⟩ := List.cons.inj split
          exact Or.inl shown.symm
        · rw [List.concat_append] at split
          have suffix : (next :: slot :: path) <:+ (last :: rest) := ⟨higher, split⟩
          cases longer.of_suffix suffix with
          | step descent member =>
              refine Or.inr ⟨next, member, ?_⟩
              exact (inductionHypothesis (descent.step member) deepBelow).mpr
                ⟨rest, last, longer, suffix, shown⟩

/-- A position that the outline below the end of a descent shows is the end of a longer
descent. -/
theorem exists_descent_of_mem_nodes_grow
    (rooted : Rooted root batch)
    {path : List Slot}
    {slot : Slot}
    {depth position : Nat}
    (descent : Descent root batch path slot)
    (deep : batch.length ≤ depth + path.length)
    (shown : position ∈
      (grow (Filing.ofBatch root batch) depth slot).nodes.map Placed.position) :
    ∃ rest last, Descent root batch rest last ∧
      (slot :: path) <:+ (last :: rest) ∧ last.placed.position = position := by
  obtain ⟨placed, inside, samePosition⟩ := List.mem_map.mp shown
  obtain ⟨rest, last, longer, suffix, rfl⟩ :=
    (mem_nodes_grow_iff rooted descent deep).mp inside
  exact ⟨rest, last, longer, suffix, samePosition⟩

/-- The outline below the end of a descent shows no position twice. -/
theorem nodup_nodes_grow
    (rooted : Rooted root batch)
    {path : List Slot}
    {slot : Slot}
    {depth : Nat}
    (descent : Descent root batch path slot)
    (deep : batch.length ≤ depth + path.length) :
    ((grow (Filing.ofBatch root batch) depth slot).nodes.map Placed.position).Nodup := by
  induction depth generalizing path slot with
  | zero =>
      have short := descent.length_le rooted
      omega
  | succ depth inductionHypothesis =>
      have deepBelow : batch.length ≤ depth + (slot :: path).length := by
        rw [List.length_cons]
        omega
      rw [nodes_grow_succ rooted, List.map_cons, List.map_flatMap]
      refine List.nodup_cons.mpr ⟨fun repeated => ?_, List.nodup_flatMap.mpr ⟨?_, ?_⟩⟩
      · obtain ⟨next, member, shown⟩ := List.mem_flatMap.mp repeated
        obtain ⟨rest, last, longer, suffix, same⟩ :=
          exists_descent_of_mem_nodes_grow rooted (descent.step member) deepBelow shown
        exact descent.position_ne_of_suffix rooted longer suffix same.symm
      · intro next member
        exact inductionHypothesis (descent.step member) deepBelow
      · refine (nodup_slotsBelow rooted slot).imp_of_mem ?_
        intro left right leftMember rightMember different position inLeft inRight
        obtain ⟨leftRest, leftLast, leftLonger, leftSuffix, leftPosition⟩ :=
          exists_descent_of_mem_nodes_grow rooted (descent.step leftMember) deepBelow inLeft
        obtain ⟨rightRest, rightLast, rightLonger, rightSuffix, rightPosition⟩ :=
          exists_descent_of_mem_nodes_grow rooted (descent.step rightMember) deepBelow inRight
        exact different (leftLonger.next_eq_of_suffix rooted rightLonger leftSuffix
          rightSuffix (leftPosition.trans rightPosition.symm))

mutual

/-- The tree of an outline shows the elements of its nodes. -/
theorem labels_toTree : ∀ outline : Outline,
    outline.toTree.labels = outline.nodes.map Placed.label
  | ⟨placed, children⟩ => by
      rw [toTree, Tree.labels, Tree.labelsOf_append, Tree.labelsOf_ownText,
        List.append_nil, labelsOf_toChildren children, nodes, List.map_cons, Placed.label]

/-- The nested nodes of a list of outlines show the elements of their nodes. -/
theorem labelsOf_toChildren : ∀ outlines : List Outline,
    Tree.labelsOf (toChildren outlines) = (nodesOf outlines).map Placed.label
  | [] => rfl
  | outline :: rest => by
      rw [toChildren, Tree.labelsOf, labels_toTree outline, labelsOf_toChildren rest,
        nodesOf, List.map_append]

end

end Outline

/-! ## Nesting a batch -/

theorem Outline.root?_eq_none_iff
    {elements : List Element} :
    root? elements = none ↔ ∀ element ∈ elements, element.isRootCandidate = false := by
  rw [root?, List.find?_eq_none]
  constructor
  · intro none element member
    rw [← map_element_place elements] at member
    obtain ⟨placed, placedMember, rfl⟩ := List.mem_map.mp member
    exact Bool.eq_false_iff.mpr (none placed placedMember)
  · intro none placed member
    refine Bool.eq_false_iff.mp (none placed.element ?_)
    exact List.mem_of_getElem? (mem_place_iff.mp member)

section OfRoot

variable {elements : List Element} {root : Placed} {outline : Outline}

/-- The outline of a batch shows the elements that get a node. -/
theorem Outline.mem_nodes_iff
    (found : root? elements = some root)
    (built : ofElements? elements = some outline)
    {placed : Placed} :
    placed ∈ outline.nodes ↔
      placed ∈ place elements ∧ placed.IsRendered root (place elements) := by
  have rooted := Rooted.of_root? found
  obtain rfl := Option.some.inj ((ofElements?_of_root? found).symm.trans built)
  rw [← length_place, mem_nodes_grow_iff rooted Descent.start (Nat.le_refl _),
    ← exists_descent_iff_isRendered rooted]
  constructor
  · rintro ⟨rest, last, descent, -, shown⟩
    exact ⟨rest, last, descent, shown⟩
  · rintro ⟨rest, last, descent, shown⟩
    exact ⟨rest, last, descent, descent.root_suffix, shown⟩

theorem Outline.nodup_nodes
    (found : root? elements = some root)
    (built : ofElements? elements = some outline) :
    (outline.nodes.map Placed.position).Nodup := by
  obtain rfl := Option.some.inj ((ofElements?_of_root? found).symm.trans built)
  rw [← length_place]
  exact nodup_nodes_grow (Rooted.of_root? found) Descent.start (Nat.le_refl _)

theorem Outline.length_nodes_le
    (found : root? elements = some root)
    (built : ofElements? elements = some outline) :
    outline.nodes.length ≤ elements.length := by
  have within : outline.nodes.map Placed.position ⊆ (place elements).map Placed.position := by
    intro position shown
    obtain ⟨placed, inside, rfl⟩ := List.mem_map.mp shown
    exact List.mem_map_of_mem ((mem_nodes_iff found built).mp inside).1
  simpa using (nodup_nodes found built).length_le_of_subset within

end OfRoot

/-- Nesting fails exactly when no element can be the root.  Otherwise the nodes of the
tree stand for exactly the elements that `Placed.IsRendered` describes around the first
candidate, and for each of them once; so there are no more nodes than elements. -/
theorem ofElements_renders_exactly_the_reachable (elements : List Element) :
    (∀ error, Tree.ofElements elements = .error error ↔
      error = .noRoot ∧ ∀ element ∈ elements, element.isRootCandidate = false) ∧
    ∀ root, Outline.root? elements = some root →
      ∃ outline,
        Outline.ofElements? elements = some outline ∧
        Tree.ofElements elements = .ok outline.toTree ∧
        outline.toTree.labels = outline.nodes.map Placed.label ∧
        (outline.nodes.map Placed.position).Nodup ∧
        (∀ placed, placed ∈ outline.nodes ↔
          placed ∈ Outline.place elements ∧
            placed.IsRendered root (Outline.place elements)) ∧
        outline.toTree.labels.length ≤ elements.length := by
  refine ⟨fun error => ?_, fun root found => ?_⟩
  · rw [← Outline.root?_eq_none_iff]
    cases found : Outline.root? elements with
    | none => simp [Tree.ofElements, Outline.ofElements?, found, eq_comm]
    | some root => simp [Tree.ofElements, Outline.ofElements?, found]
  · have built := Outline.ofElements?_of_root? found
    refine ⟨_, built, Tree.ofElements_of_ofElements? built, Outline.labels_toTree _,
      Outline.nodup_nodes found built, fun placed => Outline.mem_nodes_iff found built, ?_⟩
    rw [Outline.labels_toTree, List.length_map]
    exact Outline.length_nodes_le found built

/-- The tree of the tangled batch. -/
theorem ofElements_renders_tangledBatch :
    Outline.root? tangledBatch = some tangledRoot ∧
      ∃ outline,
        Outline.ofElements? tangledBatch = some outline ∧
        Tree.ofElements tangledBatch = .ok outline.toTree ∧
        outline.toTree.labels = outline.nodes.map Placed.label ∧
        (outline.nodes.map Placed.position).Nodup ∧
        (∀ placed, placed ∈ outline.nodes ↔
          placed ∈ Outline.place tangledBatch ∧
            placed.IsRendered tangledRoot (Outline.place tangledBatch)) ∧
        outline.toTree.labels.length ≤ tangledBatch.length := by
  have found : Outline.root? tangledBatch = some tangledRoot := rfl
  exact ⟨found, (ofElements_renders_exactly_the_reachable tangledBatch).2 tangledRoot found⟩

end Montage
