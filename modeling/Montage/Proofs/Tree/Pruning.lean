import Montage.Proofs.Tree.Reachability
import Montage.Proofs.Tree.Rescan

/-!
# Elements that make no difference

An element without a node in the tree makes no difference to it.  When all such elements are
taken out of a batch, the tree stays as it is (`Outline.shown`), although this may make other
elements the first ones with their identifiers and gives every element another position.  An
element that is put behind a batch and gets no node there, because its identifier is taken or
because nothing that may have children is its parent, makes no difference either
(`IsInert`).

Two batches have the same tree when their slots correspond, from the roots down
(`Tree.Corresponds`).  It is enough to look at the slots that descents reach.
-/

namespace Montage

namespace Tree

/-! ## Batches with one tree -/

/-- Related slots have the same element, and what is found below the one in its batch is
related, slot by slot, to what is found below the other one in the other batch. -/
structure Corresponds
    (root : Placed)
    (batch : List Placed)
    (otherRoot : Placed)
    (otherBatch : List Placed)
    (related : Slot → Slot → Prop) : Prop where
  /-- Related slots have the same element. -/
  element_eq : ∀ slot other, related slot other → other.placed.element = slot.placed.element
  /-- The slots below related slots are related. -/
  below : ∀ slot other, related slot other →
    List.Forall₂ related (slotsBelow root batch slot) (slotsBelow otherRoot otherBatch other)

section Corresponds

variable {root otherRoot : Placed} {batch otherBatch : List Placed}
  {related : Slot → Slot → Prop}

mutual

/-- A tree that shows a slot shows the related ones as well. -/
theorem Corresponds.renders
    (corresponds : Corresponds root batch otherRoot otherBatch related)
    {slot other : Slot}
    {tree : Tree} :
    Renders root batch slot tree → related slot other →
      Renders otherRoot otherBatch other tree
  | .node below, isRelated => by
      have shown := corresponds.rendersAll below (corresponds.below slot other isRelated)
      rw [← corresponds.element_eq slot other isRelated] at shown ⊢
      exact .node shown

/-- Children that show slots show the related ones as well. -/
theorem Corresponds.rendersAll
    (corresponds : Corresponds root batch otherRoot otherBatch related)
    {owner : Element}
    {slots others : List Slot}
    {children : List (Child Tree)} :
    RendersAll root batch owner slots children → List.Forall₂ related slots others →
      RendersAll otherRoot otherBatch owner others children
  | .noText absent, .nil => .noText absent
  | .text own, .nil => .text own
  | .node first later, .cons isRelated areRelated =>
      .node (corresponds.renders first isRelated) (corresponds.rendersAll later areRelated)

end

/-- What is not found below the slots that descents reach does not count. -/
theorem renders_of_scan_eq
    (sameBelow : ∀ path placed, Descent root batch path (.node placed) →
      scan root otherBatch placed.element.id = scan root batch placed.element.id)
    {tree : Tree}
    (renders : Renders root batch (.node root) tree) :
    Renders root otherBatch (.node root) tree := by
  have corresponds : Corresponds root batch root otherBatch fun slot other =>
      other = slot ∧ ∃ path, Descent root batch path slot := by
    refine ⟨?_, ?_⟩
    · rintro _ slot ⟨rfl, -⟩
      rfl
    · rintro _ slot ⟨rfl, path, descent⟩
      have same : slotsBelow root otherBatch slot = slotsBelow root batch slot := by
        cases slot with
        | node placed => exact sameBelow path placed descent
        | leaf placed => rfl
      rw [same, List.forall₂_same]
      exact fun next member => ⟨rfl, _, descent.step member⟩
  exact corresponds.renders renders ⟨rfl, [], Descent.start⟩

end Corresponds
end Tree

/-! ## Other positions -/

/-- The second batch has the elements of the first one in their order, at positions of its
own. -/
structure Renumbers (batch other : List Placed) : Prop where
  /-- The positions in the first batch ascend. -/
  ascending : batch.Pairwise fun earlier later => earlier.position < later.position
  /-- So do those in the second one. -/
  other_ascending : other.Pairwise fun earlier later => earlier.position < later.position
  /-- The elements are the same. -/
  elements_eq : batch.map Placed.element = other.map Placed.element

/-- The two are at one index of two batches. -/
def AreAligned
    (batch other : List Placed)
    (placed image : Placed) : Prop :=
  ∃ index : Nat, batch[index]? = some placed ∧ other[index]? = some image

/-- Two slots of one kind have the same element. -/
inductive Slot.Matches : Slot → Slot → Prop
  /-- Both are followed. -/
  | node
      {placed image : Placed}
      (same : image.element = placed.element) : Slot.Matches (.node placed) (.node image)
  /-- Both stay without children. -/
  | leaf
      {placed image : Placed}
      (same : image.element = placed.element) : Slot.Matches (.leaf placed) (.leaf image)

/-- Positions ascend with the indices. -/
theorem position_le_iff_le
    {batch : List Placed}
    (ascending : batch.Pairwise fun earlier later => earlier.position < later.position)
    {first last : Nat}
    {placed other : Placed}
    (here : batch[first]? = some placed)
    (there : batch[last]? = some other) :
    placed.position ≤ other.position ↔ first ≤ last := by
  obtain ⟨bound, rfl⟩ := List.getElem?_eq_some_iff.mp here
  obtain ⟨otherBound, rfl⟩ := List.getElem?_eq_some_iff.mp there
  have increasing := List.pairwise_iff_getElem.mp ascending
  constructor
  · intro inOrder
    by_contra after
    exact absurd (increasing last first otherBound bound (Nat.lt_of_not_le after))
      (Nat.not_lt.mpr inOrder)
  · intro inOrder
    rcases Nat.lt_or_eq_of_le inOrder with before | rfl
    · exact Nat.le_of_lt (increasing first last bound otherBound before)
    · exact Nat.le_refl _

namespace Renumbers

variable {batch other : List Placed} {placed image : Placed}

theorem symm
    (renumbers : Renumbers batch other) :
    Renumbers other batch :=
  ⟨renumbers.other_ascending, renumbers.ascending, renumbers.elements_eq.symm⟩

theorem exists_aligned
    (renumbers : Renumbers batch other)
    (member : placed ∈ batch) :
    ∃ image ∈ other, AreAligned batch other placed image := by
  have lengths := congrArg List.length renumbers.elements_eq
  rw [List.length_map, List.length_map] at lengths
  obtain ⟨index, bound, rfl⟩ := List.getElem_of_mem member
  exact ⟨other[index], List.getElem_mem _, index, List.getElem?_eq_getElem bound,
    List.getElem?_eq_getElem _⟩

theorem forall₂_areAligned
    (renumbers : Renumbers batch other) :
    List.Forall₂ (AreAligned batch other) batch other := by
  have lengths := congrArg List.length renumbers.elements_eq
  rw [List.length_map, List.length_map] at lengths
  refine List.forall₂_iff_get.mpr ⟨lengths, fun index bound otherBound => ?_⟩
  exact ⟨index, List.getElem?_eq_getElem bound, List.getElem?_eq_getElem otherBound⟩

theorem element_eq
    (renumbers : Renumbers batch other)
    (aligned : AreAligned batch other placed image) :
    image.element = placed.element := by
  obtain ⟨index, here, there⟩ := aligned
  have same := congrArg (fun elements => elements[index]?) renumbers.elements_eq
  simp only [List.getElem?_map, here, there, Option.map_some, Option.some.injEq] at same
  exact same.symm

/-- Renumbering keeps the order of positions. -/
theorem position_le_iff
    (renumbers : Renumbers batch other)
    {placed image earlier earlierImage : Placed}
    (aligned : AreAligned batch other placed image)
    (earlierAligned : AreAligned batch other earlier earlierImage) :
    placed.position ≤ earlier.position ↔ image.position ≤ earlierImage.position := by
  obtain ⟨index, here, there⟩ := aligned
  obtain ⟨earlierIndex, earlierHere, earlierThere⟩ := earlierAligned
  rw [position_le_iff_le renumbers.ascending here earlierHere,
    position_le_iff_le renumbers.other_ascending there earlierThere]

theorem position_eq_iff
    (renumbers : Renumbers batch other)
    {root rootImage : Placed}
    (aligned : AreAligned batch other placed image)
    (rootAligned : AreAligned batch other root rootImage) :
    placed.position = root.position ↔ image.position = rootImage.position := by
  rw [Nat.le_antisymm_iff, Nat.le_antisymm_iff,
    renumbers.position_le_iff aligned rootAligned,
    renumbers.position_le_iff rootAligned aligned]

theorem isFirst_of_isFirst
    (renumbers : Renumbers batch other)
    (aligned : AreAligned batch other placed image)
    (isFirst : placed.IsFirst batch) :
    image.IsFirst other := by
  intro earlierImage member sameId
  obtain ⟨earlier, earlierMember, index, there, here⟩ := renumbers.symm.exists_aligned member
  have earlierAligned : AreAligned batch other earlier earlierImage := ⟨index, here, there⟩
  rw [renumbers.element_eq aligned, renumbers.element_eq earlierAligned] at sameId
  exact (renumbers.position_le_iff aligned earlierAligned).mp
    (isFirst earlier earlierMember sameId)

theorem isFirst_iff
    (renumbers : Renumbers batch other)
    (aligned : AreAligned batch other placed image) :
    placed.IsFirst batch ↔ image.IsFirst other := by
  obtain ⟨index, here, there⟩ := aligned
  exact ⟨renumbers.isFirst_of_isFirst ⟨index, here, there⟩,
    renumbers.symm.isFirst_of_isFirst ⟨index, there, here⟩⟩

section Slots

variable {root rootImage : Placed}

theorem slotUnder?_matches
    (renumbers : Renumbers batch other)
    (rootAligned : AreAligned batch other root rootImage)
    (id : String)
    (aligned : AreAligned batch other placed image) :
    Option.Rel Slot.Matches (slotUnder? root batch id placed)
      (slotUnder? rootImage other id image) := by
  have same := renumbers.element_eq aligned
  have sameRoot := renumbers.element_eq rootAligned
  have atRoot := renumbers.position_eq_iff aligned rootAligned
  have first := renumbers.isFirst_iff aligned
  simp only [slotUnder?, same, sameRoot, ne_eq, ← atRoot, ← first]
  split
  · split
    · exact .some (.leaf same)
    · exact .none
  · split
    · exact .some (.node same)
    · exact .none

theorem scan_matches
    (renumbers : Renumbers batch other)
    (rootAligned : AreAligned batch other root rootImage)
    (id : String) :
    List.Forall₂ Slot.Matches (scan root batch id) (scan rootImage other id) :=
  List.rel_filterMap
    (fun _ _ aligned => renumbers.slotUnder?_matches rootAligned id aligned)
    renumbers.forall₂_areAligned

theorem corresponds
    (renumbers : Renumbers batch other)
    (rootAligned : AreAligned batch other root rootImage) :
    Tree.Corresponds root batch rootImage other Slot.Matches where
  element_eq slot image matched := by
    cases matched with
    | node same => exact same
    | leaf same => exact same
  below slot image matched := by
    cases matched with
    | node same =>
        simp only [slotsBelow, same]
        exact renumbers.scan_matches rootAligned _
    | leaf same => exact .nil

end Slots

end Renumbers

/-- The positions of a batch in order do not matter for its tree. -/
theorem Tree.ofElements_map_element
    {root : Placed}
    {batch : List Placed}
    (ascending : batch.Pairwise fun earlier later => earlier.position < later.position)
    (found : batch.find? (fun placed => placed.element.isRootCandidate) = some root)
    {tree : Tree}
    (renders : tree.Renders root batch (.node root)) :
    Tree.ofElements (batch.map Placed.element) = .ok tree := by
  obtain ⟨candidate, index, bound, rfl, earlier⟩ := List.find?_eq_some_iff_getElem.mp found
  have foundImage : Outline.root? (batch.map Placed.element) =
      some ⟨index, batch[index].element⟩ := by
    rw [Outline.root?, List.find?_eq_some_iff_getElem]
    refine ⟨candidate, index, by simpa using bound, ?_, fun before less => ?_⟩
    · simp [Outline.place]
    · simpa [Outline.place] using earlier before less
  have renumbers : Renumbers batch (Outline.place (batch.map Placed.element)) :=
    ⟨ascending, (Rooted.of_root? foundImage).ascending,
      (Outline.map_element_place _).symm⟩
  have aligned : AreAligned batch (Outline.place (batch.map Placed.element)) batch[index]
      ⟨index, batch[index].element⟩ :=
    ⟨index, List.getElem?_eq_getElem bound,
      by simp [Outline.place, List.getElem?_eq_getElem bound]⟩
  exact Tree.ofElements_eq_ok_of_renders foundImage
    ((renumbers.corresponds aligned).renders renders (.node rfl))

/-! ## Taking out what is not shown -/

namespace Outline

/-- The elements of a batch that have a node in its outline, in the order of the batch. -/
def shown
    (outline : Outline)
    (elements : List Element) : List Element :=
  ((place elements).filter fun placed =>
    placed.position ∈ outline.nodes.map Placed.position).map Placed.element

end Outline

section Shown

variable {root : Placed} {batch : List Placed} {keep : Placed → Bool}

/-- Below the slots that descents reach, nothing is missing when the elements that get a node
are kept, and nothing is added when no other ones are. -/
theorem scan_filter_of_isRendered
    (rooted : Rooted root batch)
    (keeps : ∀ placed ∈ batch, keep placed = true ↔ placed.IsRendered root batch)
    {path : List Slot}
    {above : Placed}
    (descent : Descent root batch path (.node above)) :
    scan root (batch.filter keep) above.element.id = scan root batch above.element.id := by
  rw [scan, List.filterMap_filter, scan]
  refine List.filterMap_congr fun placed member => ?_
  cases kept : keep placed with
  | true =>
      rw [if_pos rfl]
      refine slotUnder?_congr fun notRootId => ?_
      -- What is kept was the first element with its identifier, and still is.
      have first : placed.IsFirst batch := by
        rcases (keeps placed member).mp kept with rfl | ⟨-, isRootId⟩ | ⟨-, first, -⟩
        · exact absurd rfl notRootId
        · exact absurd isRootId notRootId
        · exact first
      exact iff_of_true (fun other otherMember => first other (List.mem_of_mem_filter otherMember))
        first
  | false =>
      rw [if_neg Bool.false_ne_true]
      cases taken : slotUnder? root batch above.element.id placed with
      | none => rfl
      | some slot =>
          -- A slot here would be reached, and so its element would have been kept.
          have inScan : slot ∈ slotsBelow root batch (.node above) :=
            List.mem_filterMap.mpr ⟨placed, member, taken⟩
          have rendered := (exists_descent_iff_isRendered rooted).mp
            ⟨_, slot, descent.step inScan, placed_eq_of_slotUnder? taken⟩
          rw [(keeps placed member).mpr rendered.2] at kept
          cases kept

/-- Keeping the elements that get a node keeps the tree. -/
theorem Tree.ofElements_map_filter
    (rooted : Rooted root batch)
    (found : batch.find? (fun placed => placed.element.isRootCandidate) = some root)
    (keeps : ∀ placed ∈ batch, keep placed = true ↔ placed.IsRendered root batch)
    {tree : Tree}
    (renders : tree.Renders root batch (.node root)) :
    Tree.ofElements ((batch.filter keep).map Placed.element) = .ok tree := by
  have rootKept : keep root = true := (keeps root rooted.root_mem).mpr (Or.inl rfl)
  refine Tree.ofElements_map_element (rooted.ascending.filter _) ?_
    (Tree.renders_of_scan_eq
      (fun _ _ descent => scan_filter_of_isRendered rooted keeps descent) renders)
  rw [List.find?_filter]
  obtain ⟨candidate, front, back, rfl, earlier⟩ := List.find?_eq_some_iff_append.mp found
  refine List.find?_eq_some_iff_append.mpr
    ⟨by simp [rootKept, candidate], front, back, rfl, fun placed member => ?_⟩
  have notCandidate : placed.element.isRootCandidate = false := by
    simpa using earlier placed member
  simp [notCandidate]

end Shown

section OfRoot

variable {elements : List Element} {root : Placed} {outline : Outline}

theorem Outline.position_mem_nodes_iff
    (found : root? elements = some root)
    (built : ofElements? elements = some outline)
    {placed : Placed}
    (member : placed ∈ place elements) :
    placed.position ∈ outline.nodes.map Placed.position ↔
      placed.IsRendered root (place elements) := by
  rw [List.mem_map]
  constructor
  · rintro ⟨node, shown, same⟩
    obtain ⟨nodeMember, rendered⟩ := (mem_nodes_iff found built).mp shown
    rwa [← (Rooted.of_root? found).eq_of_position_eq nodeMember member same]
  · intro rendered
    exact ⟨placed, (mem_nodes_iff found built).mpr ⟨member, rendered⟩, rfl⟩

theorem Tree.ofElements_shown
    (found : Outline.root? elements = some root)
    (built : Outline.ofElements? elements = some outline)
    {tree : Tree}
    (renders : tree.Renders root (Outline.place elements) (.node root)) :
    Tree.ofElements (outline.shown elements) = .ok tree :=
  Tree.ofElements_map_filter (Rooted.of_root? found) found
    (fun placed member => by
      rw [decide_eq_true_iff, Outline.position_mem_nodes_iff found built member])
    renders

end OfRoot

/-! ## Putting an element behind a batch -/

/-- The element carries the identifier of the root without being the root. -/
def Placed.ReusesRoot (placed root : Placed) : Prop :=
  placed.position ≠ root.position ∧ placed.element.id = root.element.id

/-- Behind a batch, the element gets no node. -/
inductive IsInert
    (root : Placed)
    (outline : Outline)
    (elements : List Element)
    (element : Element) : Prop
  /-- Its identifier is taken, and not by the root. -/
  | taken (held : Element) :
      held ∈ elements →
      held.id = element.id →
      element.id ≠ root.element.id →
      IsInert root outline elements element
  /-- Its identifier is new, and if it has a parent at all, that is no node which may have
  children. -/
  | apart :
      (∀ held ∈ elements, held.id ≠ element.id) →
      (∀ parent, element.parent = some parent → ∀ placed ∈ outline.nodes,
        ¬ placed.ReusesRoot root → placed.element.id ≠ parent) →
      IsInert root outline elements element

section Behind

variable {elements : List Element} {root : Placed} {outline : Outline} {element : Element}

theorem Outline.place_concat (elements : List Element) (element : Element) :
    place (elements ++ [element]) = place elements ++ [⟨elements.length, element⟩] := by
  simp [place, List.zipIdx_append]

theorem Outline.root?_concat
    (found : root? elements = some root)
    (element : Element) :
    root? (elements ++ [element]) = some root := by
  rw [root?] at found ⊢
  rw [place_concat, List.find?_append, found, Option.some_or]

theorem Outline.position_lt_length
    {placed : Placed}
    (member : placed ∈ place elements) :
    placed.position < elements.length :=
  (List.getElem?_eq_some_iff.mp (mem_place_iff.mp member)).1

/-- Below no slot that a descent reaches there is a slot for the element. -/
theorem IsInert.slotUnder?_eq_none
    (inert : IsInert root outline elements element)
    (found : Outline.root? elements = some root)
    (built : Outline.ofElements? elements = some outline)
    {path : List Slot}
    {above : Placed}
    (descent : Descent root (Outline.place elements) path (.node above)) :
    slotUnder? root (Outline.place elements ++ [⟨elements.length, element⟩]) above.element.id
      ⟨elements.length, element⟩ = none := by
  have rooted := Rooted.of_root? found
  have later : ∀ placed ∈ Outline.place elements, placed.position < elements.length :=
    fun _ member => Outline.position_lt_length member
  rw [Option.eq_none_iff_forall_ne_some]
  intro slot taken
  rcases slotUnder?_eq_some_iff.mp taken with ⟨isRootId, -, -⟩ | ⟨-, ⟨first, under⟩, -⟩
  · cases inert with
    | taken _ _ _ notRootId => exact notRootId isRootId
    | apart new _ =>
        have rootMember := List.mem_of_getElem? (Outline.mem_place_iff.mp rooted.root_mem)
        exact new root.element rootMember isRootId.symm
  · have new := (Filing.isFirst_append_self_iff later).mp first
    cases inert with
    | taken held member sameId _ =>
        obtain ⟨index, bound, rfl⟩ := List.getElem_of_mem member
        have isPlaced : ⟨index, elements[index]⟩ ∈ Outline.place elements :=
          Outline.mem_place_iff.mpr (List.getElem?_eq_getElem bound)
        exact new _ isPlaced sameId
    | apart _ noParent =>
        have shown : above ∈ outline.nodes :=
          (Outline.mem_nodes_iff found built).mpr
            ((exists_descent_iff_isRendered rooted).mp ⟨path, _, descent, rfl⟩)
        refine noParent _ under above shown (fun reuses => ?_) rfl
        rcases descent.eq_root_or_isFirst with rfl | ⟨-, notRootId, -⟩
        · exact reuses.1 rfl
        · exact notRootId reuses.2

theorem Tree.ofElements_concat_of_isInert
    (found : Outline.root? elements = some root)
    (built : Outline.ofElements? elements = some outline)
    (inert : IsInert root outline elements element)
    {tree : Tree}
    (renders : tree.Renders root (Outline.place elements) (.node root)) :
    Tree.ofElements (elements ++ [element]) = .ok tree := by
  refine Tree.ofElements_eq_ok_of_renders (Outline.root?_concat found element) ?_
  rw [Outline.place_concat]
  refine Tree.renders_of_scan_eq (fun path above descent => ?_) renders
  rw [Filing.scan_append fun _ member => Outline.position_lt_length member,
    inert.slotUnder?_eq_none found built descent]
  simp

/-- A batch with a root keeps its tree when exactly the elements are kept that have a node in
it.  It keeps its tree as well when an element is put behind it whose identifier is taken, but
not by the root, or whose identifier is new and whose parent is missing or is no node which may
have children. -/
theorem ofElements_shown_and_concat
    (found : Outline.root? elements = some root) :
    ∃ outline, Outline.ofElements? elements = some outline ∧
      Tree.ofElements elements = .ok outline.toTree ∧
      Tree.ofElements (outline.shown elements) = .ok outline.toTree ∧
      ∀ element, IsInert root outline elements element →
        Tree.ofElements (elements ++ [element]) = .ok outline.toTree := by
  have built := Outline.ofElements?_of_root? found
  have nested := Tree.ofElements_of_ofElements? built
  have renders := ((Tree.ofElements_eq_ok_iff_renders found).2 _).mp nested
  exact ⟨_, built, nested, Tree.ofElements_shown found built renders,
    fun _ inert => Tree.ofElements_concat_of_isInert found built inert renders⟩

end Behind

/-- A batch whose first element is under no parent and keeps another element with its
identifier from being shown. -/
def shadowedBatch : List Element :=
  [ ⟨"note", "div", some "nowhere", [], none⟩,
    ⟨"top", "AbsoluteFill", none, [], none⟩,
    ⟨"note", "p", some "top", [], some "hidden"⟩,
    ⟨"item", "li", some "top", [], none⟩,
    ⟨"part", "b", some "note", [], none⟩ ]

/-- The root of `shadowedBatch`. -/
def shadowedRoot : Placed :=
  ⟨1, ⟨"top", "AbsoluteFill", none, [], none⟩⟩

theorem ofElements_shown_and_concat_shadowedBatch :
    Outline.root? shadowedBatch = some shadowedRoot ∧
      ∃ outline, Outline.ofElements? shadowedBatch = some outline ∧
        outline.shown shadowedBatch =
          [⟨"top", "AbsoluteFill", none, [], none⟩, ⟨"item", "li", some "top", [], none⟩] ∧
        IsInert shadowedRoot outline shadowedBatch ⟨"note", "h1", some "top", [], none⟩ ∧
        IsInert shadowedRoot outline shadowedBatch ⟨"root", "h2", some "part", [], none⟩ ∧
        Tree.ofElements shadowedBatch = .ok outline.toTree ∧
        Tree.ofElements (outline.shown shadowedBatch) = .ok outline.toTree ∧
        Tree.ofElements (shadowedBatch ++ [⟨"note", "h1", some "top", [], none⟩]) =
          .ok outline.toTree ∧
        Tree.ofElements (shadowedBatch ++ [⟨"root", "h2", some "part", [], none⟩]) =
          .ok outline.toTree := by
  have found : Outline.root? shadowedBatch = some shadowedRoot := rfl
  obtain ⟨outline, built, nested, pruned, behind⟩ := ofElements_shown_and_concat found
  have ids : outline.nodes.map (fun placed => placed.element.id) = ["top", "item"] := by
    cases built
    rfl
  have shown : outline.shown shadowedBatch =
      [⟨"top", "AbsoluteFill", none, [], none⟩, ⟨"item", "li", some "top", [], none⟩] := by
    cases built
    rfl
  have taken : IsInert shadowedRoot outline shadowedBatch ⟨"note", "h1", some "top", [], none⟩ :=
    .taken _ List.mem_cons_self rfl (by decide)
  have apart :
      IsInert shadowedRoot outline shadowedBatch ⟨"root", "h2", some "part", [], none⟩ := by
    refine .apart (by decide) fun parent isParent placed member _ isId => ?_
    cases isParent
    have isShown : "part" ∈ outline.nodes.map fun placed => placed.element.id :=
      List.mem_map.mpr ⟨placed, member, isId⟩
    rw [ids] at isShown
    exact absurd isShown (by decide)
  exact ⟨found, outline, built, shown, taken, apart, nested, pruned, behind _ taken,
    behind _ apart⟩

/-- Without the first element alone, the third one would be shown. -/
example :
    ((Outline.ofElements? shadowedBatch.tail).map fun outline =>
      outline.nodes.map fun placed => placed.element.id) = some ["top", "note", "part", "item"] :=
  rfl

end Montage
