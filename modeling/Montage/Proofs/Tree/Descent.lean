import Montage.Proofs.Tree.Filing

/-!
# Ways down from the root

A descent follows slots from the root downward.  Every slot other than the root is
below exactly one slot that a descent can reach, so a descent is determined by the
position at which it ends (`Descent.unique`).  Hence no descent meets a position twice,
and none has more slots than the batch has elements (`Descent.length_le`), so that the
depth to which outlines are grown cuts nothing off.
-/

namespace Montage

/-- The slots directly below a slot. -/
def slotsBelow
    (root : Placed)
    (batch : List Placed) : Slot → List Slot
  | .node placed => scan root batch placed.element.id
  | .leaf _ => []

/-- The slots in `path`, the lowest first, lead from the root down to a slot. -/
inductive Descent
    (root : Placed)
    (batch : List Placed) : List Slot → Slot → Prop where
  /-- The root is reached without a step. -/
  | start : Descent root batch [] (.node root)
  /-- From a slot that is reached one step leads to each slot below it. -/
  | step
      {path : List Slot}
      {above next : Slot}
      (descent : Descent root batch path above)
      (member : next ∈ slotsBelow root batch above) :
      Descent root batch (above :: path) next

theorem nodup_slotsBelow
    {root : Placed}
    {batch : List Placed}
    (rooted : Rooted root batch)
    (slot : Slot) :
    (slotsBelow root batch slot).Nodup := by
  cases slot with
  | node placed =>
      refine (pairwise_scan rooted.ascending).imp ?_
      rintro earlier _ before rfl
      exact Nat.lt_irrefl _ before
  | leaf placed => exact List.nodup_nil

namespace Descent

variable {root : Placed} {batch : List Placed}

theorem exists_node_of_mem_below
    {above next : Slot}
    (member : next ∈ slotsBelow root batch above) :
    ∃ placed, above = .node placed ∧ next ∈ scan root batch placed.element.id := by
  cases above with
  | node placed => exact ⟨placed, rfl, member⟩
  | leaf placed => exact absurd member List.not_mem_nil

/-- Only elements of the batch are reached. -/
theorem placed_mem
    (rooted : Rooted root batch)
    {path : List Slot}
    {slot : Slot}
    (descent : Descent root batch path slot) :
    slot.placed ∈ batch := by
  cases descent with
  | start => exact rooted.root_mem
  | step descent member =>
      obtain ⟨above, -, inScan⟩ := exists_node_of_mem_below member
      exact placed_mem_of_mem_scan inScan

/-- The root is below nothing. -/
theorem position_ne_root
    (rooted : Rooted root batch)
    {above next : Slot}
    (member : next ∈ slotsBelow root batch above) :
    next.placed.position ≠ root.position := by
  obtain ⟨parent, -, inScan⟩ := exists_node_of_mem_below member
  exact position_ne_of_mem_scan rooted inScan

/-- A node that is reached is the root, or the first element with an identifier other
than the root's. -/
theorem eq_root_or_isFirst
    {path : List Slot}
    {placed : Placed}
    (descent : Descent root batch path (.node placed)) :
    placed = root ∨
      placed ∈ batch ∧ placed.element.id ≠ root.element.id ∧ placed.IsFirst batch := by
  cases descent with
  | start => exact Or.inl rfl
  | step descent member =>
      obtain ⟨parent, -, inScan⟩ := exists_node_of_mem_below member
      obtain ⟨placedMember, notRootId, first, -⟩ := node_mem_scan_iff.mp inScan
      exact Or.inr ⟨placedMember, notRootId, first⟩

/-- Of the nodes that are reached no two share an identifier. -/
theorem eq_of_id_eq
    (rooted : Rooted root batch)
    {leftPath rightPath : List Slot}
    {left right : Placed}
    (leftDescent : Descent root batch leftPath (.node left))
    (rightDescent : Descent root batch rightPath (.node right))
    (sameId : left.element.id = right.element.id) :
    left = right := by
  rcases leftDescent.eq_root_or_isFirst with rfl | ⟨leftMember, leftNotRootId, leftFirst⟩
  · rcases rightDescent.eq_root_or_isFirst with rfl | ⟨-, rightNotRootId, -⟩
    · rfl
    · exact absurd sameId.symm rightNotRootId
  · rcases rightDescent.eq_root_or_isFirst with rfl | ⟨rightMember, -, rightFirst⟩
    · exact absurd sameId leftNotRootId
    · refine rooted.eq_of_position_eq leftMember rightMember (Nat.le_antisymm ?_ ?_)
      · exact leftFirst right rightMember sameId.symm
      · exact rightFirst left leftMember sameId

/-- A position is filed once, and below one of the slots that are reached. -/
theorem eq_of_mem_below
    (rooted : Rooted root batch)
    {leftPath rightPath : List Slot}
    {leftAbove rightAbove left right : Slot}
    (leftDescent : Descent root batch leftPath leftAbove)
    (rightDescent : Descent root batch rightPath rightAbove)
    (leftMember : left ∈ slotsBelow root batch leftAbove)
    (rightMember : right ∈ slotsBelow root batch rightAbove)
    (same : left.placed.position = right.placed.position) :
    left = right ∧ leftAbove = rightAbove := by
  obtain ⟨leftParent, rfl, leftInScan⟩ := exists_node_of_mem_below leftMember
  obtain ⟨rightParent, rfl, rightInScan⟩ := exists_node_of_mem_below rightMember
  obtain ⟨sameSlot, sameId⟩ := eq_of_mem_scan rooted leftInScan rightInScan same
  exact ⟨sameSlot, congrArg Slot.node (eq_of_id_eq rooted leftDescent rightDescent sameId)⟩

/-- A descent is determined by the position at which it ends. -/
theorem unique
    (rooted : Rooted root batch)
    {leftPath rightPath : List Slot}
    {left right : Slot}
    (leftDescent : Descent root batch leftPath left)
    (rightDescent : Descent root batch rightPath right)
    (same : left.placed.position = right.placed.position) :
    left :: leftPath = right :: rightPath := by
  induction leftDescent generalizing rightPath right with
  | start =>
      cases rightDescent with
      | start => rfl
      | step rightDescent rightMember =>
          exact absurd same.symm (position_ne_root rooted rightMember)
  | step leftDescent leftMember inductionHypothesis =>
      cases rightDescent with
      | start => exact absurd same (position_ne_root rooted leftMember)
      | step rightDescent rightMember =>
          obtain ⟨sameSlot, sameAbove⟩ :=
            eq_of_mem_below rooted leftDescent rightDescent leftMember rightMember same
          rw [sameSlot, inductionHypothesis rightDescent
            (congrArg (fun slot => slot.placed.position) sameAbove)]

/-- What lies on a descent is reached by the part of it above. -/
theorem of_suffix
    {path rest : List Slot}
    {slot last : Slot}
    (descent : Descent root batch path slot)
    (suffix : (last :: rest) <:+ (slot :: path)) :
    Descent root batch rest last := by
  induction descent with
  | start =>
      rcases List.suffix_cons_iff.mp suffix with whole | short
      · obtain ⟨rfl, rfl⟩ := List.cons.inj whole
        exact Descent.start
      · exact absurd (List.suffix_nil.mp short) (List.cons_ne_nil _ _)
  | step descent member inductionHypothesis =>
      rcases List.suffix_cons_iff.mp suffix with whole | short
      · obtain ⟨rfl, rfl⟩ := List.cons.inj whole
        exact descent.step member
      · exact inductionHypothesis short

theorem root_suffix
    {path : List Slot}
    {slot : Slot}
    (descent : Descent root batch path slot) :
    [Slot.node root] <:+ (slot :: path) := by
  induction descent with
  | start => exact List.suffix_refl _
  | step descent member inductionHypothesis =>
      exact inductionHypothesis.trans (List.suffix_cons _ _)

/-- A position at which one descent ends is not met by a longer one that passes through
the same slot. -/
theorem position_ne_of_suffix
    (rooted : Rooted root batch)
    {path rest : List Slot}
    {slot next last : Slot}
    (descent : Descent root batch path slot)
    (longer : Descent root batch rest last)
    (suffix : (next :: slot :: path) <:+ (last :: rest)) :
    slot.placed.position ≠ last.placed.position := by
  intro same
  rw [← unique rooted descent longer same] at suffix
  exact absurd suffix.length_le (Nat.not_succ_le_self _)

/-- Descents that pass through one slot and end at one position go on from there to the
same slot. -/
theorem next_eq_of_suffix
    (rooted : Rooted root batch)
    {path leftRest rightRest : List Slot}
    {left right leftLast rightLast : Slot}
    (leftLonger : Descent root batch leftRest leftLast)
    (rightLonger : Descent root batch rightRest rightLast)
    (leftSuffix : (left :: path) <:+ (leftLast :: leftRest))
    (rightSuffix : (right :: path) <:+ (rightLast :: rightRest))
    (same : leftLast.placed.position = rightLast.placed.position) :
    left = right := by
  rw [leftLonger.unique rooted rightLonger same] at leftSuffix
  have nested := List.suffix_of_suffix_length_le leftSuffix rightSuffix (Nat.le_refl _)
  exact (List.cons.inj (nested.eq_of_length rfl)).1

/-- No descent meets a position twice. -/
theorem nodup_positions
    (rooted : Rooted root batch)
    {path : List Slot}
    {slot : Slot}
    (descent : Descent root batch path slot) :
    ((slot :: path).map fun slot => slot.placed.position).Nodup := by
  induction descent with
  | start => exact List.nodup_singleton _
  | @step path above next descent member inductionHypothesis =>
      rw [List.map_cons]
      refine List.nodup_cons.mpr ⟨fun repeated => ?_, inductionHypothesis⟩
      obtain ⟨earlier, earlierMember, same⟩ := List.mem_map.mp repeated
      obtain ⟨front, rest, split⟩ := List.append_of_mem earlierMember
      have suffix : (earlier :: rest) <:+ (above :: path) := ⟨front, split.symm⟩
      have whole := unique rooted (descent.of_suffix suffix) (descent.step member) same
      rw [(List.cons.inj whole).2] at suffix
      exact absurd suffix.length_le (Nat.not_succ_le_self _)

/-- A descent has at most as many slots as the batch has elements. -/
theorem length_le
    (rooted : Rooted root batch)
    {path : List Slot}
    {slot : Slot}
    (descent : Descent root batch path slot) :
    path.length + 1 ≤ batch.length := by
  have within : (slot :: path).map (fun slot => slot.placed.position) ⊆
      batch.map Placed.position := by
    intro position member
    obtain ⟨met, metMember, rfl⟩ := List.mem_map.mp member
    obtain ⟨front, rest, split⟩ := List.append_of_mem metMember
    exact List.mem_map_of_mem (placed_mem rooted (descent.of_suffix ⟨front, split.symm⟩))
  simpa using (nodup_positions rooted descent).length_le_of_subset within

end Descent

namespace Outline

variable {root : Placed} {batch : List Placed}

/-- An outline that is grown further has everything below its slot below it. -/
theorem grow_succ
    (rooted : Rooted root batch)
    (depth : Nat)
    (slot : Slot) :
    grow (Filing.ofBatch root batch) (depth + 1) slot =
      ⟨slot.placed,
        (slotsBelow root batch slot).map (grow (Filing.ofBatch root batch) depth)⟩ := by
  cases slot with
  | node placed => rw [grow, Filing.slotsUnder_ofBatch rooted, slotsBelow, Slot.placed]
  | leaf placed => rw [grow, slotsBelow, List.map_nil, Slot.placed]

end Outline
end Montage
