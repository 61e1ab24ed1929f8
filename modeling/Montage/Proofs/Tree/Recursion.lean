import Montage.Proofs.Element.Batches
import Montage.Proofs.Tree.Reachability

/-!
# The recursion from the root ends

An outline is grown to the depth of its batch, but nothing asks the recursion itself to
stop: it follows the slots of a filing wherever they lead, and it remembers no slot that it
has come through.  `Filing.Builds` is this recursion without a limit.  Elements may be their
own parents, one another's parents, or carry an identifier that closes a circle.  Even so the
ways that can be followed from the root meet no position twice, so that the recursion ends,
is never nested deeper than the batch is long, and makes the outline of the batch.
-/

namespace Montage

namespace Outline

mutual

/-- The number of nodes on the longest way down. -/
def height : Outline → Nat
  | ⟨_, children⟩ => heightOf children + 1

/-- The greatest height in a list of outlines. -/
def heightOf : List Outline → Nat
  | [] => 0
  | outline :: rest => max (height outline) (heightOf rest)

end

theorem heightOf_le_iff
    {outlines : List Outline}
    {bound : Nat} :
    heightOf outlines ≤ bound ↔ ∀ outline ∈ outlines, outline.height ≤ bound := by
  induction outlines with
  | nil => simp [heightOf]
  | cons outline rest inductionHypothesis =>
      rw [heightOf, Nat.max_le, inductionHypothesis, List.forall_mem_cons]

end Outline

namespace Filing

/-- The slots that the recursion goes on to from a slot. -/
def followed (filing : Filing) : Slot → List Slot
  | .node placed => filing.slotsUnder placed.element.id
  | .leaf _ => []

/-- The recursion goes on to one slot from another one. -/
def GoesOn
    (filing : Filing)
    (next above : Slot) : Prop :=
  next ∈ filing.followed above

/-- A row of slots through which the recursion goes, the highest first. -/
def IsWay
    (filing : Filing)
    (slots : List Slot) : Prop :=
  slots.IsChain fun above next => filing.GoesOn next above

/-- The recursion without a limit to its depth: it makes of a slot the element there, with
whatever it makes of the slots that it goes on to.  It ends when there is a derivation. -/
inductive Builds (filing : Filing) : Slot → Outline → Prop where
  | slot
      {slot : Slot}
      {children : List Outline}
      (below : List.Forall₂ (Builds filing) (filing.followed slot) children) :
      Builds filing slot ⟨slot.placed, children⟩

/-- The recursion from a slot ends, and it makes an outline of the slot. -/
structure EndsWith
    (filing : Filing)
    (start : Slot)
    (limit : Nat)
    (outline : Outline) : Prop where
  /-- No way from the slot comes to a position twice. -/
  nodup_of_isWay : ∀ way, filing.IsWay (start :: way) →
    ((start :: way).map fun slot => slot.placed.position).Nodup
  /-- The ways from the slot are not longer than the limit. -/
  length_le_of_isWay : ∀ way, filing.IsWay (start :: way) → (start :: way).length ≤ limit
  /-- There is no way that goes on without end. -/
  acc : Acc filing.GoesOn start
  /-- The recursion makes the outline and nothing else. -/
  builds_iff : ∀ made, filing.Builds start made ↔ made = outline
  /-- It is not nested deeper than the limit. -/
  height_le : outline.height ≤ limit

theorem followed_ofBatch
    {root : Placed}
    {batch : List Placed}
    (rooted : Rooted root batch)
    (slot : Slot) :
    (ofBatch root batch).followed slot = slotsBelow root batch slot := by
  cases slot with
  | node placed => exact slotsUnder_ofBatch rooted placed.element.id
  | leaf placed => rfl

theorem goesOn_ofBatch_iff
    {root : Placed}
    {batch : List Placed}
    (rooted : Rooted root batch)
    {next above : Slot} :
    (ofBatch root batch).GoesOn next above ↔ next ∈ slotsBelow root batch above := by
  rw [GoesOn, followed_ofBatch rooted]

end Filing

/-! ## Ways and descents -/

section Descents

variable {root : Placed} {batch : List Placed}

/-- A way from where a descent ends is a longer descent. -/
theorem Descent.exists_of_isWay
    (rooted : Rooted root batch)
    {path way : List Slot}
    {slot : Slot}
    (descent : Descent root batch path slot)
    (isWay : (Filing.ofBatch root batch).IsWay (slot :: way)) :
    ∃ longer last, Descent root batch longer last ∧
      last :: longer = (slot :: way).reverse ++ path := by
  induction way generalizing path slot with
  | nil => exact ⟨path, slot, descent, rfl⟩
  | cons next rest inductionHypothesis =>
      obtain ⟨goesOn, restIsWay⟩ := List.isChain_cons_cons.mp isWay
      have member := (Filing.goesOn_ofBatch_iff rooted).mp goesOn
      obtain ⟨longer, last, continued, whole⟩ :=
        inductionHypothesis (descent.step member) restIsWay
      refine ⟨longer, last, continued, ?_⟩
      rw [whole, List.reverse_cons (a := slot), List.append_assoc, List.singleton_append]

/-- No way goes on without end from where a descent ends: each step lengthens the descent,
which is never longer than the batch. -/
theorem Descent.acc
    (rooted : Rooted root batch)
    {path : List Slot}
    {slot : Slot}
    (descent : Descent root batch path slot) :
    Acc (Filing.ofBatch root batch).GoesOn slot := by
  induction left : batch.length - path.length generalizing path slot with
  | zero =>
      have short := descent.length_le rooted
      omega
  | succ left inductionHypothesis =>
      refine Acc.intro slot fun next goesOn => ?_
      have member := (Filing.goesOn_ofBatch_iff rooted).mp goesOn
      refine inductionHypothesis (descent.step member) ?_
      rw [List.length_cons]
      omega

/-- Where a descent ends, the recursion makes the outline that is grown there. -/
theorem builds_iff_eq_grow
    (rooted : Rooted root batch)
    {path : List Slot}
    {slot : Slot}
    {depth : Nat}
    (descent : Descent root batch path slot)
    (deep : batch.length ≤ depth + path.length)
    {made : Outline} :
    (Filing.ofBatch root batch).Builds slot made ↔
      made = Outline.grow (Filing.ofBatch root batch) depth slot := by
  induction depth generalizing path slot made with
  | zero =>
      have short := descent.length_le rooted
      omega
  | succ depth inductionHypothesis =>
      have below : ∀ next ∈ slotsBelow root batch slot, ∀ child,
          (Filing.ofBatch root batch).Builds next child ↔
            child = Outline.grow (Filing.ofBatch root batch) depth next := by
        intro next member child
        refine inductionHypothesis (descent.step member) ?_
        rw [List.length_cons]
        omega
      rw [Outline.grow_succ rooted]
      constructor
      · rintro ⟨childrenMade⟩
        rw [Filing.followed_ofBatch rooted, forall₂_iff_eq_map below] at childrenMade
        rw [childrenMade]
      · rintro rfl
        refine Filing.Builds.slot ?_
        rw [Filing.followed_ofBatch rooted, forall₂_iff_eq_map below]

/-- An outline is as high as the descents that go on in it at most. -/
theorem height_grow_add_le
    (rooted : Rooted root batch)
    {path : List Slot}
    {slot : Slot}
    {depth : Nat}
    (descent : Descent root batch path slot)
    (deep : batch.length ≤ depth + path.length) :
    (Outline.grow (Filing.ofBatch root batch) depth slot).height + path.length ≤
      batch.length := by
  have short := descent.length_le rooted
  induction depth generalizing path slot with
  | zero => omega
  | succ depth inductionHypothesis =>
      have below : Outline.heightOf ((slotsBelow root batch slot).map
          (Outline.grow (Filing.ofBatch root batch) depth)) ≤
            batch.length - (path.length + 1) := by
        refine Outline.heightOf_le_iff.mpr (List.forall_mem_map.mpr fun next member => ?_)
        have longer := descent.step member
        have bound := inductionHypothesis longer
          (by rw [List.length_cons]; omega) (longer.length_le rooted)
        rw [List.length_cons] at bound
        omega
      rw [Outline.grow_succ rooted, Outline.height]
      omega

end Descents

/-! ## The recursion over a batch -/

/-- Every batch in which an element can be the root has an outline, which is what the recursion
without a limit makes.  No way that it follows from the root comes to a position twice, so that
it is nested no deeper than the batch is long. -/
theorem recursion_ends_within_batch
    (elements : List Element)
    (candidate : ∃ element ∈ elements, element.isRootCandidate = true) :
    ∃ root outline,
      Outline.root? elements = some root ∧
      Outline.ofElements? elements = some outline ∧
      Tree.ofElements elements = .ok outline.toTree ∧
      (Filing.ofBatch root (Outline.place elements)).EndsWith (.node root) elements.length
        outline := by
  have hasRoot : Outline.root? elements ≠ none := by
    obtain ⟨element, member, isCandidate⟩ := candidate
    intro none
    rw [Outline.root?_eq_none_iff.mp none element member] at isCandidate
    cases isCandidate
  obtain ⟨root, found⟩ := Option.ne_none_iff_exists'.mp hasRoot
  have built := Outline.ofElements?_of_root? found
  have rooted := Rooted.of_root? found
  have atRoot : Descent root (Outline.place elements) [] (.node root) := Descent.start
  refine ⟨root, _, found, built, Tree.ofElements_of_ofElements? built, ?_⟩
  rw [← Outline.length_place elements]
  exact
    { nodup_of_isWay := fun way isWay => by
        obtain ⟨longer, last, descent, whole⟩ := atRoot.exists_of_isWay rooted isWay
        have nodup := descent.nodup_positions rooted
        rwa [whole, List.append_nil, List.map_reverse, List.nodup_reverse] at nodup
      length_le_of_isWay := fun way isWay => by
        obtain ⟨longer, last, descent, whole⟩ := atRoot.exists_of_isWay rooted isWay
        have length := congrArg List.length whole
        have short := descent.length_le rooted
        rw [List.append_nil, List.length_reverse, List.length_cons] at length
        omega
      acc := atRoot.acc rooted
      builds_iff := fun made => builds_iff_eq_grow rooted atRoot (Nat.le_refl _)
      height_le := height_grow_add_le rooted atRoot (Nat.le_refl _) }

/-- A batch with an element that is its own parent, a circle of two elements, a circle that
is closed by a repeated identifier, and one that is closed by the identifier of the root. -/
def knottedBatch : List Element :=
  [ ⟨"self", "p", some "self", [], none⟩,
    ⟨"root", "AbsoluteFill", none, [], none⟩,
    ⟨"a", "div", some "root", [], none⟩,
    ⟨"b", "span", some "a", [], none⟩,
    ⟨"a", "em", some "b", [], none⟩,
    ⟨"root", "i", some "b", [], none⟩,
    ⟨"egg", "ul", some "hen", [], none⟩,
    ⟨"hen", "ol", some "egg", [], none⟩ ]

theorem recursion_ends_within_knottedBatch :
    (∃ element ∈ knottedBatch, element.isRootCandidate = true) ∧
      ∃ root outline,
        Outline.root? knottedBatch = some root ∧
        Outline.ofElements? knottedBatch = some outline ∧
        Tree.ofElements knottedBatch = .ok outline.toTree ∧
        (Filing.ofBatch root (Outline.place knottedBatch)).EndsWith (.node root)
          knottedBatch.length outline := by
  have candidate : ∃ element ∈ knottedBatch, element.isRootCandidate = true := by decide
  exact ⟨candidate, recursion_ends_within_batch knottedBatch candidate⟩

end Montage
