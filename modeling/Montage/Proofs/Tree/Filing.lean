import Mathlib.Data.List.Nodup
import Montage.Tree.Outline

/-!
# What one pass over a batch files

`scan` finds the slots under an identifier the slow way, by looking through the whole
batch once more.  The filing made in one pass agrees with it for every identifier, in
the contents of the slots and in their order (`slotsUnder_ofBatch`), so that nothing
below has to speak of the two dictionaries of a filing again.
-/

namespace Montage

namespace Placed

/-- No other element of the batch with the same identifier comes earlier. -/
def IsFirst
    (batch : List Placed)
    (placed : Placed) : Prop :=
  ∀ other ∈ batch, other.element.id = placed.element.id →
    placed.position ≤ other.position

instance (batch : List Placed) (placed : Placed) :
    Decidable (placed.IsFirst batch) :=
  inferInstanceAs (Decidable (∀ other ∈ batch, _ → _))

end Placed

/-! ## Numbered batches -/

namespace Outline

@[simp] theorem map_element_place (elements : List Element) :
    (place elements).map Placed.element = elements := by
  rw [place, List.map_map]
  exact List.zipIdx_map_fst 0 elements

@[simp] theorem map_position_place (elements : List Element) :
    (place elements).map Placed.position = List.range elements.length := by
  rw [place, List.map_map, List.range_eq_range']
  exact List.zipIdx_map_snd 0 elements

@[simp] theorem length_place (elements : List Element) :
    (place elements).length = elements.length := by
  rw [place, List.length_map, List.length_zipIdx]

theorem mem_place_iff
    {elements : List Element}
    {placed : Placed} :
    placed ∈ place elements ↔ elements[placed.position]? = some placed.element := by
  rw [place, List.mem_map]
  constructor
  · rintro ⟨entry, member, rfl⟩
    exact List.mem_zipIdx_iff_getElem?.mp member
  · intro found
    exact ⟨(placed.element, placed.position), List.mem_zipIdx_iff_getElem?.mpr found, rfl⟩

end Outline

/-- A batch in the order of its positions, with the element that is its root. -/
structure Rooted
    (root : Placed)
    (batch : List Placed) : Prop where
  /-- The positions ascend. -/
  ascending : batch.Pairwise fun earlier later => earlier.position < later.position
  /-- The root is one of the elements. -/
  root_mem : root ∈ batch

namespace Rooted

variable {root : Placed} {batch : List Placed}

theorem eq_of_position_eq
    (rooted : Rooted root batch)
    {left right : Placed}
    (leftMember : left ∈ batch)
    (rightMember : right ∈ batch)
    (same : left.position = right.position) :
    left = right := by
  have positionsNodup : (batch.map Placed.position).Nodup :=
    List.pairwise_map.mpr (rooted.ascending.imp Nat.ne_of_lt)
  exact List.inj_on_of_nodup_map positionsNodup leftMember rightMember same

/-- The first candidate of a batch is the root of the numbered batch. -/
theorem of_root?
    {elements : List Element}
    (found : Outline.root? elements = some root) :
    Rooted root (Outline.place elements) where
  ascending := by
    have ascends := List.pairwise_lt_range (n := elements.length)
    rw [← Outline.map_position_place] at ascends
    exact List.pairwise_map.mp ascends
  root_mem := List.mem_of_find?_eq_some found

end Rooted

/-! ## Looking through the whole batch -/

/-- The slot that an element takes under an identifier, if it takes one. -/
def slotUnder?
    (root : Placed)
    (batch : List Placed)
    (id : String)
    (placed : Placed) : Option Slot :=
  if placed.element.id = root.element.id then
    if placed.position ≠ root.position ∧ id = root.element.id then
      some (.leaf placed)
    else
      none
  else if placed.IsFirst batch ∧ placed.element.parent = some id then
    some (.node placed)
  else
    none

/-- The slots under an identifier, found by looking through the whole batch: the
elements that are first with their identifier and name this one as their parent, and
under the identifier of the root also the others that carry it, as leaves. -/
def scan
    (root : Placed)
    (batch : List Placed)
    (id : String) : List Slot :=
  batch.filterMap (slotUnder? root batch id)

/-- A batch with a child in front of its parent, a root that is neither in front nor the
first to carry its identifier, a repeated identifier, two elements that are each other's
parents, and a second candidate. -/
def tangledBatch : List Element :=
  [ ⟨"leaf", "li", some "list", [], some "early"⟩,
    ⟨"list", "ul", some "top", [], none⟩,
    ⟨"top", "Img", some "ghost", [], none⟩,
    ⟨"top", "AbsoluteFill", none, [], some "caption"⟩,
    ⟨"list", "ol", some "top", [], none⟩,
    ⟨"chicken", "div", some "egg", [], none⟩,
    ⟨"egg", "p", some "chicken", [], none⟩,
    ⟨"stray", "h1", none, [], none⟩ ]

/-- The root of `tangledBatch`. -/
def tangledRoot : Placed :=
  ⟨3, ⟨"top", "AbsoluteFill", none, [], some "caption"⟩⟩

example : (scan tangledRoot (Outline.place tangledBatch) "top").map
    (fun slot => slot.placed.position) = [1, 2] := by
  decide

section Scan

variable {root : Placed} {batch : List Placed} {id : String}

/-- The two ways in which an element takes a slot. -/
theorem slotUnder?_eq_some_iff
    {placed : Placed}
    {slot : Slot} :
    slotUnder? root batch id placed = some slot ↔
      (placed.element.id = root.element.id ∧
        (placed.position ≠ root.position ∧ id = root.element.id) ∧ slot = .leaf placed) ∨
      (placed.element.id ≠ root.element.id ∧
        (placed.IsFirst batch ∧ placed.element.parent = some id) ∧ slot = .node placed) := by
  by_cases isRootId : placed.element.id = root.element.id
  · rw [slotUnder?, if_pos isRootId, Option.ite_none_right_eq_some, Option.some.injEq]
    simp [isRootId, eq_comm]
  · rw [slotUnder?, if_neg isRootId, Option.ite_none_right_eq_some, Option.some.injEq]
    simp [isRootId, eq_comm]

theorem placed_eq_of_slotUnder?
    {placed : Placed}
    {slot : Slot}
    (taken : slotUnder? root batch id placed = some slot) :
    slot.placed = placed := by
  rcases slotUnder?_eq_some_iff.mp taken with ⟨-, -, rfl⟩ | ⟨-, -, rfl⟩ <;> rfl

/-- The other elements with the identifier of the root are leaves under it. -/
theorem leaf_mem_scan_iff
    {placed : Placed} :
    .leaf placed ∈ scan root batch id ↔
      placed ∈ batch ∧ placed.element.id = root.element.id ∧
        placed.position ≠ root.position ∧ id = root.element.id := by
  simp [scan, slotUnder?_eq_some_iff]

/-- The other nodes are the first elements of their identifiers, under their
parents. -/
theorem node_mem_scan_iff
    {placed : Placed} :
    .node placed ∈ scan root batch id ↔
      placed ∈ batch ∧ placed.element.id ≠ root.element.id ∧
        placed.IsFirst batch ∧ placed.element.parent = some id := by
  simp [scan, slotUnder?_eq_some_iff]

theorem pairwise_scan
    (ascending : batch.Pairwise fun earlier later => earlier.position < later.position) :
    (scan root batch id).Pairwise fun earlier later =>
      earlier.placed.position < later.placed.position := by
  rw [scan, List.pairwise_filterMap]
  refine ascending.imp fun before first firstTaken second secondTaken => ?_
  rw [placed_eq_of_slotUnder? firstTaken, placed_eq_of_slotUnder? secondTaken]
  exact before

theorem slotUnder?_root : slotUnder? root batch id root = none := by
  simp [slotUnder?]

theorem placed_mem_of_mem_scan
    {slot : Slot}
    (member : slot ∈ scan root batch id) :
    slot.placed ∈ batch := by
  obtain ⟨placed, placedMember, taken⟩ := List.mem_filterMap.mp member
  rw [placed_eq_of_slotUnder? taken]
  exact placedMember

theorem position_ne_of_mem_scan
    (rooted : Rooted root batch)
    {slot : Slot}
    (member : slot ∈ scan root batch id) :
    slot.placed.position ≠ root.position := by
  obtain ⟨placed, placedMember, taken⟩ := List.mem_filterMap.mp member
  rw [placed_eq_of_slotUnder? taken]
  intro atRoot
  rw [rooted.eq_of_position_eq placedMember rooted.root_mem atRoot, slotUnder?_root] at taken
  exact Option.some_ne_none slot taken.symm

/-- An element takes one slot, under one identifier. -/
theorem eq_of_mem_scan
    (rooted : Rooted root batch)
    {leftId rightId : String}
    {left right : Slot}
    (leftMember : left ∈ scan root batch leftId)
    (rightMember : right ∈ scan root batch rightId)
    (same : left.placed.position = right.placed.position) :
    left = right ∧ leftId = rightId := by
  obtain ⟨placed, placedMember, leftTaken⟩ := List.mem_filterMap.mp leftMember
  obtain ⟨other, otherMember, rightTaken⟩ := List.mem_filterMap.mp rightMember
  rw [placed_eq_of_slotUnder? leftTaken, placed_eq_of_slotUnder? rightTaken] at same
  obtain rfl := rooted.eq_of_position_eq placedMember otherMember same
  rcases slotUnder?_eq_some_iff.mp leftTaken with
    ⟨isRootId, ⟨-, leftUnder⟩, rfl⟩ | ⟨notRootId, ⟨-, leftUnder⟩, rfl⟩
  · rcases slotUnder?_eq_some_iff.mp rightTaken with
      ⟨-, ⟨-, rightUnder⟩, rfl⟩ | ⟨notRootId, -⟩
    · exact ⟨rfl, leftUnder.trans rightUnder.symm⟩
    · exact absurd isRootId notRootId
  · rcases slotUnder?_eq_some_iff.mp rightTaken with
      ⟨isRootId, -⟩ | ⟨-, ⟨-, rightUnder⟩, rfl⟩
    · exact absurd isRootId notRootId
    · exact ⟨rfl, Option.some.inj (leftUnder.symm.trans rightUnder)⟩

/-- Of the batch it matters only whether the element is first in it. -/
theorem slotUnder?_congr
    {other : List Placed}
    {placed : Placed}
    (sameFirst : placed.element.id ≠ root.element.id →
      (placed.IsFirst batch ↔ placed.IsFirst other)) :
    slotUnder? root batch id placed = slotUnder? root other id placed := by
  by_cases rootId : placed.element.id = root.element.id
  · simp only [slotUnder?, if_pos rootId]
  · simp only [slotUnder?, if_neg rootId, sameFirst rootId]

end Scan

/-! ## The pass -/

namespace Filing

/-- Filing under one identifier adds a slot there and nothing elsewhere. -/
theorem slotsUnder_file
    (filing : Filing)
    (id other : String)
    (slot : Slot) :
    (filing.file id slot).slotsUnder other =
      filing.slotsUnder other ++ if other = id then [slot] else [] := by
  by_cases same : other = id
  · subst same
    simp [file, slotsUnder]
  · simp [file, slotsUnder, Dict.find?_insert_of_ne same, same]

section Add

variable {rootId : String} {filing : Filing} {next : Placed}

theorem add_of_rootId
    (isRootId : next.element.id = rootId) :
    filing.add rootId next = filing.file rootId (.leaf next) := by
  rw [add, if_pos isRootId]

/-- An element with an identifier noted before is passed over. -/
theorem add_of_noted
    (notRootId : next.element.id ≠ rootId)
    (noted : filing.firstWith.find? next.element.id ≠ none) :
    filing.add rootId next = filing := by
  obtain ⟨position, found⟩ := Option.ne_none_iff_exists'.mp noted
  simp only [add, if_neg notRootId, found]

theorem firstWith_add_of_new
    (notRootId : next.element.id ≠ rootId)
    (new : filing.firstWith.find? next.element.id = none) :
    (filing.add rootId next).firstWith =
      filing.firstWith.insert next.element.id next.position := by
  simp only [add, if_neg notRootId, new]
  cases next.element.parent <;> rfl

theorem slotsUnder_add_of_new
    (notRootId : next.element.id ≠ rootId)
    (new : filing.firstWith.find? next.element.id = none)
    (id : String) :
    (filing.add rootId next).slotsUnder id =
      filing.slotsUnder id ++
        if next.element.parent = some id then [.node next] else [] := by
  simp only [add, if_neg notRootId, new]
  cases next.element.parent with
  | none => simp [slotsUnder]
  | some parent =>
      simp only [slotsUnder_file, Option.some.injEq, @eq_comm _ parent id]
      rfl

end Add

/-- What a filing says once the elements of `seen` have been taken into account. -/
structure Reflects
    (root : Placed)
    (seen : List Placed)
    (filing : Filing) : Prop where
  /-- The identifiers noted are those of the elements seen. -/
  noted : ∀ id, id ≠ root.element.id →
    (filing.firstWith.find? id = none ↔ ∀ placed ∈ seen, placed.element.id ≠ id)
  /-- The slots are those that the elements seen take. -/
  filed : ∀ id, filing.slotsUnder id = scan root seen id

section Step

variable {root next : Placed} {seen : List Placed}

/-- A later element does not change which of the earlier ones are first. -/
theorem isFirst_append_iff_of_mem
    (later : ∀ placed ∈ seen, placed.position < next.position)
    {placed : Placed}
    (member : placed ∈ seen) :
    placed.IsFirst (seen ++ [next]) ↔ placed.IsFirst seen := by
  constructor
  · intro first other otherMember
    exact first other (List.mem_append_left _ otherMember)
  · intro first other otherMember sameId
    rcases List.mem_append.mp otherMember with earlier | isNext
    · exact first other earlier sameId
    · rw [List.mem_singleton.mp isNext]
      exact Nat.le_of_lt (later placed member)

/-- The next element is first when its identifier is new. -/
theorem isFirst_append_self_iff
    (later : ∀ placed ∈ seen, placed.position < next.position) :
    next.IsFirst (seen ++ [next]) ↔
      ∀ placed ∈ seen, placed.element.id ≠ next.element.id := by
  constructor
  · intro first placed member sameId
    have notLater := first placed (List.mem_append_left _ member) sameId
    exact Nat.not_lt.mpr notLater (later placed member)
  · intro new other otherMember sameId
    rcases List.mem_append.mp otherMember with earlier | isNext
    · exact absurd sameId (new other earlier)
    · exact Nat.le_of_eq (congrArg Placed.position (List.mem_singleton.mp isNext).symm)

/-- One more element adds the slot that it takes itself. -/
theorem scan_append
    (later : ∀ placed ∈ seen, placed.position < next.position)
    (id : String) :
    scan root (seen ++ [next]) id =
      scan root seen id ++ (slotUnder? root (seen ++ [next]) id next).toList := by
  have unchanged : ∀ placed ∈ seen,
      slotUnder? root (seen ++ [next]) id placed = slotUnder? root seen id placed :=
    fun placed member =>
      slotUnder?_congr fun _ => isFirst_append_iff_of_mem later member
  rw [scan, List.filterMap_append, List.filterMap_congr unchanged]
  cases taken : slotUnder? root (seen ++ [next]) id next <;> simp [scan, taken]

section Cases

variable {filing : Filing}

theorem Reflects.add_of_rootId
    (reflects : Reflects root seen filing)
    (later : ∀ placed ∈ seen, placed.position < next.position)
    (notRoot : next.position ≠ root.position)
    (isRootId : next.element.id = root.element.id) :
    Reflects root (seen ++ [next]) (filing.add root.element.id next) := by
  rw [Filing.add_of_rootId isRootId]
  refine ⟨fun id notRootId => ?_, fun id => ?_⟩
  · have different : next.element.id ≠ id := isRootId ▸ notRootId.symm
    rw [List.forall_mem_append, List.forall_mem_singleton, ← reflects.noted id notRootId]
    exact (and_iff_left different).symm
  · rw [slotsUnder_file, reflects.filed, scan_append later]
    by_cases atRoot : id = root.element.id <;>
      simp [slotUnder?, isRootId, notRoot, atRoot]

theorem Reflects.add_of_new
    (reflects : Reflects root seen filing)
    (later : ∀ placed ∈ seen, placed.position < next.position)
    (notRootId : next.element.id ≠ root.element.id)
    (new : filing.firstWith.find? next.element.id = none) :
    Reflects root (seen ++ [next]) (filing.add root.element.id next) := by
  have first := (isFirst_append_self_iff later).mpr ((reflects.noted _ notRootId).mp new)
  refine ⟨fun id otherId => ?_, fun id => ?_⟩
  · rw [firstWith_add_of_new notRootId new, List.forall_mem_append,
      List.forall_mem_singleton]
    by_cases same : id = next.element.id
    · simp [same]
    · rw [Dict.find?_insert_of_ne same, reflects.noted id otherId]
      exact (and_iff_left (Ne.symm same)).symm
  · rw [slotsUnder_add_of_new notRootId new, reflects.filed, scan_append later]
    by_cases below : next.element.parent = some id <;>
      simp [slotUnder?, notRootId, first, below]

theorem Reflects.add_of_noted
    (reflects : Reflects root seen filing)
    (later : ∀ placed ∈ seen, placed.position < next.position)
    (notRootId : next.element.id ≠ root.element.id)
    (noted : filing.firstWith.find? next.element.id ≠ none) :
    Reflects root (seen ++ [next]) (filing.add root.element.id next) := by
  rw [Filing.add_of_noted notRootId noted]
  have seenBefore := mt (reflects.noted _ notRootId).mpr noted
  refine ⟨fun id otherId => ?_, fun id => ?_⟩
  · rw [reflects.noted id otherId, List.forall_mem_append, List.forall_mem_singleton]
    refine (and_iff_left_of_imp fun absent sameId => ?_).symm
    exact seenBefore (sameId ▸ absent)
  · rw [reflects.filed, scan_append later]
    simp [slotUnder?, notRootId, isFirst_append_self_iff later, seenBefore]

/-- Taking the next element into account reflects one element more. -/
theorem Reflects.add
    (reflects : Reflects root seen filing)
    (later : ∀ placed ∈ seen, placed.position < next.position)
    (notRoot : next.position ≠ root.position) :
    Reflects root (seen ++ [next]) (filing.add root.element.id next) := by
  by_cases isRootId : next.element.id = root.element.id
  · exact reflects.add_of_rootId later notRoot isRootId
  · by_cases new : filing.firstWith.find? next.element.id = none
    · exact reflects.add_of_new later isRootId new
    · exact reflects.add_of_noted later isRootId new

end Cases

/-- Taking the rest of a batch into account reflects all of it. -/
theorem Reflects.foldl_add
    {filing : Filing}
    {rest : List Placed}
    (reflects : Reflects root seen filing)
    (ascending : (seen ++ rest).Pairwise fun earlier later =>
      earlier.position < later.position)
    (notRoot : ∀ placed ∈ rest, placed.position ≠ root.position) :
    Reflects root (seen ++ rest) (rest.foldl (Filing.add root.element.id) filing) := by
  induction rest generalizing seen filing with
  | nil => simpa using reflects
  | cons next rest inductionHypothesis =>
      have later : ∀ placed ∈ seen, placed.position < next.position :=
        fun placed member =>
          (List.pairwise_append.mp ascending).2.2 placed member next List.mem_cons_self
      have nextReflects := reflects.add later (notRoot next List.mem_cons_self)
      rw [List.append_cons] at ascending ⊢
      exact inductionHypothesis nextReflects ascending fun placed member =>
        notRoot placed (List.mem_cons_of_mem _ member)

end Step

section OfBatch

variable {root : Placed} {batch : List Placed}

theorem reflects_nil :
    Reflects root []
      { firstWith := Dict.insert root.element.id root.position [] } := by
  refine ⟨fun id notRootId => ?_, fun id => rfl⟩
  simp [Dict.find?_insert_of_ne notRootId]

/-- Leaving out the root does not change what a look through the batch finds. -/
theorem scan_filter_ne_root
    (rooted : Rooted root batch)
    (id : String) :
    scan root (batch.filter fun placed => placed.position ≠ root.position) id =
      scan root batch id := by
  rw [scan, List.filterMap_filter]
  refine List.filterMap_congr fun placed member => ?_
  by_cases atRoot : placed.position = root.position
  · rw [rooted.eq_of_position_eq member rooted.root_mem atRoot]
    simp [slotUnder?_root]
  · simp only [ne_eq, atRoot, not_false_eq_true, decide_true, if_true]
    refine slotUnder?_congr fun notRootId => ?_
    constructor
    · intro first other otherMember sameId
      refine first other (List.mem_filter.mpr ⟨otherMember, ?_⟩) sameId
      refine decide_eq_true fun otherAtRoot => notRootId ?_
      rw [← sameId, rooted.eq_of_position_eq otherMember rooted.root_mem otherAtRoot]
    · intro first other otherMember
      exact first other (List.mem_of_mem_filter otherMember)

/-- The filing of a batch has under each identifier the slots that a look through the
whole batch finds. -/
theorem slotsUnder_ofBatch
    (rooted : Rooted root batch)
    (id : String) :
    (ofBatch root batch).slotsUnder id = scan root batch id := by
  have reflects : Reflects root
      ([] ++ batch.filter fun placed => placed.position ≠ root.position)
      (ofBatch root batch) :=
    reflects_nil.foldl_add (rooted.ascending.filter _) fun placed member =>
      of_decide_eq_true (List.mem_filter.mp member).2
  exact (reflects.filed id).trans (scan_filter_ne_root rooted id)

end OfBatch

end Filing
end Montage
