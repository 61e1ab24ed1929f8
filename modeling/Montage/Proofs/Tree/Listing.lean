import Montage.Proofs.Tree.Rescan

/-!
# Listing a tree and nesting it again

A tree is listed by giving its nodes identifiers and writing each node as an element
that names the identifier of its parent.  Nesting the listing gives the tree back, and
it still does when the elements are rearranged so that the root stays in front and the
children of each node keep their order (`Tree.IsArrangement`).

The proof looks at the listing of one subtree at a time.  Such a part contains all the
elements that name a parent in it (`Holds`), so that a look through the whole batch finds
below each of its nodes just the heads of the subtrees there.
-/

namespace Montage

/-- The elements that name a parent, in order. -/
def Element.childrenOf
    (elements : List Element)
    (id : String) : List Element :=
  elements.filter fun element => element.parent = some id

namespace Tree

mutual

/-- Every node has at most one text among its children, and only in last place. -/
def TextLast : Tree → Prop
  | ⟨_, _, children⟩ => TextLastOf children

/-- At most one of the children is a text, and only the last one, and the same holds
inside the nested nodes. -/
def TextLastOf : List (Child Tree) → Prop
  | [] => True
  | .text _ :: rest => rest = []
  | .element tree :: rest => TextLast tree ∧ TextLastOf rest

end

/-- The topmost node of a tree as an element. -/
def head
    (id : String)
    (parent : Option String)
    (tree : Tree) : Element where
  id := id
  name := tree.name
  parent := parent
  props := tree.props
  text := tree.text?

mutual

/-- The nodes of a tree as elements, each node before what is below it.  A node has the
identifier that belongs to its address, the list of the indices that lead to it. -/
def listing
    (ids : List Nat → String)
    (parent : Option String)
    (address : List Nat) : Tree → List Element
  | ⟨name, props, children⟩ =>
      head (ids address) parent ⟨name, props, children⟩ ::
        listingOf ids (ids address) address 0 children

/-- The nodes in a list of children from an index on, under the identifier of their
parent. -/
def listingOf
    (ids : List Nat → String)
    (parent : String)
    (address : List Nat) : Nat → List (Child Tree) → List Element
  | _, [] => []
  | index, .element tree :: rest =>
      listing ids (some parent) (address ++ [index]) tree ++
        listingOf ids parent address (index + 1) rest
  | index, .text _ :: rest => listingOf ids parent address (index + 1) rest

end

/-- The topmost nodes in a list of children as elements. -/
def headsOf
    (ids : List Nat → String)
    (parent : String)
    (address : List Nat) : Nat → List (Child Tree) → List Element
  | _, [] => []
  | index, .element tree :: rest =>
      head (ids (address ++ [index])) (some parent) tree ::
        headsOf ids parent address (index + 1) rest
  | index, .text _ :: rest => headsOf ids parent address (index + 1) rest

/-- The elements of a listing in another order, with the root still in front and the
children of each node in the order in which they are listed. -/
structure IsArrangement (elements listing : List Element) : Prop where
  /-- The elements are the same. -/
  perm : elements.Perm listing
  /-- The root is in front. -/
  root_first : elements.head? = listing.head?
  /-- Siblings keep their order. -/
  siblings : ∀ id, Element.childrenOf elements id = Element.childrenOf listing id

end Tree

/-! ## Parts of a batch -/

section Parts

variable {parent : Option String} {front back : List Element}

theorem Element.childrenOf_append (id : String) :
    childrenOf (front ++ back) id = childrenOf front id ++ childrenOf back id :=
  List.filter_append front back

theorem Element.childrenOf_eq_nil
    {elements : List Element}
    {id : String}
    (nobody : ∀ element ∈ elements, element.parent ≠ some id) :
    childrenOf elements id = [] :=
  List.filter_eq_nil_iff.mpr fun element member => by simpa using nobody element member

/-- An element that names another parent does not count. -/
theorem Element.childrenOf_cons_of_ne
    {topmost : Element}
    {id : String}
    (different : topmost.parent ≠ some id)
    (rest : List Element) :
    childrenOf (topmost :: rest) id = childrenOf rest id :=
  List.filter_cons_of_neg (by simpa using different)

/-- Every element of the part names the given parent or one inside the part. -/
def Closed
    (parent : Option String)
    (part : List Element) : Prop :=
  ∀ element ∈ part,
    element.parent = parent ∨ ∃ above ∈ part, element.parent = some above.id

theorem Closed.append
    (frontClosed : Closed parent front)
    (backClosed : Closed parent back) :
    Closed parent (front ++ back) := by
  intro element member
  rcases List.mem_append.mp member with inFront | inBack
  · refine (frontClosed element inFront).imp_right ?_
    rintro ⟨above, aboveMember, under⟩
    exact ⟨above, List.mem_append_left _ aboveMember, under⟩
  · refine (backClosed element inBack).imp_right ?_
    rintro ⟨above, aboveMember, under⟩
    exact ⟨above, List.mem_append_right _ aboveMember, under⟩

theorem Closed.cons
    {topmost : Element}
    {rest : List Element}
    (under : topmost.parent = parent)
    (closed : Closed (some topmost.id) rest) :
    Closed parent (topmost :: rest) := by
  intro element member
  rcases List.mem_cons.mp member with rfl | inRest
  · exact Or.inl under
  · rcases closed element inRest with ofTopmost | ⟨above, aboveMember, ofAbove⟩
    · exact Or.inr ⟨topmost, List.mem_cons_self, ofTopmost⟩
    · exact Or.inr ⟨above, List.mem_cons_of_mem _ aboveMember, ofAbove⟩

/-- Nobody in a closed part names a parent that is neither the given one nor in it. -/
theorem Closed.childrenOf_eq_nil
    {part : List Element}
    {id : String}
    (closed : Closed parent part)
    (notParent : parent ≠ some id)
    (notInside : ∀ element ∈ part, element.id ≠ id) :
    Element.childrenOf part id = [] := by
  refine Element.childrenOf_eq_nil fun element member isParent => ?_
  rcases closed element member with under | ⟨above, aboveMember, under⟩
  · exact notParent (under.symm.trans isParent)
  · exact notInside above aboveMember (Option.some.inj (under.symm.trans isParent))

/-- A part of a batch under a parent outside of it, which contains all elements that
name a parent inside of it. -/
structure Holds
    (elements : List Element)
    (parent : Option String)
    (part : List Element) : Prop where
  /-- The identifiers are pairwise distinct. -/
  distinct : (part.map Element.id).Nodup
  /-- The parent is outside. -/
  outside : ∀ element ∈ part, parent ≠ some element.id
  /-- All children of an element of the part are in the part. -/
  complete : ∀ element ∈ part,
    Element.childrenOf elements element.id = Element.childrenOf part element.id

namespace Holds

variable {elements : List Element}

theorem id_ne_of_mem
    (holds : Holds elements parent (front ++ back))
    {left right : Element}
    (inFront : left ∈ front)
    (inBack : right ∈ back) :
    left.id ≠ right.id := by
  have distinct := holds.distinct
  rw [List.map_append] at distinct
  exact (List.nodup_append.mp distinct).2.2 _ (List.mem_map_of_mem inFront) _
    (List.mem_map_of_mem inBack)

theorem left
    (holds : Holds elements parent (front ++ back))
    (backClosed : Closed parent back) :
    Holds elements parent front where
  distinct := holds.distinct.sublist ((List.sublist_append_left front back).map _)
  outside := fun element member => holds.outside element (List.mem_append_left _ member)
  complete := fun element member => by
    have member' := List.mem_append_left back member
    rw [holds.complete element member', Element.childrenOf_append,
      backClosed.childrenOf_eq_nil (holds.outside element member')
        fun other inBack => (holds.id_ne_of_mem member inBack).symm,
      List.append_nil]

theorem right
    (holds : Holds elements parent (front ++ back))
    (frontClosed : Closed parent front) :
    Holds elements parent back where
  distinct := holds.distinct.sublist ((List.sublist_append_right front back).map _)
  outside := fun element member => holds.outside element (List.mem_append_right _ member)
  complete := fun element member => by
    have member' := List.mem_append_right front member
    rw [holds.complete element member', Element.childrenOf_append,
      frontClosed.childrenOf_eq_nil (holds.outside element member')
        fun other inFront => holds.id_ne_of_mem inFront member,
      List.nil_append]

/-- All of a batch, up to the order of elements with different parents, is a part of
it. -/
theorem whole
    {part : List Element}
    (distinct : (part.map Element.id).Nodup)
    (siblings : ∀ id, Element.childrenOf elements id = Element.childrenOf part id) :
    Holds elements none part where
  distinct := distinct
  outside := fun element _ => (Option.some_ne_none element.id).symm
  complete := fun element _ => siblings element.id

/-- Without its topmost element a part is one under that element. -/
theorem tail
    {topmost : Element}
    {rest : List Element}
    (holds : Holds elements parent (topmost :: rest))
    (under : topmost.parent = parent) :
    Holds elements (some topmost.id) rest where
  distinct := (List.nodup_cons.mp holds.distinct).2
  outside := fun element member same => by
    refine (List.nodup_cons.mp holds.distinct).1 ?_
    rw [Option.some.inj same]
    exact List.mem_map_of_mem member
  complete := fun element member => by
    have member' := List.mem_cons_of_mem topmost member
    rw [holds.complete element member',
      Element.childrenOf_cons_of_ne (under ▸ holds.outside element member')]

/-- The children of the topmost element are below it. -/
theorem childrenOf_topmost
    {topmost : Element}
    {rest : List Element}
    (holds : Holds elements parent (topmost :: rest))
    (under : topmost.parent = parent) :
    Element.childrenOf elements topmost.id = Element.childrenOf rest topmost.id := by
  rw [holds.complete topmost List.mem_cons_self,
    Element.childrenOf_cons_of_ne (under ▸ holds.outside topmost List.mem_cons_self)]

end Holds

end Parts

/-! ## Listings as parts -/

namespace Tree

section Listings

variable {ids : List Nat → String}

mutual

/-- In the listing of a tree every parent but the topmost one is listed. -/
theorem closed_listing : ∀ (parent : Option String) (address : List Nat) (tree : Tree),
    Closed parent (listing ids parent address tree)
  | parent, address, ⟨name, props, children⟩ => by
      rw [listing]
      exact Closed.cons rfl (closed_listingOf (ids address) address 0 children)

/-- In the listing of children every parent is listed or is the parent of all. -/
theorem closed_listingOf : ∀ (parent : String) (address : List Nat) (index : Nat)
    (children : List (Child Tree)),
    Closed (some parent) (listingOf ids parent address index children)
  | parent, address, index, [] => by
      intro element member
      rw [listingOf] at member
      exact absurd member List.not_mem_nil
  | parent, address, index, .element tree :: rest => by
      rw [listingOf]
      exact (closed_listing (some parent) (address ++ [index]) tree).append
        (closed_listingOf parent address (index + 1) rest)
  | parent, address, index, .text _ :: rest => by
      rw [listingOf]
      exact closed_listingOf parent address (index + 1) rest

end

/-- In the listing of children just the topmost nodes name their common parent. -/
theorem childrenOf_listingOf
    {parent : String}
    {address : List Nat}
    {index : Nat}
    {children : List (Child Tree)}
    (notInside : ∀ element ∈ listingOf ids parent address index children,
      element.id ≠ parent) :
    Element.childrenOf (listingOf ids parent address index children) parent =
      headsOf ids parent address index children := by
  induction children generalizing index with
  | nil => rw [listingOf, headsOf, Element.childrenOf, List.filter_nil]
  | cons child rest inductionHypothesis =>
      cases child with
      | text content =>
          rw [listingOf] at notInside ⊢
          rw [headsOf]
          exact inductionHypothesis notInside
      | element tree =>
          obtain ⟨name, props, children⟩ := tree
          rw [listingOf, List.forall_mem_append, listing, List.forall_mem_cons] at notInside
          obtain ⟨⟨notTopmost, notBelow⟩, notBeside⟩ := notInside
          have below := (closed_listingOf (ids (address ++ [index])) (address ++ [index]) 0
            children).childrenOf_eq_nil
              (fun same => notTopmost (Option.some.inj same)) notBelow
          rw [listingOf, Element.childrenOf_append, inductionHypothesis notBeside, headsOf,
            listing, Element.childrenOf, List.filter_cons_of_pos (by simp [head]),
            ← Element.childrenOf, below, List.singleton_append]

end Listings

/-! ## Looking through a listed batch -/

section Distinct

variable {elements : List Element} {root : Placed}

/-- Where no identifier occurs twice and the root names no parent, a look through the
batch finds under an identifier just the elements that name it. -/
theorem scan_of_distinct
    (rooted : Rooted root (Outline.place elements))
    (distinct : (elements.map Element.id).Nodup)
    (noParent : root.element.parent = none)
    (id : String) :
    scan root (Outline.place elements) id =
      ((Outline.place elements).filter fun placed =>
        placed.element.parent = some id).map Slot.node := by
  have sameOfId : ∀ left ∈ Outline.place elements, ∀ right ∈ Outline.place elements,
      left.element.id = right.element.id → left = right := by
    have idsNodup :
        ((Outline.place elements).map fun placed => placed.element.id).Nodup := by
      rw [← Outline.map_element_place elements, List.map_map] at distinct
      exact distinct
    intro left leftMember right rightMember sameId
    exact List.inj_on_of_nodup_map idsNodup leftMember rightMember sameId
  rw [scan, ← List.filterMap_eq_map, List.filterMap_filter]
  refine List.filterMap_congr fun placed member => ?_
  by_cases isRootId : placed.element.id = root.element.id
  · rw [sameOfId placed member root rooted.root_mem isRootId, slotUnder?_root]
    simp [noParent]
  · have first : placed.IsFirst (Outline.place elements) := fun other otherMember sameId =>
      Nat.le_of_eq (congrArg Placed.position
        (sameOfId other otherMember placed member sameId)).symm
    simp [slotUnder?, isRootId, first]

/-- The elements found below a node are those that name it. -/
theorem map_element_filter_place (id : String) :
    ((Outline.place elements).filter fun placed =>
        placed.element.parent = some id).map Placed.element =
      Element.childrenOf elements id := by
  conv_rhs => rw [← Outline.map_element_place elements]
  rw [Element.childrenOf, List.filter_map]
  rfl

end Distinct

section Renders

variable {elements : List Element} {root : Placed} {ids : List Nat → String}

mutual

/-- A tree shows the node at the head of its listing. -/
theorem renders_of_holds
    (rooted : Rooted root (Outline.place elements))
    (distinct : (elements.map Element.id).Nodup)
    (noParent : root.element.parent = none) :
    ∀ (tree : Tree) {parent : Option String} {address : List Nat} {placed : Placed},
      tree.TextLast →
      placed.element = head (ids address) parent tree →
      Holds elements parent (listing ids parent address tree) →
      tree.Renders root (Outline.place elements) (.node placed)
  | ⟨name, props, children⟩, parent, address, placed => by
      intro textLast isHead holds
      rw [listing] at holds
      have holdsBelow := holds.tail rfl
      have heads :
          ((Outline.place elements).filter fun other =>
              other.element.parent = some placed.element.id).map Placed.element =
            headsOf ids (ids address) address 0 children := by
        rw [map_element_filter_place, isHead, holds.childrenOf_topmost rfl]
        exact childrenOf_listingOf fun element member same =>
          holdsBelow.outside element member (congrArg some same.symm)
      have below : RendersAll root (Outline.place elements) placed.element
          (((Outline.place elements).filter fun other =>
            other.element.parent = some placed.element.id).map Slot.node) children :=
        rendersAll_of_holds rooted distinct noParent children textLast
          (by rw [isHead]; rfl) heads holdsBelow
      rw [← scan_of_distinct rooted distinct noParent] at below
      have shows : Renders root (Outline.place elements) (.node placed)
          ⟨placed.element.name, placed.element.props, children⟩ := Renders.node below
      rw [isHead] at shows
      exact shows

/-- Children show the nodes at the heads of their listings. -/
theorem rendersAll_of_holds
    (rooted : Rooted root (Outline.place elements))
    (distinct : (elements.map Element.id).Nodup)
    (noParent : root.element.parent = none) :
    ∀ (children : List (Child Tree)) {parent : String} {address : List Nat} {index : Nat}
      {owner : Element} {found : List Placed},
      TextLastOf children →
      owner.text = children.getLast?.bind Child.text? →
      found.map Placed.element = headsOf ids parent address index children →
      Holds elements (some parent) (listingOf ids parent address index children) →
      RendersAll root (Outline.place elements) owner (found.map Slot.node) children
  | [], parent, address, index, owner, found => by
      intro textLast ownText heads holds
      rw [headsOf, List.map_eq_nil_iff] at heads
      rw [heads, List.map_nil]
      exact RendersAll.noText ownText
  | .text content :: rest, parent, address, index, owner, found => by
      intro textLast ownText heads holds
      obtain rfl : rest = [] := textLast
      rw [headsOf, headsOf, List.map_eq_nil_iff] at heads
      rw [heads, List.map_nil]
      exact RendersAll.text ownText
  | .element tree :: rest, parent, address, index, owner, found => by
      intro textLast ownText heads holds
      obtain ⟨firstTextLast, othersTextLast⟩ : tree.TextLast ∧ TextLastOf rest := textLast
      rw [headsOf] at heads
      obtain ⟨placed, others, rfl, isHead, otherHeads⟩ := List.map_eq_cons_iff.mp heads
      have othersText : owner.text = rest.getLast?.bind Child.text? := by
        rw [ownText]
        cases rest with
        | nil => rfl
        | cons child later => rw [List.getLast?_cons_cons]
      rw [listingOf] at holds
      have first := renders_of_holds rooted distinct noParent tree firstTextLast isHead
        (holds.left (closed_listingOf parent address (index + 1) rest))
      have later := rendersAll_of_holds rooted distinct noParent rest othersTextLast
        othersText otherHeads
        (holds.right (closed_listing (some parent) (address ++ [index]) tree))
      exact RendersAll.node first later

end

end Renders

/-- Nesting any arrangement of the listing of a tree gives the tree back, provided that
texts come last in the tree and no two of its nodes have the same identifier. -/
theorem ofElements_of_isArrangement
    {tree : Tree}
    {ids : List Nat → String}
    {elements : List Element}
    (textLast : tree.TextLast)
    (distinct : ((tree.listing ids none []).map Element.id).Nodup)
    (arranged : IsArrangement elements (tree.listing ids none [])) :
    Tree.ofElements elements = .ok tree := by
  obtain ⟨name, props, children⟩ := tree
  have listed : listing ids none [] ⟨name, props, children⟩ =
      head (ids []) none ⟨name, props, children⟩ ::
        listingOf ids (ids []) [] 0 children := by
    rw [listing]
  have inFront := arranged.root_first
  rw [listed, List.head?_cons] at inFront
  obtain ⟨rest, rfl⟩ := List.head?_eq_some_iff.mp inFront
  have candidate : (head (ids []) none ⟨name, props, children⟩).isRootCandidate = true := by
    simp [Element.isRootCandidate, head]
  have found := Outline.root?_cons candidate rest
  have elementsDistinct := (arranged.perm.map Element.id).nodup_iff.mpr distinct
  exact ofElements_eq_ok_of_renders found
    (renders_of_holds (Rooted.of_root? found) elementsDistinct rfl _ textLast rfl
      (Holds.whole distinct arranged.siblings))

/-- A list of two items, with a caption. -/
def captionedList : Tree :=
  ⟨"AbsoluteFill", [],
    [ .element ⟨"ul", [],
        [.element ⟨"li", [], [.text "one"]⟩, .element ⟨"li", [], [.text "two"]⟩]⟩,
      .text "caption" ]⟩

/-- An address written in digits. -/
def digits (address : List Nat) : String :=
  String.ofList (address.map Nat.digitChar)

/-- The nodes of `captionedList` with the first item in front of the list. -/
def captionedElements : List Element :=
  [ ⟨"", "AbsoluteFill", none, [], some "caption"⟩,
    ⟨"00", "li", some "0", [], some "one"⟩,
    ⟨"0", "ul", some "", [], none⟩,
    ⟨"01", "li", some "0", [], some "two"⟩ ]

theorem isArrangement_captionedElements :
    IsArrangement captionedElements (captionedList.listing digits none []) where
  perm := (List.Perm.swap _ _ _).cons _
  root_first := rfl
  siblings := fun id => by
    have listed : captionedList.listing digits none [] =
        [ ⟨"", "AbsoluteFill", none, [], some "caption"⟩,
          ⟨"0", "ul", some "", [], none⟩,
          ⟨"00", "li", some "0", [], some "one"⟩,
          ⟨"01", "li", some "0", [], some "two"⟩ ] := rfl
    rw [listed]
    by_cases isList : id = "0"
    · subst isList
      rfl
    · simp [captionedElements, Element.childrenOf, List.filter_cons, Ne.symm isList]

/-- The captioned list comes back although an item is listed before its list. -/
theorem ofElements_captionedElements :
    captionedList.TextLast ∧
      ((captionedList.listing digits none []).map Element.id).Nodup ∧
      IsArrangement captionedElements (captionedList.listing digits none []) ∧
      Tree.ofElements captionedElements = .ok captionedList := by
  have textLast : captionedList.TextLast := by
    simp [captionedList, TextLast, TextLastOf]
  have distinct : ((captionedList.listing digits none []).map Element.id).Nodup := by
    decide
  exact ⟨textLast, distinct, isArrangement_captionedElements,
    ofElements_of_isArrangement textLast distinct isArrangement_captionedElements⟩

end Tree
end Montage
