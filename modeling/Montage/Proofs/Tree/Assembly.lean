import Montage.Cache
import Montage.Proofs.Element.Batches

/-!
# From descriptions to a tree: the only way to fail

Nesting never fails on a batch that was read from descriptions, since the library's own
root stands in front of it and is the first element that can be a root.  So the tree of
descriptions exists exactly when every description is accepted, and otherwise the error
is that of the first refused one.  No description can take the place of the library's
root: the root of the tree has its name, no properties and no text, even where a
description claims the identifier of the root.
-/

namespace Montage

open Element (IsFirstRefused)

/-! ## The library's root -/

theorem Outline.text?_of_mem_toChildren
    {outlines : List Outline}
    {child : Child Tree}
    (member : child ∈ toChildren outlines) :
    child.text? = none := by
  induction outlines with
  | nil =>
      rw [toChildren] at member
      cases member
  | cons outline rest inductionHypothesis =>
      rw [toChildren] at member
      rcases List.mem_cons.mp member with rfl | later
      · rfl
      · exact inductionHypothesis later

/-- The library's root is the root of every batch that it stands in front of. -/
theorem Outline.root?_ofElements (callers : List Element) :
    root? (Batch.ofElements callers).elements = some ⟨0, Element.root⟩ :=
  root?_cons rfl callers

/-- A batch with the library's root in front has a tree, and its root shows nothing but
the nodes below it. -/
theorem Tree.exists_ofElements_ofElements (callers : List Element) :
    ∃ children : List (Child Tree),
      Tree.ofElements (Batch.ofElements callers).elements =
          .ok ⟨Element.rootName, [], children⟩ ∧
        ∀ child ∈ children, child.text? = none := by
  have built := Tree.ofElements_of_ofElements?
    (Outline.ofElements?_of_root? (Outline.root?_ofElements callers))
  have positive : (Batch.ofElements callers).elements.length = callers.length + 1 := rfl
  rw [positive, Outline.grow, Outline.toTree] at built
  refine ⟨_, built, fun child member => ?_⟩
  rw [show Outline.ownText Element.root = [] from rfl, List.append_nil] at member
  exact Outline.text?_of_mem_toChildren member

/-! ## The whole way -/

namespace Tree

theorem ofDescriptions_of_readAll
    {sources : List String}
    {elements : List Element}
    (made : Element.readAll sources = .ok elements) :
    ofDescriptions sources = Tree.ofElements (Batch.ofElements elements).elements := by
  simp [ofDescriptions, Batch.read, made, Except.map, bind, Except.bind]

theorem ofDescriptions_of_readAll_error
    {sources : List String}
    {error : Error}
    (refused : Element.readAll sources = .error error) :
    ofDescriptions sources = .error error := by
  simp [ofDescriptions, Batch.read, refused, Except.map, bind, Except.bind]

/-- Descriptions have a tree exactly when they can be read. -/
theorem exists_ofDescriptions_iff
    {sources : List String} :
    (∃ tree, ofDescriptions sources = .ok tree) ↔
      ∃ elements, Element.readAll sources = .ok elements := by
  cases made : Element.readAll sources with
  | error error => simp [ofDescriptions_of_readAll_error made]
  | ok elements =>
      obtain ⟨children, built, -⟩ := exists_ofElements_ofElements elements
      simp [ofDescriptions_of_readAll made, built]

/-- Descriptions that have no tree have an element that cannot be read. -/
theorem ofDescriptions_eq_error_iff
    {sources : List String}
    {error : Error} :
    ofDescriptions sources = .error error ↔ Element.readAll sources = .error error := by
  cases made : Element.readAll sources with
  | error other => simp [ofDescriptions_of_readAll_error made]
  | ok elements =>
      obtain ⟨children, built, -⟩ := exists_ofElements_ofElements elements
      simp [ofDescriptions_of_readAll made, built]

theorem exists_children_of_ofDescriptions
    {sources : List String}
    {tree : Tree}
    (built : ofDescriptions sources = .ok tree) :
    tree.name = Element.rootName ∧ tree.props = [] ∧
      ∀ child ∈ tree.children, child.text? = none := by
  obtain ⟨elements, made⟩ := exists_ofDescriptions_iff.mp ⟨tree, built⟩
  obtain ⟨children, same, noText⟩ := exists_ofElements_ofElements elements
  rw [ofDescriptions_of_readAll made] at built
  obtain rfl := Except.ok.inj (same.symm.trans built)
  exact ⟨rfl, rfl, noText⟩

end Tree

/-- A lookup that is not answered from the entries gives what building gives. -/
theorem Cache.fst_fetch_of_lookup_eq_none
    {cache : Cache}
    {sources : List String}
    (absent : cache.entries.lookup (Digest.ofBatch sources) = none) :
    (cache.fetch sources).1 = Tree.ofDescriptions sources := by
  cases built : Tree.ofDescriptions sources with
  | error error => rw [fetch_of_error absent built]
  | ok tree => rw [fetch_of_ok absent built]

/-- Descriptions have a tree, whether it is built directly or through a cache that does
not keep it yet, exactly when each of them is accepted at its position; otherwise the
error is that of the first refused one, with its position and its text.  The elements of
accepted descriptions name a parent other than the word for none, so that only the
identifier of the root makes them candidates; the first candidate is the library's own
root, and the root of the tree has its name, no properties and no text. -/
theorem ofDescriptions_fails_only_at_the_first_refused (sources : List String) :
    ((∃ tree, Tree.ofDescriptions sources = .ok tree) ↔
      ∀ index source, sources[index]? = some source →
        ∃ element, Element.read index source = .ok element) ∧
    (∀ error, Tree.ofDescriptions sources = .error error ↔
      ∃ index source fault, IsFirstRefused sources index source fault ∧
        error = .element index source fault) ∧
    (∀ cache : Cache, cache.entries.lookup (Digest.ofBatch sources) = none →
      (cache.fetch sources).1 = Tree.ofDescriptions sources ∧
        ∀ instant, (cache.frameAt sources instant).1 =
          (Tree.ofDescriptions sources).map fun tree =>
            Id.run (tree.sample (Sampler.standingAt instant))) ∧
    (∀ elements, Element.readAll sources = .ok elements →
      Outline.root? (Batch.ofElements elements).elements = some ⟨0, Element.root⟩ ∧
        ∀ element ∈ elements,
          (∃ parent, element.parent = some parent ∧ parent ≠ Element.nullWord) ∧
            (element.isRootCandidate = true ↔ element.id = Element.rootId)) ∧
    ∀ tree, Tree.ofDescriptions sources = .ok tree →
      tree.name = Element.rootName ∧ tree.props = [] ∧
        ∀ child ∈ tree.children, child.text? = none := by
  refine ⟨?_, fun error => ?_, fun cache absent => ?_, fun elements made => ?_,
    fun tree => Tree.exists_children_of_ofDescriptions⟩
  · rw [Tree.exists_ofDescriptions_iff, Element.readAll, Element.exists_readFrom_iff]
  · rw [Tree.ofDescriptions_eq_error_iff, Element.readAll, Element.readFrom_eq_error_iff]
    simp only [Nat.zero_add]
  · have fetched := Cache.fst_fetch_of_lookup_eq_none absent
    refine ⟨fetched, fun instant => ?_⟩
    rw [← fetched]
    rfl
  · refine ⟨Outline.root?_ofElements elements, fun element member => ?_⟩
    obtain ⟨source, -, accepted⟩ := Element.exists_source_of_mem_readAll made member
    obtain ⟨parent, named, isParent⟩ := Element.exists_parent_of_ofDescription accepted
    exact ⟨⟨parent, named, isParent⟩,
      Element.isRootCandidate_iff_of_parent named isParent⟩

/-- A batch whose second and third descriptions are refused. -/
def refusedTwice : List String :=
  ["div;id:a", "div;x:1", ";id:b"]

/-- A batch that claims the identifier of the root, with a property and a text. -/
def rootClaimed : List String :=
  ["div;id:root;x:1;text:mine", "p;id:a;parent:null"]

/-- The first of two refusals is reported, and a claimed root stays below the library's
own. -/
theorem ofDescriptions_refusedTwice_and_rootClaimed :
    (IsFirstRefused refusedTwice 1 "div;x:1" (.missingId "div") ∧
      Tree.ofDescriptions refusedTwice =
        .error (.element 1 "div;x:1" (.missingId "div"))) ∧
    ∃ tree, Tree.ofDescriptions rootClaimed = .ok tree ∧
      tree.name = "AbsoluteFill" ∧ tree.props = [] ∧
        ∀ child ∈ tree.children, child.text? = none := by
  have refused : IsFirstRefused refusedTwice 1 "div;x:1" (.missingId "div") := by
    refine ⟨rfl, rfl, fun position below earlier stands => ?_⟩
    obtain rfl : position = 0 := by omega
    obtain rfl := Option.some.inj stands
    exact ⟨_, rfl⟩
  refine ⟨⟨refused, ?_⟩, ?_⟩
  · exact ((ofDescriptions_fails_only_at_the_first_refused refusedTwice).2.1 _).mpr
      ⟨1, _, _, refused, rfl⟩
  · obtain ⟨tree, built⟩ : ∃ tree, Tree.ofDescriptions rootClaimed = .ok tree := ⟨_, rfl⟩
    exact ⟨tree, built,
      (ofDescriptions_fails_only_at_the_first_refused rootClaimed).2.2.2.2 tree built⟩

end Montage
