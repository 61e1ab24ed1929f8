import Mathlib.Data.List.Forall2
import Montage.Element.Description

/-!
# Reading a batch of descriptions

A batch is read from its first description to its last.  It is accepted when each of its
descriptions is, and then the elements are those of the descriptions, in order.
Otherwise the first description that is refused is reported, with its position and the
cause (`Element.IsFirstRefused`).

Every element that is read from a description has a parent, and never the word for no
parent (`Element.exists_parent_of_ofDescription`).
-/

namespace Montage

/-! ## Computations that may fail -/

section Failing

variable {ε α β : Type}

theorem bind_eq_ok_iff
    {first : Except ε α}
    {next : α → Except ε β}
    {result : β} :
    first >>= next = .ok result ↔ ∃ value, first = .ok value ∧ next value = .ok result := by
  cases first <;> simp [bind, Except.bind]

theorem pure_eq_ok_iff {value result : α} :
    (pure value : Except ε α) = .ok result ↔ value = result := by
  simp [pure, Except.pure]

end Failing

/-! ## Lists related entry by entry -/

section Related

variable {α β : Type} {related : α → β → Prop} {inputs : List α} {outputs : List β}

/-- Every output has an input that it is related to. -/
theorem exists_mem_of_forall₂
    (areRelated : List.Forall₂ related inputs outputs)
    {output : β}
    (member : output ∈ outputs) :
    ∃ input ∈ inputs, related input output := by
  induction areRelated with
  | nil => cases member
  | @cons input first others rest isRelated _ inductionHypothesis =>
      rcases List.mem_cons.mp member with rfl | later
      · exact ⟨input, List.mem_cons_self, isRelated⟩
      · obtain ⟨other, otherMember, otherRelated⟩ := inductionHypothesis later
        exact ⟨other, List.mem_cons_of_mem _ otherMember, otherRelated⟩

/-- Where each input determines its output, the inputs determine the outputs. -/
theorem forall₂_iff_eq_map
    {function : α → β}
    (determined : ∀ input ∈ inputs, ∀ output, related input output ↔ output = function input) :
    List.Forall₂ related inputs outputs ↔ outputs = inputs.map function := by
  induction inputs generalizing outputs with
  | nil => simp
  | cons input rest inductionHypothesis =>
      obtain ⟨first, others⟩ := List.forall_mem_cons.mp determined
      simp [List.forall₂_cons_left_iff, first, inductionHypothesis others]

end Related

namespace Element

/-! ## Single descriptions -/

theorem read_eq_ok_iff
    {index : Nat}
    {source : String}
    {element : Element} :
    read index source = .ok element ↔ ofDescription source.toList = .ok element := by
  unfold read
  cases ofDescription source.toList with
  | ok made => simp
  | error fault => simp

theorem readAll_singleton
    {source : List Char}
    {element : Element}
    (read : ofDescription source = .ok element) :
    readAll [String.ofList source] = .ok [element] := by
  have first : Element.read 0 (String.ofList source) = .ok element := by
    rwa [read_eq_ok_iff, String.toList_ofList]
  simp [readAll, readFrom, first, bind_eq_ok_iff]

/-! ## Drafts -/

namespace Draft

/-- What a segment can do to a draft: it names the identifier, the parent or the text, or
it gives another property that can be read. -/
theorem cases_of_add
    {draft next : Draft}
    {key value : List Char}
    (added : draft.add (key, value) = .ok next) :
    String.ofList key = "id" ∧ next = { draft with id := some (String.ofList value) } ∨
      String.ofList key = "parent" ∧
        next = { draft with parent := some (parentOf (String.ofList value)) } ∨
      String.ofList key = "text" ∧
        next = { draft with
          text := some (String.ofList value)
          props := draft.props.insert "text" (.constant (.text (String.ofList value))) } ∨
      String.ofList key ∉ ["id", "parent", "text"] ∧
        ∃ property, Property.read (String.ofList key) value = .ok property ∧
          next = { draft with props := draft.props.insert (String.ofList key) property } := by
  unfold add at added
  simp only at added
  split at added
  · next isId =>
      cases added
      exact Or.inl ⟨isId, rfl⟩
  · next notId =>
      split at added
      · next isParent =>
          cases added
          exact Or.inr (Or.inl ⟨isParent, rfl⟩)
      · next notParent =>
          split at added
          · next isText =>
              cases added
              exact Or.inr (Or.inr (Or.inl ⟨isText, rfl⟩))
          · next notText =>
              simp only [bind_eq_ok_iff, pure_eq_ok_iff] at added
              obtain ⟨property, read, rfl⟩ := added
              have other : String.ofList key ∉ ["id", "parent", "text"] := by
                simp [notId, notParent, notText]
              exact Or.inr (Or.inr (Or.inr ⟨other, property, read, rfl⟩))

/-- Whatever every segment keeps, all segments keep. -/
theorem foldlM_add_induction
    {Kept : Draft → Prop}
    (step : ∀ {draft next segment}, Kept draft → draft.add segment = .ok next → Kept next)
    {segments : List (List Char × List Char)}
    {draft last : Draft}
    (start : Kept draft)
    (added : segments.foldlM add draft = .ok last) :
    Kept last := by
  induction segments generalizing draft with
  | nil =>
      cases added
      exact start
  | cons segment rest inductionHypothesis =>
      rw [List.foldlM_cons, bind_eq_ok_iff] at added
      obtain ⟨next, first, others⟩ := added
      exact inductionHypothesis (step start first) others

/-! ## Parents -/

/-- No parent that has been named is the word for no parent. -/
def NamesParent (draft : Draft) : Prop :=
  ∀ parent, draft.parent = some parent → parent ≠ nullWord

theorem parentOf_ne_nullWord (value : String) : parentOf value ≠ nullWord := by
  unfold parentOf
  split
  · decide
  · assumption

theorem namesParent_add
    {draft next : Draft}
    {segment : List Char × List Char}
    (names : draft.NamesParent)
    (added : draft.add segment = .ok next) :
    next.NamesParent := by
  obtain ⟨-, rfl⟩ | ⟨-, rfl⟩ | ⟨-, rfl⟩ | ⟨-, property, -, rfl⟩ := cases_of_add added
  · exact names
  · rintro parent ⟨⟩
    exact parentOf_ne_nullWord _
  · exact names
  · exact names

end Draft

/-- An accepted description has been gathered into a draft, which was then finished. -/
theorem exists_draft_of_ofDescription
    {source : List Char}
    {element : Element}
    (read : ofDescription source = .ok element) :
    ∃ (segments : List (List Char × List Char)) (draft : Draft) (id : String),
      segments.foldlM Draft.add {} = .ok draft ∧ draft.id = some id ∧
        element.id = id ∧ element.parent = some (draft.parent.getD rootId) ∧
          element.props = draft.props ∧ element.text = draft.text := by
  unfold ofDescription at read
  split at read
  · cases read
  · next first segments split =>
      simp only at read
      split at read
      · cases read
      · obtain ⟨draft, folded, finished⟩ := bind_eq_ok_iff.mp read
        unfold Draft.finish at finished
        split at finished
        · cases finished
        · next id identified =>
            cases finished
            exact ⟨_, draft, id, folded, identified, rfl, rfl, rfl, rfl⟩

/-- An element that is read from a description names a parent, and never the word for
no parent. -/
theorem exists_parent_of_ofDescription
    {source : List Char}
    {element : Element}
    (read : ofDescription source = .ok element) :
    ∃ parent, element.parent = some parent ∧ parent ≠ nullWord := by
  obtain ⟨segments, draft, id, folded, -, -, named, -⟩ := exists_draft_of_ofDescription read
  have names : draft.NamesParent :=
    Draft.foldlM_add_induction Draft.namesParent_add (fun parent none => by cases none) folded
  refine ⟨_, named, ?_⟩
  cases given : draft.parent with
  | none => simp [rootId, nullWord]
  | some parent => simpa [given] using names parent given

/-- An element that names another parent than the word for no parent is a candidate for
the root only by its identifier. -/
theorem isRootCandidate_iff_of_parent
    {element : Element}
    {parent : String}
    (named : element.parent = some parent)
    (isParent : parent ≠ nullWord) :
    element.isRootCandidate = true ↔ element.id = rootId := by
  simp [isRootCandidate, named, isParent]

/-! ## Batches -/

/-- The description at a position is refused, and every description before it is
accepted. -/
structure IsFirstRefused
    (sources : List String)
    (index : Nat)
    (source : String)
    (fault : Fault) : Prop where
  /-- The description stands at the position. -/
  stands : sources[index]? = some source
  /-- It is refused for this cause. -/
  refused : ofDescription source.toList = .error fault
  /-- Every earlier one is accepted. -/
  earlier_accepted : ∀ position < index, ∀ earlier, sources[position]? = some earlier →
    ∃ element, ofDescription earlier.toList = .ok element

theorem isFirstRefused_cons_of_error
    {source : String}
    {rest : List String}
    {fault : Fault}
    (refused : ofDescription source.toList = .error fault)
    {index : Nat}
    {other : String}
    {otherFault : Fault} :
    IsFirstRefused (source :: rest) index other otherFault ↔
      index = 0 ∧ other = source ∧ otherFault = fault := by
  constructor
  · intro first
    cases index with
    | zero =>
        obtain rfl := Option.some.inj first.stands
        exact ⟨rfl, rfl, Except.error.inj (first.refused.symm.trans refused)⟩
    | succ index =>
        obtain ⟨element, accepted⟩ :=
          first.earlier_accepted 0 (Nat.succ_pos _) source rfl
        rw [refused] at accepted
        cases accepted
  · rintro ⟨rfl, rfl, rfl⟩
    exact ⟨rfl, refused, fun position below => absurd below (Nat.not_lt_zero _)⟩

theorem isFirstRefused_cons_of_ok
    {source : String}
    {rest : List String}
    {element : Element}
    (accepted : ofDescription source.toList = .ok element)
    {index : Nat}
    {other : String}
    {fault : Fault} :
    IsFirstRefused (source :: rest) index other fault ↔
      ∃ later, index = later + 1 ∧ IsFirstRefused rest later other fault := by
  constructor
  · intro first
    cases index with
    | zero =>
        obtain rfl := Option.some.inj first.stands
        have refused := first.refused
        rw [accepted] at refused
        cases refused
    | succ later =>
        refine ⟨later, rfl, first.stands, first.refused, ?_⟩
        intro position below earlier stands
        exact first.earlier_accepted (position + 1) (Nat.succ_lt_succ below) earlier stands
  · rintro ⟨later, rfl, first⟩
    refine ⟨first.stands, first.refused, ?_⟩
    intro position below earlier stands
    cases position with
    | zero =>
        obtain rfl := Option.some.inj stands
        exact ⟨element, accepted⟩
    | succ position =>
        exact first.earlier_accepted position (Nat.lt_of_succ_lt_succ below) earlier stands

theorem readFrom_cons_of_error
    {index : Nat}
    {source : String}
    {rest : List String}
    {fault : Fault}
    (refused : ofDescription source.toList = .error fault) :
    readFrom index (source :: rest) = .error (.element index source fault) := by
  simp [readFrom, read, refused, bind, Except.bind]

theorem readFrom_cons_of_ok
    {index : Nat}
    {source : String}
    {rest : List String}
    {element : Element}
    (accepted : ofDescription source.toList = .ok element) :
    readFrom index (source :: rest) =
      (readFrom (index + 1) rest).map fun others => element :: others := by
  simp only [readFrom, read, accepted, bind, Except.bind, pure, Except.pure]
  cases readFrom (index + 1) rest <;> rfl

/-- Reading gives the elements of the descriptions in order, when all are accepted. -/
theorem readFrom_eq_ok_iff
    {index : Nat}
    {sources : List String}
    {elements : List Element} :
    readFrom index sources = .ok elements ↔
      List.Forall₂ (fun source element => ofDescription source.toList = .ok element)
        sources elements := by
  induction sources generalizing index elements with
  | nil => simp [readFrom, eq_comm]
  | cons source rest inductionHypothesis =>
      cases described : ofDescription source.toList with
      | error fault =>
          simp [readFrom_cons_of_error described, described, List.forall₂_cons_left_iff]
      | ok element =>
          rw [readFrom_cons_of_ok described, List.forall₂_cons_left_iff]
          constructor
          · intro made
            cases others : readFrom (index + 1) rest with
            | error error => simp [others, Except.map] at made
            | ok later =>
                simp only [others, Except.map, Except.ok.injEq] at made
                exact ⟨element, later, described, inductionHypothesis.mp others, made.symm⟩
          · rintro ⟨first, later, same, others, rfl⟩
            obtain rfl := Except.ok.inj (described.symm.trans same)
            rw [inductionHypothesis.mpr others]
            rfl

/-- Reading succeeds exactly when every description is accepted at its position. -/
theorem exists_readFrom_iff
    {start : Nat}
    {sources : List String} :
    (∃ elements, readFrom start sources = .ok elements) ↔
      ∀ index source, sources[index]? = some source →
        ∃ element, read index source = .ok element := by
  simp only [readFrom_eq_ok_iff, read_eq_ok_iff]
  induction sources with
  | nil => simp
  | cons source rest inductionHypothesis =>
      constructor
      · rintro ⟨_, _ | ⟨first, others⟩⟩ index other stands
        cases index with
        | zero =>
            obtain rfl := Option.some.inj stands
            exact ⟨_, first⟩
        | succ index => exact inductionHypothesis.mp ⟨_, others⟩ index other stands
      · intro accepted
        obtain ⟨element, first⟩ := accepted 0 source rfl
        obtain ⟨elements, others⟩ := inductionHypothesis.mpr fun index other stands =>
          accepted (index + 1) other stands
        exact ⟨element :: elements, .cons first others⟩

/-- Reading fails with the first refusal, and in no other way. -/
theorem readFrom_eq_error_iff
    {start : Nat}
    {sources : List String}
    {error : Error} :
    readFrom start sources = .error error ↔
      ∃ index source fault, IsFirstRefused sources index source fault ∧
        error = .element (start + index) source fault := by
  induction sources generalizing start with
  | nil =>
      simp only [readFrom, reduceCtorEq, false_iff]
      rintro ⟨index, source, fault, first, -⟩
      have stands := first.stands
      simp at stands
  | cons source rest inductionHypothesis =>
      cases described : ofDescription source.toList with
      | error fault =>
          rw [readFrom_cons_of_error described]
          simp only [isFirstRefused_cons_of_error described]
          constructor
          · intro same
            exact ⟨0, source, fault, ⟨rfl, rfl, rfl⟩, (Except.error.inj same).symm⟩
          · rintro ⟨_, _, _, ⟨rfl, rfl, rfl⟩, rfl⟩
            rfl
      | ok element =>
          have mapped : readFrom start (source :: rest) = .error error ↔
              readFrom (start + 1) rest = .error error := by
            rw [readFrom_cons_of_ok described]
            cases readFrom (start + 1) rest <;> simp [Except.map]
          rw [mapped, inductionHypothesis]
          simp only [isFirstRefused_cons_of_ok described]
          constructor
          · rintro ⟨index, other, fault, first, rfl⟩
            exact ⟨index + 1, other, fault, ⟨index, rfl, first⟩, by congr 1; omega⟩
          · rintro ⟨_, other, fault, ⟨index, rfl, first⟩, rfl⟩
            exact ⟨index, other, fault, first, by congr 1; omega⟩

/-- Every element of a batch that is read belongs to an accepted description. -/
theorem exists_source_of_mem_readAll
    {sources : List String}
    {elements : List Element}
    (made : readAll sources = .ok elements)
    {element : Element}
    (member : element ∈ elements) :
    ∃ source ∈ sources, ofDescription source.toList = .ok element :=
  exists_mem_of_forall₂ (readFrom_eq_ok_iff.mp made) member

end Element
end Montage
