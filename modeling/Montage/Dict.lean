/-!
# Dictionaries in key order

A dictionary is a list of entries whose keys ascend strictly, in code-point order.
The order is part of what the library shows: properties are sampled and written in
it.  Since the form is canonical, equal dictionaries are equal lists.
-/

namespace Montage

/-- Entries with their keys. -/
abbrev Dict (α : Type) := List (String × α)

namespace Dict

variable {α β : Type}

/-- The keys ascend strictly. -/
def Ordered (entries : Dict α) : Prop :=
  entries.Pairwise fun earlier later => earlier.1 < later.1

/-- The value stored under a key. -/
def find? (key : String) : Dict α → Option α
  | [] => none
  | (held, value) :: rest => if held = key then some value else find? key rest

/-- Stores a value under a key, in place of any earlier one. -/
def insert
    (key : String)
    (value : α) : Dict α → Dict α
  | [] => [(key, value)]
  | (held, old) :: rest =>
      if key < held then (key, value) :: (held, old) :: rest
      else if key = held then (key, value) :: rest
      else (held, old) :: insert key value rest

/-- The dictionary of a list of entries; of several entries with one key the last
one counts. -/
def ofList (entries : List (String × α)) : Dict α :=
  entries.foldl (fun dict entry => insert entry.1 entry.2 dict) []

@[simp] theorem find?_nil (key : String) : find? key ([] : Dict α) = none := rfl

@[simp] theorem ordered_nil : Ordered ([] : Dict α) := List.Pairwise.nil

/-- A stored value is found again. -/
@[simp] theorem find?_insert_self
    (key : String)
    (value : α)
    (entries : Dict α) :
    find? key (insert key value entries) = some value := by
  induction entries with
  | nil => simp [insert, find?]
  | cons entry rest inductionHypothesis =>
      obtain ⟨held, old⟩ := entry
      rw [insert]
      split
      · simp [find?]
      · split
        · simp [find?]
        · next different =>
            simp [find?, Ne.symm different, inductionHypothesis]

/-- Storing under one key leaves every other key as it was. -/
theorem find?_insert_of_ne
    {key other : String}
    (different : other ≠ key)
    (value : α)
    (entries : Dict α) :
    find? other (insert key value entries) = find? other entries := by
  induction entries with
  | nil => simp [insert, find?, Ne.symm different]
  | cons entry rest inductionHypothesis =>
      obtain ⟨held, old⟩ := entry
      rw [insert]
      split
      · simp [find?, Ne.symm different]
      · split
        · next same => subst same; simp [find?, Ne.symm different]
        · simp [find?, inductionHypothesis]

/-- Storing adds no key but the stored one. -/
theorem mem_keys_of_mem_insert
    {key : String}
    {value : α}
    {entries : Dict α}
    {entry : String × α}
    (member : entry ∈ insert key value entries) :
    entry.1 = key ∨ ∃ old ∈ entries, old.1 = entry.1 := by
  induction entries with
  | nil =>
      rw [insert, List.mem_singleton] at member
      exact Or.inl (by rw [member])
  | cons first rest inductionHypothesis =>
      obtain ⟨held, old⟩ := first
      rw [insert] at member
      split at member
      · rcases List.mem_cons.mp member with same | later
        · exact Or.inl (by rw [same])
        · exact Or.inr ⟨entry, later, rfl⟩
      · split at member
        · rcases List.mem_cons.mp member with same | later
          · exact Or.inl (by rw [same])
          · exact Or.inr ⟨entry, List.mem_cons_of_mem _ later, rfl⟩
        · rcases List.mem_cons.mp member with same | later
          · exact Or.inr ⟨entry, by rw [same]; exact List.mem_cons_self, rfl⟩
          · rcases inductionHypothesis later with found | ⟨other, inRest, sameKey⟩
            · exact Or.inl found
            · exact Or.inr ⟨other, List.mem_cons_of_mem _ inRest, sameKey⟩

/-- Storing keeps the keys in order. -/
theorem ordered_insert
    (key : String)
    (value : α)
    {entries : Dict α}
    (ordered : Ordered entries) :
    Ordered (insert key value entries) := by
  induction entries with
  | nil => exact List.pairwise_singleton _ _
  | cons first rest inductionHypothesis =>
      obtain ⟨held, old⟩ := first
      obtain ⟨headBelow, restOrdered⟩ := List.pairwise_cons.mp ordered
      rw [insert]
      split
      · next below =>
          refine List.pairwise_cons.mpr ⟨?_, ordered⟩
          intro entry member
          rcases List.mem_cons.mp member with same | later
          · rw [same]
            exact below
          · exact String.lt_trans below (headBelow entry later)
      · next notBelow =>
          split
          · next same =>
              subst same
              exact List.pairwise_cons.mpr ⟨headBelow, restOrdered⟩
          · next different =>
              have above : held < key := by
                apply Classical.byContradiction
                intro notAbove
                exact different
                  (String.le_antisymm (String.not_lt.mp notAbove)
                    (String.not_lt.mp notBelow))
              refine List.pairwise_cons.mpr
                ⟨?_, inductionHypothesis restOrdered⟩
              intro entry member
              rcases mem_keys_of_mem_insert member with same | ⟨other, inRest, sameKey⟩
              · rw [same]
                exact above
              · rw [← sameKey]
                exact headBelow other inRest

/-- The keys of a dictionary made from a list of entries are in order. -/
theorem ordered_ofList (entries : List (String × α)) : Ordered (ofList entries) := by
  have kept : ∀ (dict : Dict α), Ordered dict →
      Ordered (entries.foldl (fun dict entry => insert entry.1 entry.2 dict) dict) := by
    induction entries with
    | nil => exact fun _ ordered => ordered
    | cons entry rest inductionHypothesis =>
        intro dict ordered
        exact inductionHypothesis _ (ordered_insert entry.1 entry.2 ordered)
  exact kept [] ordered_nil

theorem insert_of_forall_lt
    {key : String}
    (value : α)
    {entries : Dict α}
    (below : ∀ entry ∈ entries, entry.1 < key) :
    insert key value entries = entries ++ [(key, value)] := by
  induction entries with
  | nil => rfl
  | cons entry rest inductionHypothesis =>
      obtain ⟨held, old⟩ := entry
      have heldBelow : held < key := below _ List.mem_cons_self
      have notBelow : ¬ key < held := String.lt_asymm heldBelow
      have different : key ≠ held := by
        rintro rfl
        exact String.lt_irrefl key heldBelow
      rw [insert, if_neg notBelow, if_neg different, List.cons_append,
        inductionHypothesis fun other member => below other (List.mem_cons_of_mem _ member)]

/-- Entries in key order are a dictionary as they stand. -/
theorem ofList_of_ordered
    {entries : Dict α}
    (ordered : Ordered entries) :
    ofList entries = entries := by
  have grown : ∀ (front back : Dict α), Ordered (front ++ back) →
      back.foldl (fun dict entry => insert entry.1 entry.2 dict) front = front ++ back := by
    intro front back
    induction back generalizing front with
    | nil => simp
    | cons entry rest inductionHypothesis =>
        intro inOrder
        have below : ∀ other ∈ front, other.1 < entry.1 := fun other member =>
          (List.pairwise_append.mp inOrder).2.2 other member entry List.mem_cons_self
        rw [List.foldl_cons, insert_of_forall_lt entry.2 below, inductionHypothesis]
        · simp
        · simpa using inOrder
  exact grown [] entries ordered

theorem mem_of_mem_insert
    {key : String}
    {value : α}
    {entries : Dict α}
    {entry : String × α}
    (member : entry ∈ insert key value entries) :
    entry = (key, value) ∨ entry ∈ entries := by
  induction entries with
  | nil => exact Or.inl (List.mem_singleton.mp member)
  | cons first rest inductionHypothesis =>
      obtain ⟨held, old⟩ := first
      rw [insert] at member
      split at member
      · exact List.mem_cons.mp member
      · split at member
        · rcases List.mem_cons.mp member with same | later
          · exact Or.inl same
          · exact Or.inr (List.mem_cons_of_mem _ later)
        · rcases List.mem_cons.mp member with same | later
          · exact Or.inr (same ▸ List.mem_cons_self)
          · rcases inductionHypothesis later with same | older
            · exact Or.inl same
            · exact Or.inr (List.mem_cons_of_mem _ older)

/-- A dictionary made from a list has no entries but those of the list. -/
theorem mem_of_mem_ofList
    {entries : List (String × α)}
    {entry : String × α}
    (member : entry ∈ ofList entries) :
    entry ∈ entries := by
  have kept : ∀ (added : List (String × α)) (dict : Dict α),
      entry ∈ added.foldl (fun dict entry => insert entry.1 entry.2 dict) dict →
        entry ∈ dict ∨ entry ∈ added := by
    intro added
    induction added with
    | nil => exact fun dict found => Or.inl found
    | cons first rest inductionHypothesis =>
        intro dict found
        rcases inductionHypothesis _ found with inDict | inRest
        · rcases mem_of_mem_insert inDict with same | older
          · exact Or.inr (same ▸ List.mem_cons_self)
          · exact Or.inl older
        · exact Or.inr (List.mem_cons_of_mem _ inRest)
  rcases kept entries [] member with impossible | found
  · cases impossible
  · exact found

/-! ## Equality by lookup -/

theorem find?_eq_none_of_forall_lt
    {key : String}
    {entries : Dict α}
    (above : ∀ entry ∈ entries, key < entry.1) :
    find? key entries = none := by
  induction entries with
  | nil => rfl
  | cons entry rest inductionHypothesis =>
      obtain ⟨held, value⟩ := entry
      have different : held ≠ key := by
        rintro rfl
        exact String.lt_irrefl held (above _ List.mem_cons_self)
      rw [find?, if_neg different,
        inductionHypothesis fun other member => above other (List.mem_cons_of_mem _ member)]

/-- The first key of a dictionary is not found in another one whose keys are all
greater. -/
theorem not_lt_of_find?_eq
    {key held : String}
    {value old : α}
    {front back : Dict α}
    (ordered : Ordered ((held, old) :: back))
    (same : find? key ((key, value) :: front) = find? key ((held, old) :: back)) :
    ¬ key < held := by
  intro below
  have absent : find? key ((held, old) :: back) = none := by
    apply find?_eq_none_of_forall_lt
    intro entry member
    rcases List.mem_cons.mp member with rfl | later
    · exact below
    · exact String.lt_trans below ((List.pairwise_cons.mp ordered).1 entry later)
  rw [absent, find?, if_pos rfl] at same
  cases same

/-- Dictionaries in which the same is found under every key are equal. -/
theorem eq_of_find?_eq
    {first second : Dict α}
    (firstOrdered : Ordered first)
    (secondOrdered : Ordered second)
    (same : ∀ key, find? key first = find? key second) :
    first = second := by
  induction first generalizing second with
  | nil =>
      cases second with
      | nil => rfl
      | cons entry rest =>
          have found := same entry.1
          simp [find?] at found
  | cons entry rest inductionHypothesis =>
      obtain ⟨key, value⟩ := entry
      cases second with
      | nil =>
          have found := same key
          simp [find?] at found
      | cons other others =>
          obtain ⟨held, old⟩ := other
          obtain rfl : key = held :=
            String.le_antisymm
              (String.not_lt.mp (not_lt_of_find?_eq firstOrdered (same held).symm))
              (String.not_lt.mp (not_lt_of_find?_eq secondOrdered (same key)))
          obtain rfl : value = old := by
            have found := same key
            simpa [find?] using found
          obtain ⟨headBelow, restOrdered⟩ := List.pairwise_cons.mp firstOrdered
          obtain ⟨otherBelow, othersOrdered⟩ := List.pairwise_cons.mp secondOrdered
          have sameRest : ∀ sought, find? sought rest = find? sought others := by
            intro sought
            by_cases isKey : key = sought
            · subst isKey
              rw [find?_eq_none_of_forall_lt headBelow, find?_eq_none_of_forall_lt otherBelow]
            · have found := same sought
              simpa [find?, isKey] using found
          rw [inductionHypothesis restOrdered othersOrdered sameRest]

end Dict
end Montage
