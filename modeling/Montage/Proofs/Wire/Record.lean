import Montage.Proofs.Json.Numbers
import Montage.Proofs.Json.Rereading

/-!
# Records that are written come back

A record is written with each of its fields under a key of its own, so that reading finds
every field that was written and no other.  The numbers in it come back as far as the
numerals do: whether a single number survives being written and read is a matter of the
numerals alone, and everything here is relative to it.
-/

namespace Montage

/-! ## Lists -/

section Lists

variable {α β : Type}

theorem exists_of_mem_of_mapM
    {decode : α → Option β}
    {items : List α}
    {values : List β}
    (read : items.mapM decode = some values)
    {value : β}
    (member : value ∈ values) :
    ∃ item ∈ items, decode item = some value := by
  induction items generalizing values with
  | nil =>
      cases read
      cases member
  | cons item rest inductionHypothesis =>
      simp only [List.mapM_cons, Option.bind_eq_bind, Option.bind_eq_some_iff,
        Option.pure_def, Option.some.injEq] at read
      obtain ⟨first, here, others, later, rfl⟩ := read
      rcases List.mem_cons.mp member with rfl | inRest
      · exact ⟨item, List.mem_cons_self, here⟩
      · obtain ⟨found, isItem, decoded⟩ := inductionHypothesis later inRest
        exact ⟨found, List.mem_cons_of_mem _ isItem, decoded⟩

theorem exists_of_mapM_eq_some
    {decode : α → Option β}
    {items : List α}
    {values : List β}
    (read : items.mapM decode = some values)
    {item : α}
    (member : item ∈ items) :
    ∃ value, decode item = some value := by
  induction items generalizing values with
  | nil => cases member
  | cons first rest inductionHypothesis =>
      simp only [List.mapM_cons, Option.bind_eq_bind, Option.bind_eq_some_iff] at read
      obtain ⟨value, here, others, later, -⟩ := read
      rcases List.mem_cons.mp member with rfl | inRest
      · exact ⟨value, here⟩
      · exact inductionHypothesis later inRest

theorem mapM_eq_some_self
    {reread : α → Option α}
    {items : List α}
    (same : ∀ item ∈ items, reread item = some item) :
    items.mapM reread = some items := by
  induction items with
  | nil => rfl
  | cons item rest inductionHypothesis =>
      rw [List.mapM_cons, same item List.mem_cons_self,
        inductionHypothesis fun other member => same other (List.mem_cons_of_mem _ member)]
      rfl

end Lists

namespace Json

/-! ## Fields -/

theorem once?_record
    {members : List (String × Json)}
    (distinct : (members.map Prod.fst).Nodup)
    (key : String) :
    once? key (members.map fun member => (some member.1, member.2)) =
      some (members.lookup key) := by
  induction members with
  | nil => rfl
  | cons member rest inductionHypothesis =>
      obtain ⟨held, json⟩ := member
      rw [List.map_cons, List.nodup_cons] at distinct
      have later := inductionHypothesis distinct.2
      by_cases same : held = key
      · subst same
        have absent : (rest.map fun member => (some member.1, member.2)).filter
            (fun member => member.1 = some held) = [] := by
          apply List.filter_eq_nil_iff.mpr
          intro given isGiven
          obtain ⟨other, isMember, rfl⟩ := List.mem_map.mp isGiven
          simp only [Option.some.injEq, decide_eq_true_eq]
          rintro rfl
          exact distinct.1 (List.mem_map.mpr ⟨other, isMember, rfl⟩)
        simp [once?, absent]
      · unfold once? at later ⊢
        have unequal : (key == held) = false := beq_eq_false_iff_ne.mpr (Ne.symm same)
        rw [List.map_cons, List.filter_cons_of_neg (by simpa using same), later,
          List.lookup_cons, unequal]

/-- Each field of a written record is found under its name. -/
theorem fields?_record
    (members : List (String × Json))
    (distinct : (members.map Prod.fst).Nodup)
    (names : List String) :
    (record members).fields? names = some (names.map fun name => members.lookup name) := by
  have spelled : (members.map fun member => (some member.1, member.2)).all
      (fun member => member.1.isSome) = true := by
    simp
  have found : names.mapM (fun name =>
      once? name (members.map fun member => (some member.1, member.2))) =
        some (names.map fun name => members.lookup name) := by
    simp only [once?_record distinct]
    exact List.mapM_pure
  simp only [record, fields?]
  rw [if_pos spelled, found]

/-- A record is kept when all its fields are. -/
theorem isSound_record
    (room : Nat)
    (members : List (String × Json)) :
    (record members).isSound (room + 1) = members.all fun member => member.2.isSound room := by
  simp [record, isSound, List.all_map, Function.comp_def]

/-! ## Numbers -/

/-- A number comes back when its numeral is read. -/
def Survives (amount : Float) : Prop :=
  (ofFloat amount).float? = some amount

/-- What survives has a numeral. -/
theorem Survives.exists_numeral
    {amount : Float}
    (survives : Survives amount) :
    ∃ numeral, ofFloat amount = .number numeral ∧ toFloat? numeral = some amount := by
  unfold Survives at survives
  cases written : ofFloat amount with
  | number numeral =>
      rw [written] at survives
      exact ⟨numeral, rfl, survives⟩
  | _ =>
      rw [written] at survives
      cases survives

theorem Survives.isSound_ofFloat
    {amount : Float}
    (survives : Survives amount)
    (room : Nat) :
    (ofFloat amount).isSound room = true := by
  obtain ⟨numeral, written, found⟩ := survives.exists_numeral
  rw [written, isSound, found, Option.isSome_some]

/-- What is not finite is written as the empty document, which is no number. -/
theorem isFinite_of_float?_ofFloat
    {amount other : Float}
    (read : (ofFloat amount).float? = some other) :
    amount.isFinite = true := by
  apply Bool.eq_true_of_not_eq_false
  intro infinite
  rw [(ofFloat_eq_null_iff amount).mpr infinite] at read
  cases read

theorem isWritable_ofFloat (amount : Float) : (ofFloat amount).IsWritable := by
  unfold ofFloat
  split
  · next numeral found => exact isWritable_number (isStandard_of_numeralOf? found)
  · exact isWritable_null

end Json
end Montage
