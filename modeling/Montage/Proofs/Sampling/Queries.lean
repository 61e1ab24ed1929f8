import Mathlib
import Montage.Sampling

/-!
# What a sampler is asked

A sampler may work in any monad and answer as it likes.  What it is asked for a property
does not depend on its answers: the numbers as they are, three channels of colours, the
columns of texts with equally many runs, and nothing otherwise (`Property.queries`), always
with the standard curve.  A computation `Asks` queries when all it does with a sampler is to
ask these, one after the other, and all it owes to the sampler are the answers.  Sampling a
property asks the queries of the property (`Property.asks_sample`).
-/

namespace Montage

/-- What a sampler is asked with the standard curve. -/
structure Query where
  /-- The instants of the keys. -/
  instants : List Float
  /-- Their values. -/
  values : List Float

/-- The answer of a sampler. -/
def Query.ask
    {m : Type → Type}
    (sampler : Sampler m)
    (query : Query) : m Float :=
  sampler query.instants query.values .standard

/-- A computation that works in any monad and with any sampler. -/
abbrev Sampling (α : Type) :=
  (m : Type → Type) → [Monad m] → Sampler m → m α

/-- The computation asks these queries, one after the other, and settles the answers
without the sampler: of the answers to these queries and to any that are asked afterwards,
it takes its own and leaves the others. -/
def Asks
    {α : Type}
    (queries : List Query)
    (computation : Sampling α) : Prop :=
  ∃ settle : List Float → α × List Float,
    ∀ (m : Type → Type) [Monad m] [LawfulMonad m] (sampler : Sampler m) (later : List Query),
      (do
        let result ← computation m sampler
        let answers ← later.mapM (Query.ask sampler)
        return (result, answers)) =
      settle <$> (queries ++ later).mapM (Query.ask sampler)

section Asking

variable {α β : Type} {queries : List Query} {computation : Sampling α}

theorem asks_pure (result : α) : Asks [] fun _ _ _ => pure result := by
  refine ⟨fun answers => (result, answers), fun m _ _ sampler later => ?_⟩
  simp

theorem asks_ask (query : Query) : Asks [query] fun _ _ sampler => query.ask sampler := by
  -- There always is a first answer, so that the other choice does not matter.
  refine ⟨fun answers => (answers.headD 0, answers.tail), fun m _ _ sampler later => ?_⟩
  simp

/-- One computation after another asks the queries of the one and then those of the
other. -/
theorem Asks.bind
    {others : List Query}
    {next : α → Sampling β}
    (asks : Asks queries computation)
    (nextAsks : ∀ result, Asks others (next result)) :
    Asks (queries ++ others) fun m _ sampler =>
      computation m sampler >>= fun result => next result m sampler := by
  obtain ⟨settle, settled⟩ := asks
  choose settleNext settledNext using nextAsks
  refine ⟨fun answers => settleNext (settle answers).1 (settle answers).2,
    fun m _ _ sampler later => ?_⟩
  calc (do
        let result ← computation m sampler >>= fun result => next result m sampler
        let answers ← later.mapM (Query.ask sampler)
        return (result, answers))
      = (do
        let result ← computation m sampler
        settleNext result <$> (others ++ later).mapM (Query.ask sampler)) := by
        simp only [bind_assoc, settledNext]
    _ = (fun pair : α × List Float => settleNext pair.1 pair.2) <$> (do
        let result ← computation m sampler
        let answers ← (others ++ later).mapM (Query.ask sampler)
        return (result, answers)) := by
        simp
    _ = _ := by
        rw [settled, List.append_assoc, ← comp_map]
        rfl

/-- Working on with the result alone asks nothing more. -/
theorem Asks.map
    (asks : Asks queries computation)
    (function : α → β) :
    Asks queries fun m _ sampler =>
      computation m sampler >>= fun result => pure (function result) := by
  rw [← List.append_nil queries]
  exact asks.bind fun result => asks_pure (function result)

/-- What a computation comes to is settled by the answers to its queries. -/
theorem Asks.exists_eq_map
    (asks : Asks queries computation) :
    ∃ settle : List Float → α,
      ∀ (m : Type → Type) [Monad m] [LawfulMonad m] (sampler : Sampler m),
        computation m sampler = settle <$> queries.mapM (Query.ask sampler) := by
  obtain ⟨settle, settled⟩ := asks
  refine ⟨fun answers => (settle answers).1, fun m _ _ sampler => ?_⟩
  have alone := congrArg (Functor.map Prod.fst) (settled m sampler [])
  simpa [← comp_map, Function.comp_def] using alone

end Asking

namespace Property

/-! ## The queries of a property -/

/-- The query for one channel of colours. -/
def channelQuery
    (instants : List Float)
    (colors : List Color)
    (part : Color → UInt8) : Query where
  instants := instants
  values := colors.map fun color => Float.ofNat (part color).toNat

/-- The queries for the runs of texts, one for each run of the first text. -/
def runQueries
    (instants : List Float) : List Float → List (List Float) → List Query
  | [], _ => []
  | value :: values, others =>
      ⟨instants, value :: others.map fun other => other.headD 0⟩ ::
        runQueries instants values (others.map List.tail)

/-- The queries for texts; there are none unless all of them have equally many runs. -/
def textQueries
    (instants : List Float)
    (first : List Char)
    (others : List (List Char)) : List Query :=
  let values := (Template.scan first).values
  let columns := others.map fun other => (Template.scan other).values
  if columns.all fun column => column.length = values.length then
    runQueries instants values columns
  else
    []

/-- What a sampler is asked for a property. -/
def queries : Property → List Query
  | .constant _ => []
  | .animated _ [] => []
  | .animated instants (first :: rest) =>
      match Shape.ofValues (first :: rest) with
      | .numbers amounts => [⟨instants, amounts⟩]
      | .colors shades =>
          [channelQuery instants shades Color.red, channelQuery instants shades Color.green,
            channelQuery instants shades Color.blue]
      | .texts [] => []
      | .texts (text :: others) => textQueries instants text others
      | .mixed => []

theorem queries_of_not_isAnimated
    {property : Property}
    (still : property.isAnimated = false) :
    property.queries = [] := by
  cases property with
  | constant value => rfl
  | animated instants values => cases still

theorem asks_sampleColors
    (instants : List Float)
    (colors : List Color) :
    Asks [channelQuery instants colors Color.red, channelQuery instants colors Color.green,
        channelQuery instants colors Color.blue]
      fun _ _ sampler => sampleColors sampler instants colors := by
  have channel : ∀ part : Color → UInt8, Asks [channelQuery instants colors part]
      fun _ _ sampler => (channelQuery instants colors part).ask sampler >>= fun answer =>
        pure (Color.channelOf answer) :=
    fun part => (asks_ask (channelQuery instants colors part)).map Color.channelOf
  exact (channel Color.red).bind fun red => (channel Color.green).bind fun green =>
    (channel Color.blue).map (Color.mk red green)

theorem asks_sampleRuns
    (instants values : List Float)
    (others : List (List Float)) :
    Asks (runQueries instants values others)
      fun _ _ sampler => sampleRuns sampler instants values others := by
  induction values generalizing others with
  | nil => exact asks_pure []
  | cons value rest inductionHypothesis =>
      exact (asks_ask ⟨instants, value :: others.map fun other => other.headD 0⟩).bind
        fun number => (inductionHypothesis (others.map List.tail)).map (number :: ·)

theorem asks_sampleTexts
    (instants : List Float)
    (first : List Char)
    (others : List (List Char)) :
    Asks (textQueries instants first others)
      fun _ _ sampler => sampleTexts sampler instants first others := by
  unfold textQueries sampleTexts
  simp only
  split
  · exact (asks_sampleRuns _ _ _).map fun numbers =>
      some ((Template.scan first).render numbers)
  · exact asks_pure none

/-- Sampling a property asks its queries and nothing else. -/
theorem asks_sample (property : Property) :
    Asks property.queries fun _ _ sampler => property.sample sampler := by
  match property with
  | .constant value => exact asks_pure value
  | .animated instants [] => exact asks_pure (Value.number 0)
  | .animated instants (first :: rest) =>
      simp only [queries, sample, sampleKeyframes]
      cases Shape.ofValues (first :: rest) with
      | numbers amounts => exact (asks_ask ⟨instants, amounts⟩).map Value.number
      | colors shades =>
          exact (asks_sampleColors instants shades).map fun color =>
            Value.text (String.ofList color.text)
      | texts contents =>
          cases contents with
          | nil => exact asks_pure first
          | cons text others =>
              simp only
              rw [← List.append_nil (textQueries instants text others)]
              refine (asks_sampleTexts instants text others).bind fun result => ?_
              cases result <;> exact asks_pure _
      | mixed => exact asks_pure first

end Property

/-! ## Samplers that agree -/

section Agreement

variable {queries : List Query}

theorem mapM_ask_congr
    {m : Type → Type}
    [Monad m]
    [LawfulMonad m]
    {left right : Sampler m}
    (agree : ∀ query ∈ queries, query.ask left = query.ask right) :
    queries.mapM (Query.ask left) = queries.mapM (Query.ask right) := by
  induction queries with
  | nil => rfl
  | cons query rest inductionHypothesis =>
      obtain ⟨here, later⟩ := List.forall_mem_cons.mp agree
      rw [List.mapM_cons, List.mapM_cons, here, inductionHypothesis later]

/-- Samplers with states that agree on each query, from states that are alike to states
that are alike, agree on all of them. -/
theorem run_mapM_ask_alike
    {σ τ : Type}
    {alike : σ → τ → Prop}
    {left : Sampler (StateM σ)}
    {right : Sampler (StateM τ)}
    (agree : ∀ query ∈ queries, ∀ state other, alike state other →
      ((query.ask left).run state).1 = ((query.ask right).run other).1 ∧
        alike ((query.ask left).run state).2 ((query.ask right).run other).2)
    {state : σ}
    {other : τ}
    (areAlike : alike state other) :
    ((queries.mapM (Query.ask left)).run state).1 =
        ((queries.mapM (Query.ask right)).run other).1 := by
  induction queries generalizing state other with
  | nil => rfl
  | cons query rest inductionHypothesis =>
      obtain ⟨here, later⟩ := List.forall_mem_cons.mp agree
      obtain ⟨sameAnswer, stillAlike⟩ := here state other areAlike
      have sameAnswers := inductionHypothesis later stillAlike
      rw [List.mapM_cons, List.mapM_cons]
      exact congrArg₂ List.cons sameAnswer sameAnswers

end Agreement

end Montage
