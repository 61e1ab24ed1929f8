import Montage.Json.Reader
import Montage.Json.Writer
import Montage.Proofs.Json.Numerals
import Montage.Proofs.Json.Quoting

/-!
# Written documents come back

A written document has no spaces between its tokens, so the text of one token has to end
before the text of the next one begins.  Only a number could run on, and behind a number
there is a comma, a closing mark or nothing.  Hence the text of a document is split into
its tokens, and from these the machine of the reader builds the document again.
-/

namespace Montage
namespace Json

open Number

/-! ## Tokens -/

/-- Whether a token may stand behind a document. -/
def Token.isEnd : Token → Bool
  | .comma | .arrayEnd | .objectEnd => true
  | _ => false

/-- Tokens go on, if they do, with one that may stand behind a document. -/
def EndTokens (tokens : List Token) : Prop :=
  ∀ token, tokens.head? = some token → token.isEnd = true

/-- Behind each number stands a token that may stand behind a document, or nothing. -/
def Separated : List Token → Prop
  | [] => True
  | .number _ :: rest => EndTokens rest ∧ Separated rest
  | _ :: rest => Separated rest

theorem Separated.tail
    {token : Token}
    {rest : List Token}
    (separated : Separated (token :: rest)) :
    Separated rest := by
  cases token with
  | number numeral => exact separated.2
  | _ => exact separated

theorem endTokens_cons
    {token : Token}
    (isEnd : token.isEnd = true)
    (rest : List Token) :
    EndTokens (token :: rest) := by
  rintro _ ⟨⟩
  exact isEnd

theorem EndTokens.endsDocument
    {tokens : List Token}
    (ends : EndTokens tokens) :
    EndsDocument ((tokens.flatMap Token.text).map some) := by
  cases tokens with
  | nil => exact endsDocument_nil
  | cons token rest =>
      have isEnd := ends token rfl
      cases token with
      | comma | arrayEnd | objectEnd => exact endsDocument_cons (by decide) _
      | _ => cases isEnd

/-- The text of a token is read as that token; a number has to be standard, and its
text has to end where it does. -/
theorem token?_text
    {token : Token}
    {rest : List Symbol}
    (number : ∀ numeral, token = .number numeral →
      numeral.IsStandard ∧ EndsDocument rest) :
    token? (token.text.map some ++ rest) = some (token, rest) := by
  cases token with
  | number numeral =>
      obtain ⟨standard, ends⟩ := number numeral rfl
      exact token?_numeral standard ends
  | string spelled => exact token?_quote spelled rest
  | bool truth => cases truth <;> rfl
  | _ => rfl

/-- The text of a token starts with a character that is no space. -/
theorem exists_text_eq_cons
    {token : Token}
    (standard : ∀ numeral, token = .number numeral → numeral.IsStandard) :
    ∃ first later, token.text = first :: later ∧ isSpace first = false := by
  cases token with
  | number numeral =>
      obtain ⟨digit, digits, whole⟩ :=
        List.exists_cons_of_ne_nil (standard numeral rfl).whole_ne_nil
      have isDigit : digit.isDigit = true :=
        (standard numeral rfl).whole_digits digit (whole ▸ List.mem_cons_self)
      cases negative : numeral.negative with
      | true => exact ⟨'-', _, by rw [Token.text, Numeral.text, negative]; rfl, by decide⟩
      | false =>
          refine ⟨digit, _, by rw [Token.text, Numeral.text, negative, whole]; rfl, ?_⟩
          apply Bool.eq_false_iff.mpr
          intro space
          simp only [isSpace, List.elem_eq_mem, decide_eq_true_eq, List.mem_cons,
            List.not_mem_nil, or_false] at space
          rcases space with rfl | rfl | rfl | rfl <;> exact absurd isDigit (by decide)
  | string spelled => cases spelled <;> exact ⟨'"', _, rfl, by decide⟩
  | bool truth => cases truth <;> exact ⟨_, _, rfl, by decide⟩
  | _ => exact ⟨_, _, rfl, by decide⟩

/-- A token at the start is lexed before everything that follows. -/
theorem lex_text_append
    {token : Token}
    {rest : List Symbol}
    (number : ∀ numeral, token = .number numeral →
      numeral.IsStandard ∧ EndsDocument rest) :
    lex (token.text.map some ++ rest) = (lex rest).map (token :: ·) := by
  have found := token?_text number
  obtain ⟨first, later, text, noSpace⟩ :=
    exists_text_eq_cons fun numeral same => (number numeral same).1
  rw [text, List.map_cons, List.cons_append] at found ⊢
  rw [lex]
  simp only [Option.any_some, noSpace, Bool.false_eq_true, if_false]
  split
  · next refused =>
      cases refused.symm.trans found
  · next other after same =>
      obtain ⟨rfl, rfl⟩ := Prod.mk.inj (Option.some.inj (same.symm.trans found))
      rfl

/-- The text of separated tokens is split into these tokens. -/
theorem lex_flatMap_text
    {tokens : List Token}
    (separated : Separated tokens)
    (standard : ∀ numeral, Token.number numeral ∈ tokens → numeral.IsStandard) :
    lex ((tokens.flatMap Token.text).map some) = some tokens := by
  induction tokens with
  | nil => simp [lex]
  | cons token rest inductionHypothesis =>
      have restLexed := inductionHypothesis separated.tail fun numeral member =>
        standard numeral (List.mem_cons_of_mem _ member)
      rw [List.flatMap_cons, List.map_append, lex_text_append, restLexed, Option.map_some]
      rintro numeral rfl
      exact ⟨standard numeral List.mem_cons_self, separated.1.endsDocument⟩

/-! ## The tokens of a document -/

mutual

theorem separated_tokens_append
    (json : Json)
    {rest : List Token}
    (ends : EndTokens rest)
    (separated : Separated rest) :
    Separated (json.tokens ++ rest) := by
  match json with
  | .null | .bool _ | .string _ | .array [] | .object [] =>
      simpa [tokens, Separated] using separated
  | .number numeral => exact ⟨ends, separated⟩
  | .array (first :: items) =>
      have closed : Separated (.arrayEnd :: rest) := separated
      have further := separated_itemTokens_append items (endTokens_cons rfl rest) closed
      simp only [tokens, List.cons_append, List.append_assoc, List.nil_append, Separated]
      exact separated_tokens_append first further.1 further.2
  | .object ((key, first) :: members) =>
      have closed : Separated (.objectEnd :: rest) := separated
      have further := separated_memberTokens_append members (endTokens_cons rfl rest) closed
      simp only [tokens, List.cons_append, List.append_assoc, List.nil_append, Separated]
      exact separated_tokens_append first further.1 further.2

theorem separated_itemTokens_append
    (items : List Json)
    {rest : List Token}
    (ends : EndTokens rest)
    (separated : Separated rest) :
    EndTokens (itemTokens items ++ rest) ∧ Separated (itemTokens items ++ rest) := by
  match items with
  | [] => exact ⟨ends, separated⟩
  | first :: items =>
      have further := separated_itemTokens_append items ends separated
      simp only [itemTokens, List.cons_append, List.append_assoc, Separated]
      exact ⟨endTokens_cons rfl _,
        separated_tokens_append first further.1 further.2⟩

theorem separated_memberTokens_append
    (members : List (Option String × Json))
    {rest : List Token}
    (ends : EndTokens rest)
    (separated : Separated rest) :
    EndTokens (memberTokens members ++ rest) ∧ Separated (memberTokens members ++ rest) := by
  match members with
  | [] => exact ⟨ends, separated⟩
  | (key, first) :: members =>
      have further := separated_memberTokens_append members ends separated
      simp only [memberTokens, List.cons_append, List.append_assoc, Separated]
      exact ⟨endTokens_cons rfl _,
        separated_tokens_append first further.1 further.2⟩

end

/-- In the tokens of a document a number is followed by a comma, a closing mark or
nothing. -/
theorem separated_tokens (json : Json) : Separated json.tokens := by
  have ends : EndTokens [] := by
    rintro _ ⟨⟩
  have separated := separated_tokens_append json ends trivial
  rwa [List.append_nil] at separated

/-! ## The machine -/

namespace State

/-- A list that has been opened takes its first item as it takes any other. -/
theorem run_arrayOpened
    (json : Json)
    (stack : List Waiting)
    (rest : List Token) :
    run (.arrayOpened stack) (json.tokens ++ rest) =
      run (.value (.item [] :: stack)) (json.tokens ++ rest) := by
  match json with
  | .null | .bool _ | .number _ | .string _ | .array [] | .array (_ :: _) | .object []
  | .object ((_, _) :: _) => rfl

mutual

/-- The tokens of a document are put together to this document. -/
theorem run_tokens
    (json : Json)
    (stack : List Waiting)
    (rest : List Token) :
    run (.value stack) (json.tokens ++ rest) = run (place json stack) rest := by
  match json with
  | .null | .bool _ | .number _ | .string _ | .array [] | .object [] => rfl
  -- The opened container waits on the stack, so that the induction needs every stack.
  | .array (first :: items) =>
      calc run (.value stack) ((Json.array (first :: items)).tokens ++ rest)
        _ = run (.arrayOpened stack)
              (first.tokens ++ (itemTokens items ++ .arrayEnd :: rest)) := by
          simp [tokens, run, step, start]
        _ = run (.arrayNext [first] stack) (itemTokens items ++ .arrayEnd :: rest) := by
          rw [run_arrayOpened, run_tokens first]
          rfl
        _ = run (place (.array (first :: items)) stack) rest :=
          run_itemTokens items [first] stack rest
  | .object ((key, first) :: members) =>
      calc run (.value stack) ((Json.object ((key, first) :: members)).tokens ++ rest)
        _ = run (.value (.member [] key :: stack))
              (first.tokens ++ (memberTokens members ++ .objectEnd :: rest)) := by
          simp [tokens, run, step, start]
        _ = run (.objectNext [(key, first)] stack)
              (memberTokens members ++ .objectEnd :: rest) :=
          run_tokens first _ _
        _ = run (place (.object ((key, first) :: members)) stack) rest :=
          run_memberTokens members [(key, first)] stack rest

theorem run_itemTokens
    (items before : List Json)
    (stack : List Waiting)
    (rest : List Token) :
    run (.arrayNext before stack) (itemTokens items ++ .arrayEnd :: rest) =
      run (place (.array (before.reverse ++ items)) stack) rest := by
  match items with
  | [] => simp [itemTokens, run, step]
  | item :: items =>
      calc run (.arrayNext before stack) (itemTokens (item :: items) ++ .arrayEnd :: rest)
        _ = run (.value (.item before :: stack))
              (item.tokens ++ (itemTokens items ++ .arrayEnd :: rest)) := by
          simp [itemTokens, run, step]
        _ = run (.arrayNext (item :: before) stack) (itemTokens items ++ .arrayEnd :: rest) :=
          run_tokens item _ _
        _ = run (place (.array (before.reverse ++ item :: items)) stack) rest := by
          rw [run_itemTokens items (item :: before) stack rest, List.reverse_cons,
            List.append_assoc, List.singleton_append]

theorem run_memberTokens
    (members before : List (Option String × Json))
    (stack : List Waiting)
    (rest : List Token) :
    run (.objectNext before stack) (memberTokens members ++ .objectEnd :: rest) =
      run (place (.object (before.reverse ++ members)) stack) rest := by
  match members with
  | [] => simp [memberTokens, run, step]
  | (key, json) :: members =>
      calc run (.objectNext before stack)
            (memberTokens ((key, json) :: members) ++ .objectEnd :: rest)
        _ = run (.value (.member before key :: stack))
              (json.tokens ++ (memberTokens members ++ .objectEnd :: rest)) := by
          simp [memberTokens, run, step]
        _ = run (.objectNext ((key, json) :: before) stack)
              (memberTokens members ++ .objectEnd :: rest) :=
          run_tokens json _ _
        _ = run (place (.object (before.reverse ++ (key, json) :: members)) stack) rest := by
          rw [run_memberTokens members ((key, json) :: before) stack rest, List.reverse_cons,
            List.append_assoc, List.singleton_append]

end

end State

/-! ## Whole documents -/

theorem ofTokens?_tokens (json : Json) : ofTokens? json.tokens = some json := by
  have complete := State.run_tokens json [] []
  rw [List.append_nil] at complete
  rw [ofTokens?, complete]
  rfl

/-- Every number of the document has a text. -/
def IsWritable (json : Json) : Prop :=
  ∀ numeral, Token.number numeral ∈ json.tokens → numeral.IsStandard

/-- A written document is read as the same document. -/
theorem ofText?_write
    {json : Json}
    (writable : json.IsWritable) :
    ofText? json.write = some json := by
  rw [ofText?, ofSymbols?, symbolsOfText, write, String.toList_ofList,
    lex_flatMap_text (separated_tokens json) writable, Option.bind_some, ofTokens?_tokens]

/-! ## Writable documents -/

theorem isWritable_null : IsWritable .null := by
  simp [IsWritable, tokens]

theorem isWritable_bool (truth : Bool) : IsWritable (.bool truth) := by
  simp [IsWritable, tokens]

theorem isWritable_string (spelled : Option String) : IsWritable (.string spelled) := by
  simp [IsWritable, tokens]

theorem isWritable_text (content : String) : (text content).IsWritable :=
  isWritable_string (some content)

theorem isWritable_number
    {numeral : Numeral}
    (standard : numeral.IsStandard) :
    IsWritable (.number numeral) := by
  intro other member
  simp only [tokens, List.mem_singleton, Token.number.injEq] at member
  exact member ▸ standard

theorem number_mem_itemTokens
    {items : List Json}
    {numeral : Numeral}
    (member : Token.number numeral ∈ itemTokens items) :
    ∃ item ∈ items, Token.number numeral ∈ item.tokens := by
  induction items with
  | nil => cases member
  | cons first rest inductionHypothesis =>
      simp only [itemTokens, List.mem_cons, List.mem_append, reduceCtorEq, false_or] at member
      rcases member with here | later
      · exact ⟨first, List.mem_cons_self, here⟩
      · obtain ⟨item, isItem, found⟩ := inductionHypothesis later
        exact ⟨item, List.mem_cons_of_mem _ isItem, found⟩

theorem number_mem_memberTokens
    {members : List (Option String × Json)}
    {numeral : Numeral}
    (member : Token.number numeral ∈ memberTokens members) :
    ∃ given ∈ members, Token.number numeral ∈ given.2.tokens := by
  induction members with
  | nil => cases member
  | cons first rest inductionHypothesis =>
      simp only [memberTokens, List.mem_cons, List.mem_append, reduceCtorEq, false_or] at member
      rcases member with here | later
      · exact ⟨first, List.mem_cons_self, here⟩
      · obtain ⟨given, isMember, found⟩ := inductionHypothesis later
        exact ⟨given, List.mem_cons_of_mem _ isMember, found⟩

theorem isWritable_array
    {items : List Json}
    (writable : ∀ item ∈ items, item.IsWritable) :
    IsWritable (.array items) := by
  intro numeral member
  obtain ⟨item, isItem, found⟩ : ∃ item ∈ items, Token.number numeral ∈ item.tokens := by
    cases items with
    | nil => simp [tokens] at member
    | cons first rest =>
        apply number_mem_itemTokens
        simpa [tokens, itemTokens] using member
  exact writable item isItem numeral found

theorem isWritable_object
    {members : List (Option String × Json)}
    (writable : ∀ member ∈ members, member.2.IsWritable) :
    IsWritable (.object members) := by
  intro numeral member
  obtain ⟨given, isMember, found⟩ :
      ∃ given ∈ members, Token.number numeral ∈ given.2.tokens := by
    cases members with
    | nil => simp [tokens] at member
    | cons first rest =>
        apply number_mem_memberTokens
        simpa [tokens, memberTokens] using member
  exact writable given isMember numeral found

theorem isWritable_record
    {members : List (String × Json)}
    (writable : ∀ member ∈ members, member.2.IsWritable) :
    (record members).IsWritable := by
  apply isWritable_object
  intro member isMember
  obtain ⟨given, isGiven, rfl⟩ := List.mem_map.mp isMember
  exact writable given isGiven

end Json
end Montage
