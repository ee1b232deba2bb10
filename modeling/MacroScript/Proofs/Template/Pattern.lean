import MacroScript.Grammar.Reading
import MacroScript.Proofs.Reading.MacroNode
import MacroScript.Proofs.Template.Node

/-!
# Patterns as they are written

A pattern is read token by token: brackets stand for themselves and have to be balanced, a
`$name` is followed by a colon and the kind of the variable, and a `$` in front of a parenthesis
starts a group, which its closing parenthesis and a separator end.

Nothing is lost on the way.  The elements of a pattern flatten to the classes and texts of the
tokens they were read from, and tokens that are spelled so are read as the same elements again,
wherever they stand.
-/

namespace MacroScript

open MacroScript.Outcome

/-! ## Tokens that are read one after the other -/

namespace Cursor

variable {cursor : Cursor} {token : Token} {more : List Token}

theorem rest_eq_cons (inside : cursor.index < cursor.tokens.size) :
    cursor.rest = cursor.peek :: cursor.advance.rest := by
  simp only [rest, peek, tokenAt, advance, inside, if_true, Array.getElem?_eq_getElem,
    Option.getD_some]
  rw [List.drop_eq_getElem_cons (by simpa using inside), Array.getElem_toList]

theorem lt_size_of_rest (next : cursor.rest = token :: more) :
    cursor.index < cursor.tokens.size := by
  have length := congrArg List.length next
  simp only [rest, List.length_drop, Array.length_toList, List.length_cons] at length
  omega

theorem peek_of_rest (next : cursor.rest = token :: more) : cursor.peek = token := by
  have split := rest_eq_cons (lt_size_of_rest next)
  rw [next, List.cons.injEq] at split
  exact split.1.symm

theorem rest_of_advance (next : cursor.advance.rest = token :: more) :
    cursor.rest = cursor.peek :: token :: more := by
  have inside := lt_size_of_rest next
  rw [← next]
  apply rest_eq_cons
  unfold advance at inside
  split at inside
  · assumption
  · exact inside

/-- The position behind some of the tokens that are left. -/
def past (cursor : Cursor) (count : Nat) : Cursor :=
  { cursor with index := cursor.index + count }

end Cursor

namespace Grammar

variable {state middle after : State} {token : Token} {tokens others : List Token} {text : String}
  {more : List (TokenKind × String)}

/-- The tokens between two states. -/
structure Passed (state : State) (tokens : List Token) (after : State) : Prop where
  context : after.context = state.context
  ready : after.cursor.Ready
  rest : state.cursor.rest = tokens ++ after.cursor.rest

theorem Passed.trans (one : Passed state tokens middle) (two : Passed middle others after) :
    Passed state (tokens ++ others) after where
  context := two.context.trans one.context
  ready := two.ready
  rest := by rw [one.rest, two.rest, List.append_assoc]

theorem passed_advance (ready : state.cursor.Ready) (notEnd : state.cursor.peek.isEnd = false) :
    Passed state [state.cursor.peek] { state with cursor := state.cursor.advance } :=
  ⟨rfl, ready.forward_advance.ready ready, Cursor.rest_eq_cons (ready.lt_of_not_end notEnd)⟩

/-- A punctuator that is read is the next token. -/
theorem passed_expectPunct (ready : state.cursor.Ready)
    (run : expectPunct text state = .ok token after) :
    token.isPunct text = true ∧ Passed state [token] after := by
  obtain ⟨isText, rfl⟩ := expectPunct_eq_ok run
  obtain rfl : state.cursor.peek = token := by
    simp only [expectPunct, atPunct, bind, EStateM.bind, Cursor.atPunct, isText, if_true] at run
    exact (EStateM.Result.ok.inj run).1
  exact ⟨isText, passed_advance ready (Token.isEnd_of_isPunct isText)⟩

/-- A balanced run that is read is followed by its closing bracket. -/
theorem passed_takeBalanced (known : text ∈ Balanced.closers) (ready : state.cursor.Ready)
    (run : takeBalanced text state = .ok tokens after) :
    Balanced.Closed tokens ∧ ∃ close, close.isPunct text = true ∧
      Passed state (tokens ++ [close]) after := by
  unfold takeBalanced at run
  cases outcome : Balanced.take text state.cursor.rest with
  | mismatched found rest
  | unfinished rest => simp [outcome] at run
  | closed taken rest =>
    obtain ⟨close, closes, closed, split⟩ := (Balanced.take_eq_closed_iff known).mp outcome
    simp only [outcome, EStateM.Result.ok.injEq] at run
    obtain ⟨rfl, rfl⟩ := run
    have suffix : rest <:+ state.cursor.rest := by
      rw [split]
      exact ⟨taken ++ [close], by simp⟩
    refine ⟨closed, close, closes, rfl, (ready.forward_suffix suffix).ready ready, ?_⟩
    have behind := List.suffix_iff_eq_drop.mp (suffix.trans (List.drop_suffix _ _))
    rw [Array.length_toList] at behind
    show _ = _ ++ state.cursor.tokens.toList.drop (state.cursor.tokens.size - rest.length)
    rw [← behind, split, List.append_assoc]
    rfl

/-- A parser behind some of the tokens that are left. -/
def State.past (state : State) (count : Nat) : State :=
  { state with cursor := state.cursor.past count }

theorem State.past_past (state : State) (first second : Nat) :
    (state.past first).past second = state.past (first + second) := by
  simp only [past, Cursor.past, Nat.add_assoc]

/-- The tokens that are left begin with these classes and texts. -/
def Ahead (spellings : List (TokenKind × String)) (state : State) : Prop :=
  spellings <+: state.cursor.rest.map Token.spelling

theorem Ahead.past {first second : List (TokenKind × String)}
    (ahead : Ahead (first ++ second) state) : Ahead second (state.past first.length) := by
  obtain ⟨behind, split⟩ := ahead
  refine ⟨behind, ?_⟩
  show _ = (state.cursor.tokens.toList.drop (state.cursor.index + first.length)).map Token.spelling
  rw [← List.drop_drop, List.map_drop]
  show _ = (state.cursor.rest.map Token.spelling).drop first.length
  rw [← split, List.append_assoc, List.drop_left]

/-- The first of the tokens is next, and the others are behind it. -/
theorem Ahead.cons {first : TokenKind × String} (ahead : Ahead (first :: more) state) :
    state.cursor.peek.spelling = first ∧ advance state = .ok state.cursor.peek (state.past 1) ∧
      Ahead more (state.past 1) := by
  obtain ⟨behind, split⟩ := id ahead
  obtain ⟨token, rest, next, rfl, -⟩ := List.map_eq_cons_iff.mp split.symm
  have moved : state.cursor.advance = state.cursor.past 1 := if_pos (Cursor.lt_size_of_rest next)
  refine ⟨congrArg Token.spelling (Cursor.peek_of_rest next), ?_,
    Ahead.past (show Ahead ([_] ++ more) state from ahead)⟩
  rw [advance, moved]
  rfl

theorem Ahead.expectPunct (ahead : Ahead ((.punct, text) :: more) state) :
    Grammar.expectPunct text state = .ok state.cursor.peek (state.past 1) := by
  obtain ⟨isText, advanced, -⟩ := ahead.cons
  rw [← Token.isPunct_iff_spelling] at isText
  simp only [Grammar.expectPunct, bind, EStateM.bind, atPunct, Cursor.atPunct, isText, if_true,
    advanced]

end Grammar

/-! ## Patterns and their spelling -/

/-- The token that starts a group. -/
def dollarAt (span : Span) : Token :=
  { kind := .name, text := "$", span }

/-- The token that refers to a variable. -/
def placeholderAt (name : String) (span : Span) : Token :=
  { kind := .name, text := "$" ++ name, span }

mutual

/-- The classes and texts of the tokens that an element is written with. -/
def PatternElement.flatten : PatternElement → List (TokenKind × String)
  | .token token => [token.spelling]
  | .capture name kind _ => [(.name, "$" ++ name), (.punct, ":"), (.name, kind.word)]
  | .repetition content separator _ =>
    (.name, "$") :: (.punct, "(") :: (Pattern.flatten content ++
      [(.punct, ")"), separator.spelling])

/-- The classes and texts of the tokens that a pattern is written with. -/
def Pattern.flatten : List PatternElement → List (TokenKind × String)
  | [] => []
  | element :: rest => element.flatten ++ Pattern.flatten rest

end

/-- The token with its class and text only. -/
def Token.unplaced (token : Token) : Token :=
  { kind := token.kind, text := token.text, span := .nowhere }

mutual

/-- The element without the places it was read from. -/
def PatternElement.unplaced : PatternElement → PatternElement
  | .token token => .token token.unplaced
  | .capture name kind _ => .capture name kind .nowhere
  | .repetition content separator _ =>
    .repetition (Pattern.unplaced content) separator.unplaced .nowhere

/-- The pattern without the places it was read from. -/
def Pattern.unplaced : List PatternElement → List PatternElement
  | [] => []
  | element :: rest => element.unplaced :: Pattern.unplaced rest

end

/-- A pattern as it can be written, behind the opening brackets of `inner`, innermost first. -/
inductive Pattern.Written : (inner : List String) → List PatternElement → Prop
  | nil : Written [] []
  | token {inner next : List String} {token : Token} {rest : List PatternElement}
      (step : Balanced.Step inner token next) (ordinary : token.captureName? = none)
      (alone : token.isWord "$" = true → (Pattern.flatten rest).head? ≠ some (.punct, "("))
      (later : Written next rest) : Written inner (.token token :: rest)
  | capture {inner : List String} {name : String} {kind : CaptureKind} {span : Span}
      {rest : List PatternElement} (named : (placeholderAt name span).captureName? = some name)
      (later : Written inner rest) : Written inner (.capture name kind span :: rest)
  | repetition {inner : List String} {content rest : List PatternElement} {separator : Token}
      {span : Span} (inside : Written [] content) (notEnd : separator.isEnd = false)
      (later : Written inner rest) :
      Written inner (.repetition content separator span :: rest)

namespace Token

variable {token : Token} {name text : String}

theorem unplaced_congr {other : Token} (same : other.spelling = token.spelling) :
    other.unplaced = token.unplaced := by
  rw [unplaced, unplaced, (Prod.mk.inj same).1, (Prod.mk.inj same).2]

theorem isName_of_spelling (spelled : token.spelling = (.name, text)) : token.isName = true := by
  rw [isName, (Prod.mk.inj spelled).1]
  rfl

theorem isWord_iff_spelling : token.isWord text = true ↔ token.spelling = (.name, text) := by
  simp [isWord, spelling]

/-- The variable that a `$name` token refers to gives the text of the token. -/
theorem spelling_of_captureName? (named : token.captureName? = some name) :
    token.spelling = (.name, "$" ++ name) := by
  unfold captureName? at named
  split at named
  · rename_i isName
    rw [Token.isName, beq_iff_eq] at isName
    split at named
    · rename_i c rest spelled
      cases named
      have text : token.text = String.ofList ('$' :: c :: rest) := by
        rw [← spelled, String.ofList_toList]
      simp [spelling, isName, text, String.ofList_cons]
    · cases named
  · cases named

end Token

theorem CaptureKind.word_of_ofWord? {word : String} {kind : CaptureKind}
    (known : ofWord? word = some kind) : kind.word = word := by
  simpa using List.find?_some known

theorem CaptureKind.ofWord?_word (kind : CaptureKind) : ofWord? kind.word = some kind := by
  cases kind <;> rfl

namespace Balanced.Step

variable {inner next : List String} {token : Token}

theorem notEnd (step : Balanced.Step inner token next) : token.isEnd = false := by
  cases step with
  | plain notEnd _ => exact notEnd
  | opening opens => simp [Token.isEnd, (Balanced.closer?_eq_some opens).2]
  | closing _ closes => exact Token.isEnd_of_isPunct closes

/-- Only the class and the text of a token matter. -/
theorem congr {other : Token} (step : Balanced.Step inner token next)
    (same : other.spelling = token.spelling) : Balanced.Step inner other next := by
  rcases other with ⟨kind, text, span, line, color⟩
  obtain ⟨rfl, rfl⟩ := Prod.mk.inj same
  cases step with
  | plain notEnd flat => exact .plain notEnd flat
  | opening opens => exact .opening opens
  | closing known closes => exact .closing known closes

end Balanced.Step

/-! ## Reading patterns -/

namespace Grammar

variable {state middle after : State} {elements : Pattern}
  {first second : List (TokenKind × String)} {text : String}

theorem advance_peek (cursor : Cursor) : cursor.advance.peek = cursor.peekAt 1 := by
  unfold Cursor.advance
  split
  · rfl
  · rename_i outside
    have past : cursor.tokens.size ≤ cursor.index := Nat.le_of_not_lt outside
    simp [Cursor.peek, Cursor.peekAt, Cursor.tokenAt, Array.getElem?_eq_none past,
      Array.getElem?_eq_none (Nat.le_succ_of_le past)]

/-- The tokens that are read one after the other between two states have these classes and
texts. -/
inductive Spelled : State → List (TokenKind × String) → State → Prop
  | nil {state : State} : Spelled state [] state
  | cons {state after : State} {more : List (TokenKind × String)}
      (notEnd : state.cursor.peek.isEnd = false)
      (later : Spelled { state with cursor := state.cursor.advance } more after) :
      Spelled state (state.cursor.peek.spelling :: more) after

namespace Spelled

theorem trans (one : Spelled state first middle) (two : Spelled middle second after) :
    Spelled state (first ++ second) after := by
  induction one with
  | nil => exact two
  | cons notEnd _ ih => exact .cons notEnd (ih two)

/-- The first of the tokens is next. -/
theorem peek_of_head? {spelling : TokenKind × String} (spelled : Spelled state first after)
    (starts : first.head? = some spelling) : state.cursor.peek.spelling = spelling := by
  cases spelled with
  | nil => cases starts
  | cons _ _ => exact Option.some.inj starts

theorem passed (spelled : Spelled state first after) (ready : state.cursor.Ready) :
    ∃ tokens, Passed state tokens after ∧ tokens.map Token.spelling = first := by
  induction spelled with
  | nil => exact ⟨[], ⟨rfl, ready, rfl⟩, rfl⟩
  | cons notEnd _ ih =>
    have one := passed_advance ready notEnd
    obtain ⟨tokens, later, rfl⟩ := ih one.ready
    exact ⟨_ :: tokens, one.trans later, rfl⟩

theorem advance (state : State) (notEnd : state.cursor.peek.isEnd = false) :
    Spelled state [state.cursor.peek.spelling] { state with cursor := state.cursor.advance } :=
  .cons notEnd .nil

theorem expectPunct {token : Token} (run : Grammar.expectPunct text state = .ok token after) :
    Spelled state [(.punct, text)] after := by
  obtain ⟨isText, rfl⟩ := expectPunct_eq_ok run
  rw [← Token.isPunct_iff_spelling.mp isText]
  exact .advance _ (Token.isEnd_of_isPunct isText)

end Spelled

/-- What a pattern element other than a bracket is read from. -/
theorem spelled_patternElement {content : Parser Pattern} {element : PatternElement}
    (run : patternElement content state = .ok element after)
    (notEnd : state.cursor.peek.isEnd = false) (flat : state.cursor.peek.Flat)
    (inside : ∀ {start middle : State} {elements : Pattern},
      content start = .ok elements middle →
        Spelled start (Pattern.flatten elements) middle ∧ Pattern.Written [] elements) :
    Spelled state element.flatten after ∧
      ∀ {inner : List String} {rest : List PatternElement},
        ((Pattern.flatten rest).head? = some (.punct, "(") →
          after.cursor.peek.isPunct "(" = true) →
          Pattern.Written inner rest → Pattern.Written inner (element :: rest) := by
  have one := Spelled.advance state notEnd
  simp only [patternElement, bind_eq_ok_iff] at run
  obtain ⟨_, _, peeked, _, _, peekedNext, run⟩ := run
  cases peeked
  cases peekedNext
  split at run
  · rename_i starts
    rw [Bool.and_eq_true, ← advance_peek, Token.isWord_iff_spelling] at starts
    simp only [bind_eq_ok_iff] at run
    obtain ⟨_, _, advanced, _, _, advancedToo, elements, middle, contentRun, _, _, closed,
      separator, _, separated, run⟩ := run
    cases advanced
    cases advancedToo
    have two := Spelled.advance { state with cursor := state.cursor.advance }
      (Token.isEnd_of_isPunct starts.2)
    obtain ⟨content, written⟩ := inside contentRun
    have closing := Spelled.expectPunct closed
    cases separated
    split at run
    · cases run
    rename_i separates
    rw [Bool.not_eq_true] at separates
    rw [bind_eq_ok_iff] at run
    obtain ⟨span, _, finished, run⟩ := run
    cases finished
    cases run
    have all := one.trans (two.trans (content.trans (closing.trans (.advance _ separates))))
    rw [starts.1, Token.isPunct_iff_spelling.mp starts.2] at all
    exact ⟨all, fun _ later => .repetition written separates later⟩
  · rename_i single
    cases named : state.cursor.peek.captureName? with
    | some name =>
      have spelling := Token.spelling_of_captureName? named
      simp only [named, bind_eq_ok_iff] at run
      obtain ⟨_, _, advanced, colon, middle, colons, word, _, advancedToo, run⟩ := run
      cases advanced
      have two := Spelled.expectPunct colons
      cases advancedToo
      cases found : if middle.cursor.peek.isName then
          CaptureKind.ofWord? middle.cursor.peek.text else none with
      | none =>
        simp only [found] at run
        cases run
      | some kind =>
        simp only [found] at run
        cases run
        rw [Option.ite_none_right_eq_some] at found
        have three := Spelled.advance middle (Token.isEnd_of_isName found.1)
        have kinded : middle.cursor.peek.spelling = (.name, kind.word) := by
          rw [Token.spelling, CaptureKind.word_of_ofWord? found.2,
            show middle.cursor.peek.kind = .name from beq_iff_eq.mp found.1]
        have all := one.trans (two.trans three)
        rw [spelling, kinded] at all
        refine ⟨all, fun _ later => .capture ?_ later⟩
        rw [← named]
        exact Token.captureName?_congr spelling.symm
    | none =>
      simp only [named, bind_eq_ok_iff] at run
      obtain ⟨_, _, advanced, run⟩ := run
      cases advanced
      cases run
      refine ⟨one, ?_⟩
      intro inner rest follows later
      refine .token (.plain notEnd flat) named ?_ later
      intro isDollar starts
      rw [isDollar, ← advance_peek, follows starts] at single
      exact single rfl

/-- A pattern is read from the tokens that it is written with, up to the closing bracket. -/
theorem spelled_patternElements {bound : Nat} {closer : String} {inner : List String}
    (run : patternElements bound closer inner state = .ok elements after)
    (known : inner ⊆ Balanced.closers) :
    Spelled state (Pattern.flatten elements) after ∧ Pattern.Written inner elements := by
  induction bound generalizing closer inner state after elements with
  | zero =>
    simp only [patternElements, bind_eq_ok_iff] at run
    obtain ⟨_, _, -, failed⟩ := run
    cases failed
  | succ bound ih =>
    simp only [patternElements, bind_eq_ok_iff] at run
    obtain ⟨_, _, peeked, run⟩ := run
    cases peeked
    split at run
    · cases run
    rename_i notEnd
    rw [Bool.not_eq_true] at notEnd
    have one := Spelled.advance state notEnd
    -- A bracket is read as it stands, and changes which brackets are open.
    have bracket {within : List String} {rest : Pattern} (kind : state.cursor.peek.kind = .punct)
        (step : Balanced.Step inner state.cursor.peek within)
        (restRun : patternElements bound closer within
          { state with cursor := state.cursor.advance } = .ok rest after) :
        Spelled state (Pattern.flatten (.token state.cursor.peek :: rest)) after ∧
          Pattern.Written inner (.token state.cursor.peek :: rest) := by
      obtain ⟨spelled, written⟩ := ih restRun (step.subset_closers known)
      refine ⟨one.trans spelled, .token step (Template.plain_of_kind kind []).2 ?_ written⟩
      simp [Token.isWord, kind]
    split at run
    · rename_i closes
      cases run
      rw [Bool.and_eq_true, List.isEmpty_iff] at closes
      rw [closes.1]
      exact ⟨.nil, .nil⟩
    split at run
    · rename_i closes
      simp only [bind_eq_ok_iff] at run
      obtain ⟨_, _, advanced, rest, _, restRun, run⟩ := run
      cases advanced
      cases run
      cases inner with
      | nil => simp at closes
      | cons expected outer =>
        have isExpected : state.cursor.peek.isPunct expected = true := by simpa using closes
        exact bracket (Balanced.kind_of_isPunct isExpected)
          (.closing (List.cons_subset.mp known).1 isExpected) restRun
    cases opens : state.cursor.peek.closer? with
    | some opened =>
      simp only [opens, bind_eq_ok_iff] at run
      obtain ⟨_, _, advanced, rest, _, restRun, run⟩ := run
      cases advanced
      cases run
      exact bracket (Balanced.closer?_eq_some opens).2 (.opening opens) restRun
    | none =>
      simp only [opens] at run
      split at run
      · cases run
      rename_i notClosing
      rw [Bool.not_eq_true] at notClosing
      simp only [bind_eq_ok_iff] at run
      obtain ⟨first, middle, firstRun, rest, _, restRun, run⟩ := run
      cases run
      obtain ⟨element, adds⟩ := spelled_patternElement firstRun notEnd ⟨opens, notClosing⟩
        fun contentRun => ih contentRun (List.nil_subset _)
      obtain ⟨spelled, written⟩ := ih restRun known
      refine ⟨element.trans spelled, adds ?_ written⟩
      intro starts
      exact Token.isPunct_iff_spelling.mpr (spelled.peek_of_head? starts)

theorem spelled_pattern (run : pattern state = .ok elements after) :
    Spelled state (Pattern.flatten elements) after ∧ Pattern.Written [] elements := by
  simp only [pattern, bind_eq_ok_iff] at run
  obtain ⟨bound, _, counted, run⟩ := run
  cases counted
  exact spelled_patternElements run (List.nil_subset _)

/-! ## Reading patterns again -/

section Again

variable {bound : Nat} {inner within : List String} {more : List (TokenKind × String)}

/-- An element that does not start with a bracket is read before the others. -/
theorem patternElements_cons {element : PatternElement} (known : inner ⊆ Balanced.closers)
    (notEnd : state.cursor.peek.isEnd = false) (flat : state.cursor.peek.Flat)
    (first : patternElement (patternElements bound ")" []) state = .ok element middle)
    (later : patternElements bound ")" inner middle = .ok elements after) :
    patternElements (bound + 1) ")" inner state = .ok (element :: elements) after := by
  have head := Balanced.headD_mem_closers (show ")" ∈ Balanced.closers by decide) known
  have differs := Balanced.isPunct_of_flat flat head
  have notOpening := flat.1
  have notClosing := flat.2
  cases inner <;>
    simp_all [patternElements, bind, EStateM.bind, peek, pure, EStateM.pure]

/-- A token that stands for itself is read as an element. -/
theorem patternElements_of_step (step : Balanced.Step inner state.cursor.peek within)
    (known : inner ⊆ Balanced.closers) (ordinary : state.cursor.peek.captureName? = none)
    (alone : (state.cursor.peek.isWord "$" && (state.cursor.peekAt 1).isPunct "(") = false)
    (advanced : advance state = .ok state.cursor.peek (state.past 1))
    (run : patternElements bound ")" within (state.past 1) = .ok elements after) :
    patternElements (bound + 1) ")" inner state =
      .ok (.token state.cursor.peek :: elements) after := by
  have notEnd := step.notEnd
  cases step with
  | plain notEnd flat =>
    refine patternElements_cons known notEnd flat ?_ run
    simp [patternElement, bind, EStateM.bind, peek, peekAt, alone, ordinary, advanced, pure,
      EStateM.pure]
  | closing _ closes =>
    simp [patternElements, bind, EStateM.bind, peek, notEnd, closes, advanced, run, pure,
      EStateM.pure]
  | opening opens =>
    have head := Balanced.headD_mem_closers (show ")" ∈ Balanced.closers by decide) known
    have differs := Balanced.isPunct_of_closer? head opens
    cases inner <;>
      simp_all [patternElements, bind, EStateM.bind, peek, pure, EStateM.pure]

/-- The parser reads so many tokens and comes to the value, but for its places. -/
def Returns {α : Type} (parser : Parser α) (unplaced : α → α) (value : α) (count : Nat)
    (state : State) : Prop :=
  ∃ other, parser state = .ok other (state.past count) ∧ unplaced other = unplaced value

theorem returns_capture {content : Parser Pattern} {name : String} {kind : CaptureKind}
    {span : Span} (named : (placeholderAt name span).captureName? = some name)
    (ahead : Ahead ((PatternElement.capture name kind span).flatten ++ more) state) :
    Returns (patternElement content) (·.unplaced) (.capture name kind span) 3 state := by
  obtain ⟨spelled, advanced, ahead⟩ := ahead.cons
  have colons := ahead.expectPunct
  obtain ⟨kinded, advancedToo, -⟩ := ahead.cons.2.2.cons
  have isNamed := (Token.captureName?_congr spelled).trans named
  have single : state.cursor.peek.isWord "$" = false := by
    rw [Bool.eq_false_iff]
    intro isDollar
    rw [Template.captureName?_of_isDollar isDollar] at isNamed
    cases isNamed
  rw [← Token.isWord_iff_spelling, Token.isWord, Bool.and_eq_true, beq_iff_eq, beq_iff_eq] at kinded
  refine ⟨.capture name kind state.cursor.peek.span, ?_, rfl⟩
  simp [patternElement, bind, EStateM.bind, peek, peekAt, single, isNamed, advanced, colons,
    advancedToo, Token.isName, kinded, CaptureKind.ofWord?_word, pure, EStateM.pure]
  rfl

theorem returns_repetition {content : Parser Pattern} {inside : Pattern} {separator : Token}
    {span : Span} (notEnd : separator.isEnd = false)
    (ahead : Ahead ((PatternElement.repetition inside separator span).flatten ++ more) state)
    (returns : Returns content Pattern.unplaced inside (Pattern.flatten inside).length
      ((state.past 1).past 1)) :
    Returns (patternElement content) (·.unplaced) (.repetition inside separator span)
      ((PatternElement.repetition inside separator span).flatten.length) state := by
  simp only [PatternElement.flatten, List.cons_append, List.append_assoc, List.nil_append] at ahead
  obtain ⟨others, run, unplaced⟩ := returns
  obtain ⟨starts, advanced, ahead⟩ := ahead.cons
  obtain ⟨opens, advancedToo, ahead⟩ := ahead.cons
  rw [← Token.isWord_iff_spelling] at starts
  have opens : (state.cursor.peekAt 1).isPunct "(" = true := Token.isPunct_iff_spelling.mpr opens
  have closes := ahead.past.expectPunct
  obtain ⟨same, separated, -⟩ := ahead.past.cons.2.2.cons
  have separates : (Cursor.peek _).isEnd = false := (congrArg (·.1 == .eof) same).trans notEnd
  have total : (PatternElement.repetition inside separator span).flatten.length =
      1 + 1 + (Pattern.flatten inside).length + 1 + 1 := by
    simp [PatternElement.flatten]
    omega
  rw [Returns, total]
  simp only [← State.past_past, patternElement, bind, EStateM.bind, peek, peekAt, starts, opens,
    Bool.and_self, if_true, advanced, advancedToo, run, closes, separated, separates,
    Bool.false_eq_true, if_false]
  refine ⟨_, rfl, ?_⟩
  simp only [PatternElement.unplaced, unplaced, Token.unplaced_congr same]

/-- The elements behind the first one are read behind its tokens. -/
theorem Returns.cons {element other : PatternElement} {rest others : Pattern}
    (run : patternElements bound ")" inner state =
      .ok (other :: others)
        ((state.past element.flatten.length).past (Pattern.flatten rest).length))
    (first : other.unplaced = element.unplaced)
    (later : Pattern.unplaced others = Pattern.unplaced rest) :
    Returns (patternElements bound ")" inner) Pattern.unplaced (element :: rest)
      (Pattern.flatten (element :: rest)).length state := by
  refine ⟨other :: others, ?_, by rw [Pattern.unplaced, Pattern.unplaced, first, later]⟩
  rw [Pattern.flatten, List.length_append, ← State.past_past]
  exact run

/-- Tokens that are spelled like the tokens of a pattern are read as its elements. -/
theorem returns_patternElements (written : Pattern.Written inner elements)
    (known : inner ⊆ Balanced.closers)
    (ahead : Ahead (Pattern.flatten elements ++ (.punct, ")") :: more) state)
    (enough : (Pattern.flatten elements).length < bound) :
    Returns (patternElements bound ")" inner) Pattern.unplaced elements
      (Pattern.flatten elements).length state := by
  induction written generalizing state bound more with
  | nil =>
    obtain ⟨bound, rfl⟩ := Nat.exists_eq_add_one.mpr enough
    have closes := Token.isPunct_iff_spelling.mpr ahead.cons.1
    refine ⟨[], ?_, rfl⟩
    simp [patternElements, bind, EStateM.bind, peek, Token.isEnd_of_isPunct closes, closes]
    rfl
  | @token inner within token rest step ordinary alone _ ih =>
    obtain ⟨bound, rfl⟩ := Nat.exists_eq_add_one.mpr (Nat.zero_lt_of_lt enough)
    obtain ⟨same, advanced, ahead⟩ := ahead.cons
    obtain ⟨others, run, unplaced⟩ := ih (step.subset_closers known) ahead
      (Nat.lt_of_succ_lt_succ enough)
    have apart : (state.cursor.peek.isWord "$" && (state.cursor.peekAt 1).isPunct "(") = false := by
      rw [Bool.eq_false_iff, Ne, Bool.and_eq_true, Token.isWord_iff_spelling,
        Token.isPunct_iff_spelling]
      rintro ⟨isDollar, opens⟩
      apply alone (Token.isWord_iff_spelling.mpr (same.symm.trans isDollar))
      cases behind : Pattern.flatten rest with
      | nil =>
        rw [behind] at ahead
        exact absurd (ahead.cons.1.symm.trans opens) (by decide)
      | cons following others =>
        rw [behind] at ahead
        exact congrArg some (ahead.cons.1.symm.trans opens)
    exact .cons (patternElements_of_step (step.congr same) known
      ((Token.captureName?_congr same).trans ordinary) apart advanced run)
      (congrArg PatternElement.token (Token.unplaced_congr same)) unplaced
  | @capture inner name kind span rest named _ ih =>
    obtain ⟨bound, rfl⟩ := Nat.exists_eq_add_one.mpr (Nat.zero_lt_of_lt enough)
    rw [Pattern.flatten, List.append_assoc] at ahead
    have isName := Token.isName_of_spelling ahead.cons.1
    obtain ⟨other, first, same⟩ := returns_capture named ahead
    have shorter : (Pattern.flatten rest).length < bound := by
      simp [Pattern.flatten, PatternElement.flatten] at enough
      omega
    obtain ⟨others, run, unplaced⟩ := ih known ahead.past shorter
    exact .cons (patternElements_cons known (Token.isEnd_of_isName isName)
      (Token.flat_of_isName isName) first run) same unplaced
  | @repetition inner content rest separator span inside notEnd _ insideIh ih =>
    obtain ⟨bound, rfl⟩ := Nat.exists_eq_add_one.mpr (Nat.zero_lt_of_lt enough)
    rw [Pattern.flatten, List.append_assoc] at ahead
    have isName := Token.isName_of_spelling ahead.cons.1
    have within := ahead.cons.2.2.cons.2.2
    rw [List.append_eq, List.append_assoc] at within
    have shorter : (Pattern.flatten content).length < bound ∧
        (Pattern.flatten rest).length < bound := by
      simp [Pattern.flatten, PatternElement.flatten] at enough
      omega
    obtain ⟨other, first, same⟩ := returns_repetition notEnd ahead
      (insideIh (List.nil_subset _) within shorter.1)
    obtain ⟨others, run, unplaced⟩ := ih known ahead.past shorter.2
    exact .cons (patternElements_cons known (Token.isEnd_of_isName isName)
      (Token.flat_of_isName isName) first run) same unplaced

theorem returns_pattern (written : Pattern.Written [] elements)
    (ahead : Ahead (Pattern.flatten elements ++ (.punct, ")") :: more) state) :
    Returns pattern Pattern.unplaced elements (Pattern.flatten elements).length state := by
  have length := ahead.length_le
  simp only [Cursor.rest, List.length_map, List.length_drop, Array.length_toList,
    List.length_append, List.length_cons] at length
  exact returns_patternElements written (List.nil_subset _) ahead
    (show _ < state.cursor.tokens.size - state.cursor.index by omega)

end Again

end Grammar

/-! ## Rules and declarations -/

/-- The tokens of a rule: its pattern in parentheses, an arrow and its template in braces. -/
structure RuleTokens where
  opening : Token
  pattern : List Token
  closing : Token
  arrow : Token
  brace : Token
  template : List Token
  close : Token

namespace RuleTokens

/-- The tokens of a rule, one after the other. -/
def tokens (run : RuleTokens) : List Token :=
  run.opening :: (run.pattern ++
    run.closing :: run.arrow :: run.brace :: (run.template ++ [run.close]))

/-- The tokens spell the rule.  Its pattern flattens to the tokens between the parentheses, and
tokens that are spelled so are read as the same pattern wherever they stand.  Its template is the
balanced run between the braces. -/
structure Spells (run : RuleTokens) (rule : Rule) : Prop where
  opening : run.opening.isPunct "(" = true
  closing : run.closing.isPunct ")" = true
  arrow : run.arrow.isPunct "=>" = true
  brace : run.brace.isPunct "\x7b" = true
  close : run.close.isPunct "\x7d" = true
  flattened : run.pattern.map Token.spelling = Pattern.flatten rule.pattern
  template : run.template = rule.template
  balanced : Balanced.Closed rule.template
  again {state : Grammar.State} {more : List (TokenKind × String)}
    (ahead : Grammar.Ahead (Pattern.flatten rule.pattern ++ (.punct, ")") :: more) state) :
    Grammar.Returns Grammar.pattern Pattern.unplaced rule.pattern
      (Pattern.flatten rule.pattern).length state

end RuleTokens

namespace Grammar

variable {state after : State}

theorem spells_rule {rule : Rule} (ready : state.cursor.Ready)
    (run : Grammar.rule state = .ok rule after) :
    ∃ run : RuleTokens, run.Spells rule ∧ Passed state run.tokens after := by
  simp only [Grammar.rule, bind_eq_ok_iff] at run
  obtain ⟨opening, _, opened, elements, _, patterned, closing, _, closed, arrow, _, arrowed, brace,
    _, braced, template, _, taken, span, _, finished, run⟩ := run
  cases finished
  cases run
  obtain ⟨isOpening, one⟩ := passed_expectPunct ready opened
  obtain ⟨spelled, written⟩ := spelled_pattern patterned
  obtain ⟨tokens, two, flattened⟩ := spelled.passed one.ready
  obtain ⟨isClosing, three⟩ := passed_expectPunct two.ready closed
  obtain ⟨isArrow, four⟩ := passed_expectPunct three.ready arrowed
  obtain ⟨isBrace, five⟩ := passed_expectPunct four.ready braced
  obtain ⟨balanced, close, closes, six⟩ := passed_takeBalanced (by decide) five.ready taken
  exact ⟨⟨opening, tokens, closing, arrow, brace, template, close⟩,
    ⟨isOpening, isClosing, isArrow, isBrace, closes, flattened, rfl, balanced,
      returns_pattern written⟩,
    one.trans (two.trans (three.trans (four.trans (five.trans six))))⟩

theorem spells_rulesOf {name : String} {rules : List Rule} {bound : Nat}
    (ready : state.cursor.Ready) (run : rulesOf name bound state = .ok rules after)
    (enough : state.cursor.rest.length < bound) :
    after.cursor.peek.isPunct "\x7d" = true ∧
      ∃ runs : List RuleTokens, List.Forall₂ RuleTokens.Spells runs rules ∧
        Passed state (runs.flatMap RuleTokens.tokens) after := by
  induction bound generalizing state after rules with
  | zero => cases enough
  | succ bound ih =>
    simp only [rulesOf, bind_eq_ok_iff] at run
    obtain ⟨_, _, looked, run⟩ := run
    cases looked
    split at run
    · rename_i closes
      cases run
      exact ⟨closes, [], .nil, rfl, ready, rfl⟩
    simp only [bind_eq_ok_iff] at run
    obtain ⟨_, _, peeked, run⟩ := run
    cases peeked
    split at run
    · cases run
    simp only [bind_eq_ok_iff] at run
    obtain ⟨first, middle, firstRun, rest, _, restRun, run⟩ := run
    cases run
    obtain ⟨run, spells, one⟩ := spells_rule ready firstRun
    have shorter : middle.cursor.rest.length < bound := by
      rw [one.rest, RuleTokens.tokens] at enough
      simp only [List.cons_append, List.length_cons, List.length_append] at enough
      omega
    obtain ⟨closes, runs, all, later⟩ := ih one.ready restRun shorter
    exact ⟨closes, run :: runs, .cons spells all, one.trans later⟩

/-- Reading a declaration loses nothing.  The tokens of an accepted declaration are its first word,
its name and, between braces, the tokens of its rules.  Each rule of the macro that is added to the
session is spelled by its own tokens. -/
theorem macroDeclaration_lossless {statement : Stmt} {context : Context}
    (ready : state.cursor.Ready) (known : state.context = some context)
    (run : macroDeclaration state = .ok statement after) :
    ∃ (declared : Context) (definition : MacroDef) (start name opening closing : Token)
      (runs : List RuleTokens),
      after.context = some declared ∧
        declared.session.macros = context.session.macros.add definition ∧
        opening.isPunct "\x7b" = true ∧ closing.isPunct "\x7d" = true ∧
        state.cursor.rest = start :: name :: opening ::
          (runs.flatMap RuleTokens.tokens ++ closing :: after.cursor.rest) ∧
        List.Forall₂ RuleTokens.Spells runs definition.rules := by
  simp only [macroDeclaration, bind_eq_ok_iff] at run
  obtain ⟨start, _, one, name, _, two, _, _, marked, opening, _, opened, bound, _, counted, rules,
    _, rulesRun, closing, _, seven, span, _, finished, run⟩ := run
  cases one
  cases two
  cases marked
  cases counted
  cases seven
  cases finished
  split at run
  · cases run
  simp only [bind_eq_ok_iff] at run
  obtain ⟨macroId, _, numbered, _, _, declares, run⟩ := run
  have firstReady := ready.forward_advance.ready ready
  have bothReady := firstReady.forward_advance.ready firstReady
  obtain ⟨isOpening, three⟩ := passed_expectPunct bothReady opened
  obtain ⟨isClosing, runs, spells, four⟩ :=
    spells_rulesOf three.ready rulesRun (by simp [Cursor.rest, Cursor.remaining])
  have five := passed_advance four.ready (Token.isEnd_of_isPunct isClosing)
  have all := three.trans (four.trans five)
  simp only [withContext, four.context, three.context, known, Option.map_some] at numbered
  cases numbered
  cases declares
  cases run
  have split := all.rest
  simp only [List.append_assoc, List.cons_append, List.nil_append] at split
  exact ⟨_, ⟨_, rules, _, _⟩, _, _, opening, _, runs, rfl,
    congrArg (Registry.add · _) (Context.mark_macros _ _ _ _), isOpening, isClosing,
    Cursor.rest_of_advance (Cursor.rest_of_advance split), spells⟩

/-- A declaration with two rules. -/
def swapping : List Token :=
  (tokenize ("macro swap \x7b ($($a:ident[$b:expr]);) => \x7b $([$b, $a]) , \x7d " ++
    "() => \x7b\x7d \x7d")).toOption.getD []

theorem swapping_lossless :
    ∃ statement after runs, ∃ definition : MacroDef,
      macroDeclaration (Session.readerState {} swapping [] none) = .ok statement after ∧
      List.Forall₂ RuleTokens.Spells runs definition.rules ∧
      (definition.rules.map fun rule => (Pattern.flatten rule.pattern).map Prod.snd) =
        [["$", "(", "$a", ":", "ident", "[", "$b", ":", "expr", "]", ")", ";"], []] := by
  have evaluated : endsWith (fun _ after => after.context.any fun context =>
      (context.session.macros.definitions.toList.map fun definition =>
        definition.rules.map fun rule => (Pattern.flatten rule.pattern).map Prod.snd) ==
          [[["$", "(", "$a", ":", "ident", "[", "$b", ":", "expr", "]", ")", ";"], []]])
      (macroDeclaration (Session.readerState {} swapping [] none)) = true := by
    decide +kernel
  obtain ⟨statement, after, run, holds⟩ := exists_ok_of_endsWith evaluated
  have ready : (Session.readerState {} swapping [] none).cursor.Ready :=
    Cursor.ready_ofTokens swapping
  obtain ⟨declared, definition, _, _, _, _, runs, context, added, -, -, -, spells⟩ :=
    macroDeclaration_lossless ready rfl run
  have single : declared.session.macros.definitions.toList = [definition] :=
    congrArg (·.definitions.toList) added
  rw [context, Option.any_some, single, beq_iff_eq] at holds
  exact ⟨statement, after, runs, definition, run, spells, List.singleton_inj.mp holds⟩

end Grammar

end MacroScript
