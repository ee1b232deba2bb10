import MacroScript.Token.Balanced

/-!
# Balanced brackets

Whether brackets are balanced is said with a stack of the brackets that are open: an opening
bracket is pushed, and a closing one must close the innermost.  A balanced run that is
followed by its closing bracket is exactly what `Balanced.take` reads.  Where it stops, for
whatever reason, is decided by the first token that does not fit the stack.
-/

namespace MacroScript

namespace Token

variable {token : Token} {text : String}

theorem isEnd_of_isPunct (isPunct : token.isPunct text = true) : token.isEnd = false := by
  simp only [Token.isPunct, Bool.and_eq_true, beq_iff_eq] at isPunct
  simp [Token.isEnd, isPunct.1]

theorem isEnd_of_isReserved (isReserved : token.isReserved text = true) :
    token.isEnd = false := by
  simp only [Token.isReserved, Bool.and_eq_true, beq_iff_eq] at isReserved
  simp [Token.isEnd, isReserved.1]

theorem isEnd_of_isName (isName : token.isName = true) : token.isEnd = false := by
  simp only [Token.isName, beq_iff_eq] at isName
  simp [Token.isEnd, isName]

/-- A token that is no bracket. -/
def Flat (token : Token) : Prop :=
  token.closer? = none ∧ token.isCloser = false

theorem flat_of_kind (kind : token.kind ≠ .punct) : token.Flat := by
  simp [Token.Flat, Token.closer?, Token.isCloser, Token.isPunct, kind]

theorem flat_of_isName (isName : token.isName = true) : token.Flat := by
  rw [Token.isName, beq_iff_eq] at isName
  exact flat_of_kind (by simp [isName])

end Token

namespace Balanced

variable {token : Token} {tree rest first second tokens : List Token} {closer : String}
  {inner outer : List String} {outcome : Outcome}

/-- The closing brackets. -/
def closers : List String :=
  [")", "]", "\x7d"]

theorem kind_of_isPunct {text : String} (isText : token.isPunct text = true) :
    token.kind = .punct := by
  rw [Token.isPunct, Bool.and_eq_true, beq_iff_eq] at isText
  exact isText.1

theorem closer?_eq_some (opens : token.closer? = some closer) :
    closer ∈ closers ∧ token.kind = .punct := by
  unfold Token.closer? at opens
  split at opens
  · rename_i isOpening
    cases opens
    exact ⟨by simp [closers], kind_of_isPunct isOpening⟩
  · split at opens
    · rename_i isOpening
      cases opens
      exact ⟨by simp [closers], kind_of_isPunct isOpening⟩
    · split at opens
      · rename_i isOpening
        cases opens
        exact ⟨by simp [closers], kind_of_isPunct isOpening⟩
      · cases opens

theorem isCloser_iff : token.isCloser = true ↔ ∃ closer ∈ closers, token.isPunct closer = true := by
  simp [Token.isCloser, closers, or_assoc]

/-- A closing bracket does not open anything. -/
theorem closer?_of_isPunct (known : closer ∈ closers) (closes : token.isPunct closer = true) :
    token.closer? = none := by
  simp only [Token.isPunct, Bool.and_eq_true, beq_iff_eq] at closes
  simp only [closers, List.mem_cons, List.not_mem_nil, or_false] at known
  rcases known with rfl | rfl | rfl <;> simp [Token.closer?, Token.isPunct, closes.2]

/-- An opening bracket is not a closing one. -/
theorem isPunct_of_closer? {opened : String} (known : closer ∈ closers)
    (opens : token.closer? = some opened) : token.isPunct closer = false := by
  rw [Bool.eq_false_iff]
  intro closes
  rw [closer?_of_isPunct known closes] at opens
  cases opens

/-- The tokens close the brackets of `inner`, which are open at the start, innermost first, and
all brackets that they open themselves. -/
inductive Within : (inner : List String) → List Token → Prop
  | nil : Within [] []
  | plain {inner : List String} {token : Token} {rest : List Token} (notEnd : token.isEnd = false)
      (flat : token.Flat) (later : Within inner rest) : Within inner (token :: rest)
  | opening {inner : List String} {token : Token} {rest : List Token} {closer : String}
      (opens : token.closer? = some closer) (later : Within (closer :: inner) rest) :
      Within inner (token :: rest)
  | closing {inner : List String} {token : Token} {rest : List Token} {closer : String}
      (known : closer ∈ closers) (closes : token.isPunct closer = true)
      (later : Within inner rest) : Within (closer :: inner) (token :: rest)

/-- All brackets are closed, each by its own partner. -/
abbrev Closed (tokens : List Token) : Prop :=
  Within [] tokens

/-- Runs one after the other. -/
theorem Within.append (one : Within inner first) (two : Within outer second) :
    Within (inner ++ outer) (first ++ second) := by
  induction one with
  | nil => exact two
  | plain notEnd flat _ ih => exact .plain notEnd flat ih
  | opening opens _ ih => exact .opening opens ih
  | closing known closes _ ih => exact .closing known closes ih

/-- The first bracket of the stack that is closed with those above it ends a run. -/
theorem Within.exists_split (within : Within (inner ++ closer :: outer) tokens) :
    ∃ tree close rest, tokens = tree ++ close :: rest ∧ Within inner tree ∧
      close.isPunct closer = true ∧ Within outer rest := by
  generalize stacked : inner ++ closer :: outer = stack at within
  induction within generalizing inner with
  | nil => simp at stacked
  | @plain stack token rest notEnd flat _ ih =>
    obtain ⟨tree, close, after, rfl, inside, closes, outside⟩ := ih stacked
    exact ⟨token :: tree, close, after, rfl, .plain notEnd flat inside, closes, outside⟩
  | @opening stack token rest opened opens _ ih =>
    obtain ⟨tree, close, after, rfl, inside, closes, outside⟩ :=
      ih (show (opened :: inner) ++ closer :: outer = opened :: stack by rw [← stacked]; rfl)
    exact ⟨token :: tree, close, after, rfl, .opening opens inside, closes, outside⟩
  | @closing stack token rest expected known closes later ih =>
    cases inner with
    | nil =>
      simp only [List.nil_append, List.cons.injEq] at stacked
      obtain ⟨rfl, rfl⟩ := stacked
      exact ⟨[], token, rest, rfl, .nil, closes, later⟩
    | cons first others =>
      simp only [List.cons_append, List.cons.injEq] at stacked
      obtain ⟨rfl, others_eq⟩ := stacked
      obtain ⟨tree, close, after, rfl, inside, closesLater, outside⟩ := ih others_eq
      exact ⟨token :: tree, close, after, rfl, .closing known closes inside, closesLater,
        outside⟩

/-- The tokens behind the first are a run again. -/
theorem Within.exists_tail (within : Within inner (token :: rest)) :
    ∃ outer, Within outer rest := by
  cases within with
  | plain _ _ later
  | opening _ later
  | closing _ _ later => exact ⟨_, later⟩

/-- A run in brackets is followed by its closing bracket. -/
theorem Within.exists_of_opening (within : Within inner (token :: rest))
    (opens : token.closer? = some closer) :
    ∃ tree close after, rest = tree ++ close :: after ∧ Closed tree ∧
      close.isPunct closer = true ∧ Within inner after := by
  cases within with
  | plain _ flat _ =>
    rw [flat.1] at opens
    cases opens
  | opening opensToo later =>
    rw [opens, Option.some.injEq] at opensToo
    subst opensToo
    exact Within.exists_split (by exact later)
  | closing known closes _ =>
    rw [isPunct_of_closer? known opens] at closes
    cases closes

/-! ## Reading step by step -/

/-- A token is read with the brackets of the first stack open, and those of the second one are
open behind it. -/
inductive Step : List String → Token → List String → Prop
  | plain {inner : List String} {token : Token} (notEnd : token.isEnd = false)
      (flat : token.Flat) : Step inner token inner
  | opening {inner : List String} {token : Token} {closer : String}
      (opens : token.closer? = some closer) : Step inner token (closer :: inner)
  | closing {inner : List String} {token : Token} {closer : String} (known : closer ∈ closers)
      (closes : token.isPunct closer = true) : Step (closer :: inner) token inner

/-- Every closing bracket among the tokens closes the innermost one that is open.  The stacks
hold the brackets that are open before and behind the tokens. -/
inductive Passes : List String → List Token → List String → Prop
  | nil {inner : List String} : Passes inner [] inner
  | cons {inner next after : List String} {token : Token} {rest : List Token}
      (step : Step inner token next) (later : Passes next rest after) :
      Passes inner (token :: rest) after

theorem within_iff_passes : Within inner tokens ↔ Passes inner tokens [] := by
  constructor
  · intro within
    induction within with
    | nil => exact .nil
    | plain notEnd flat _ ih => exact .cons (.plain notEnd flat) ih
    | opening opens _ ih => exact .cons (.opening opens) ih
    | closing known closes _ ih => exact .cons (.closing known closes) ih
  · intro passes
    generalize nothing : [] = after at passes
    induction passes with
    | nil =>
      subst nothing
      exact .nil
    | cons step _ ih =>
      cases step with
      | plain notEnd flat => exact .plain notEnd flat (ih nothing)
      | opening opens => exact .opening opens (ih nothing)
      | closing known closes => exact .closing known closes (ih nothing)

/-- What is left when reading stops with the brackets of a stack open, and what is said then. -/
inductive Stops (closer : String) : List String → List Token → Outcome → Prop
  | exhausted {inner : List String} : Stops closer inner [] (.unfinished [])
  | ended {inner : List String} {token : Token} {rest : List Token} (isEnd : token.isEnd = true) :
      Stops closer inner (token :: rest) (.unfinished rest)
  | closed {token : Token} {rest : List Token} (closes : token.isPunct closer = true) :
      Stops closer [] (token :: rest) (.closed [] rest)
  | mismatched {inner : List String} {token : Token} {rest : List Token}
      (isCloser : token.isCloser = true) (differs : token.isPunct (inner.headD closer) = false) :
      Stops closer inner (token :: rest) (.mismatched token rest)

theorem isPunct_of_flat (flat : token.Flat) (known : closer ∈ closers) :
    token.isPunct closer = false := by
  rw [Bool.eq_false_iff]
  intro closes
  have isCloser := isCloser_iff.mpr ⟨closer, known, closes⟩
  rw [flat.2] at isCloser
  cases isCloser

section Reading

variable {next after : List String} {before left : List Token}

theorem headD_mem_closers (knownCloser : closer ∈ closers) (known : inner ⊆ closers) :
    inner.headD closer ∈ closers := by
  cases inner with
  | nil => exact knownCloser
  | cons expected outer => exact known List.mem_cons_self

/-- Only brackets stay open. -/
theorem Step.subset_closers (step : Step inner token next) (known : inner ⊆ closers) :
    next ⊆ closers := by
  cases step with
  | plain => exact known
  | opening opens => exact List.cons_subset.mpr ⟨(closer?_eq_some opens).1, known⟩
  | closing => exact (List.cons_subset.mp known).2

theorem takeWithin_of_step (knownCloser : closer ∈ closers) (known : inner ⊆ closers)
    (step : Step inner token next) :
    takeWithin closer inner (token :: rest) = (takeWithin closer next rest).cons token := by
  have head := headD_mem_closers knownCloser known
  cases step with
  | plain notEnd flat =>
    have differs := isPunct_of_flat flat head
    cases inner <;> simp_all [takeWithin, Token.Flat]
  | opening opens =>
    have differs := isPunct_of_closer? head opens
    have notEnd : token.isEnd = false := by simp [Token.isEnd, (closer?_eq_some opens).2]
    cases inner <;> simp_all [takeWithin]
  | closing _ closes => simp [takeWithin, Token.isEnd_of_isPunct closes, closes]

theorem takeWithin_of_stops (stops : Stops closer inner left outcome) :
    takeWithin closer inner left = outcome := by
  cases stops with
  | exhausted => simp [takeWithin]
  | ended isEnd => simp [takeWithin, isEnd]
  | closed closes => simp [takeWithin, Token.isEnd_of_isPunct closes, closes]
  | mismatched isCloser differs =>
    obtain ⟨other, otherKnown, isOther⟩ := isCloser_iff.mp isCloser
    have notOpening := closer?_of_isPunct otherKnown isOther
    cases inner <;> simp_all [takeWithin, Token.isEnd_of_isPunct isOther]

/-- Either the token is read, or reading stops in front of it or with it. -/
theorem step_or_stops (known : inner ⊆ closers) :
    (∃ next, Step inner token next) ∨ ∃ outcome, Stops closer inner (token :: rest) outcome := by
  cases isEnd : token.isEnd with
  | true => exact .inr ⟨_, .ended isEnd⟩
  | false =>
    cases opens : token.closer? with
    | some opened => exact .inl ⟨_, .opening opens⟩
    | none =>
      cases isCloser : token.isCloser with
      | false => exact .inl ⟨_, .plain isEnd ⟨opens, isCloser⟩⟩
      | true =>
        cases fits : token.isPunct (inner.headD closer) with
        | false => exact .inr ⟨_, .mismatched isCloser fits⟩
        | true =>
          cases inner with
          | nil => exact .inr ⟨_, .closed fits⟩
          | cons expected outer => exact .inl ⟨_, .closing (known List.mem_cons_self) fits⟩

/-- Tokens are read until reading stops. -/
theorem exists_stops (closer : String) (known : inner ⊆ closers) (tokens : List Token) :
    ∃ before left after outcome, tokens = before ++ left ∧ Passes inner before after ∧
      Stops closer after left outcome := by
  induction tokens generalizing inner with
  | nil => exact ⟨[], [], inner, _, rfl, .nil, .exhausted⟩
  | cons token rest ih =>
    rcases step_or_stops known with ⟨next, step⟩ | ⟨outcome, stops⟩
    · obtain ⟨before, left, after, outcome, rfl, passes, stops⟩ := ih (step.subset_closers known)
      exact ⟨token :: before, left, after, outcome, rfl, .cons step passes, stops⟩
    · exact ⟨[], token :: rest, inner, outcome, rfl, .nil, stops⟩

/-- Tokens that are read stand in front of what comes of the rest. -/
theorem takeWithin_append (knownCloser : closer ∈ closers) (known : inner ⊆ closers)
    (passes : Passes inner before after) :
    takeWithin closer inner (before ++ left) =
      before.foldr Outcome.cons (takeWithin closer after left) := by
  induction passes with
  | nil => rfl
  | cons step _ ih =>
    rw [List.cons_append, takeWithin_of_step knownCloser known step,
      ih (step.subset_closers known)]
    rfl

theorem foldr_cons_closed (before tree : List Token) :
    before.foldr Outcome.cons (.closed tree rest) = .closed (before ++ tree) rest := by
  induction before with
  | nil => rfl
  | cons token before ih => simp [ih, Outcome.cons]

theorem foldr_cons_mismatched (before : List Token) :
    before.foldr Outcome.cons (.mismatched token rest) = .mismatched token rest := by
  induction before with
  | nil => rfl
  | cons token before ih => simp [ih, Outcome.cons]

theorem foldr_cons_unfinished (before : List Token) :
    before.foldr Outcome.cons (.unfinished rest) = .unfinished rest := by
  induction before with
  | nil => rfl
  | cons token before ih => simp [ih, Outcome.cons]

/-- What comes of reading is decided by where it stops. -/
theorem take_eq_iff (knownCloser : closer ∈ closers) {result : Outcome} :
    take closer tokens = result ↔ ∃ before left after outcome, tokens = before ++ left ∧
      Passes [] before after ∧ Stops closer after left outcome ∧
      before.foldr Outcome.cons outcome = result := by
  have start : [] ⊆ closers := List.nil_subset _
  constructor
  · rintro rfl
    obtain ⟨before, left, after, outcome, rfl, passes, stops⟩ := exists_stops closer start tokens
    refine ⟨before, left, after, outcome, rfl, passes, stops, ?_⟩
    rw [take, takeWithin_append knownCloser start passes, takeWithin_of_stops stops]
  · rintro ⟨before, left, after, outcome, rfl, passes, stops, rfl⟩
    rw [take, takeWithin_append knownCloser start passes, takeWithin_of_stops stops]

end Reading

/-- Balanced runs are what is read up to a closing bracket. -/
theorem take_eq_closed_iff (known : closer ∈ closers) :
    take closer tokens = .closed tree rest ↔
      ∃ close, close.isPunct closer = true ∧ Closed tree ∧ tokens = tree ++ close :: rest := by
  rw [take_eq_iff known]
  constructor
  · rintro ⟨before, left, after, outcome, rfl, passes, stops, result⟩
    cases stops with
    | exhausted
    | ended => simp [foldr_cons_unfinished] at result
    | mismatched => simp [foldr_cons_mismatched] at result
    | @closed close _ closes =>
      simp only [foldr_cons_closed, List.append_nil, Outcome.closed.injEq] at result
      obtain ⟨rfl, rfl⟩ := result
      exact ⟨close, closes, within_iff_passes.mpr passes, rfl⟩
  · rintro ⟨close, closes, closed, rfl⟩
    refine ⟨tree, close :: rest, [], _, rfl, within_iff_passes.mp closed, .closed closes, ?_⟩
    simp [foldr_cons_closed]

/-- A closing bracket does not fit if it is not the partner of the innermost one that is open,
where `closer` is open around all others. -/
theorem take_eq_mismatched_iff (known : closer ∈ closers) {found : Token} :
    take closer tokens = .mismatched found rest ↔
      ∃ before inner, Passes [] before inner ∧ found.isCloser = true ∧
        found.isPunct (inner.headD closer) = false ∧ tokens = before ++ found :: rest := by
  rw [take_eq_iff known]
  constructor
  · rintro ⟨before, left, inner, outcome, rfl, passes, stops, result⟩
    cases stops with
    | exhausted
    | ended => simp [foldr_cons_unfinished] at result
    | closed => simp [foldr_cons_closed] at result
    | mismatched isCloser differs =>
      simp only [foldr_cons_mismatched, Outcome.mismatched.injEq] at result
      obtain ⟨rfl, rfl⟩ := result
      exact ⟨before, inner, passes, isCloser, differs, rfl⟩
  · rintro ⟨before, inner, passes, isCloser, differs, rfl⟩
    exact ⟨before, found :: rest, inner, _, rfl, passes, .mismatched isCloser differs,
      foldr_cons_mismatched before⟩

/-- Input ends while all closing brackets fit and `closer` is still open. -/
theorem take_eq_unfinished_iff (known : closer ∈ closers) :
    take closer tokens = .unfinished rest ↔
      ∃ before inner, Passes [] before inner ∧
        (tokens = before ∧ rest = [] ∨
          ∃ finish, finish.isEnd = true ∧ tokens = before ++ finish :: rest) := by
  rw [take_eq_iff known]
  constructor
  · rintro ⟨before, left, inner, outcome, rfl, passes, stops, result⟩
    refine ⟨before, inner, passes, ?_⟩
    cases stops with
    | exhausted =>
      simp only [foldr_cons_unfinished, Outcome.unfinished.injEq] at result
      exact .inl ⟨List.append_nil before, result.symm⟩
    | @ended _ finish _ isEnd =>
      simp only [foldr_cons_unfinished, Outcome.unfinished.injEq] at result
      subst result
      exact .inr ⟨finish, isEnd, rfl⟩
    | closed => simp [foldr_cons_closed] at result
    | mismatched => simp [foldr_cons_mismatched] at result
  · rintro ⟨before, inner, passes, ⟨rfl, rfl⟩ | ⟨finish, isEnd, rfl⟩⟩
    · exact ⟨tokens, [], inner, _, (List.append_nil _).symm, passes, .exhausted,
        foldr_cons_unfinished tokens⟩
    · exact ⟨before, finish :: rest, inner, _, rfl, passes, .ended isEnd,
        foldr_cons_unfinished before⟩

/-- A run is read exactly if it is balanced and its closing bracket follows, and then what was
read is the run and this bracket.  A bracket is rejected exactly if it is the first closing
bracket that does not close the innermost one, before input ends and before a run is complete.
In all other cases input ends too early. -/
theorem take_iff_balanced {closer : String} (known : closer ∈ closers) (tokens : List Token) :
    (∀ tree rest, take closer tokens = .closed tree rest ↔
      ∃ close, close.isPunct closer = true ∧ Closed tree ∧ tokens = tree ++ close :: rest) ∧
    (∀ found rest, take closer tokens = .mismatched found rest ↔
      ∃ before inner, Passes [] before inner ∧ found.isCloser = true ∧
        found.isPunct (inner.headD closer) = false ∧ tokens = before ++ found :: rest) ∧
    ∀ rest, take closer tokens = .unfinished rest ↔
      ∃ before inner, Passes [] before inner ∧
        (tokens = before ∧ rest = [] ∨
          ∃ finish, finish.isEnd = true ∧ tokens = before ++ finish :: rest) :=
  ⟨fun _ _ => take_eq_closed_iff known, fun _ _ => take_eq_mismatched_iff known,
    fun _ => take_eq_unfinished_iff known⟩

/-- In `[])` the run `[]` is closed, and in `[)` the last bracket does not fit. -/
theorem take_iff_balanced_brackets :
    ")" ∈ closers ∧
      take ")" (["[", "]", ")"].map (Token.synthetic · default)) =
        .closed (["[", "]"].map (Token.synthetic · default)) [] ∧
      take ")" (["[", ")"].map (Token.synthetic · default)) =
        .mismatched (.synthetic ")" default) [] := by
  have known : ")" ∈ closers := by decide
  refine ⟨known, ((take_iff_balanced known _).1 _ _).mpr ?_,
    ((take_iff_balanced known _).2.1 _ _).mpr ?_⟩
  · exact ⟨.synthetic ")" default, by decide, .opening rfl (.closing (by decide) (by decide) .nil),
      rfl⟩
  · exact ⟨[.synthetic "[" default], ["]"], .cons (.opening rfl) .nil, by decide, by decide, rfl⟩

/-- A closed run ends at one place only. -/
theorem Within.append_inj {others : List Token} {close other : Token} (known : closer ∈ closers)
    (one : Closed first) (closes : close.isPunct closer = true) (two : Closed second)
    (closesToo : other.isPunct closer = true)
    (same : first ++ close :: rest = second ++ other :: others) :
    first = second ∧ rest = others := by
  have read : take closer (first ++ close :: rest) = .closed first rest :=
    (take_eq_closed_iff known).mpr ⟨close, closes, one, rfl⟩
  have readToo := (take_eq_closed_iff known).mpr ⟨other, closesToo, two, same⟩
  rw [read, Outcome.closed.injEq] at readToo
  exact readToo

/-! ## Where a bracket is closed -/

section Closing

variable {next : List String}

/-- The length of the run that was read. -/
def Outcome.length? : Outcome → Option Nat
  | .closed tree _ => some tree.length
  | _ => none

theorem Outcome.length?_cons (token : Token) (outcome : Outcome) :
    (outcome.cons token).length? = outcome.length?.map (· + 1) := by
  cases outcome <;> rfl

/-- The bracket that is looked for is at the bottom of the stack. -/
theorem closeOffsetWithin?_of_step (step : Step inner token next) :
    closeOffsetWithin? (inner ++ [closer]) (token :: rest) =
      (closeOffsetWithin? (next ++ [closer]) rest).map (· + 1) := by
  cases step with
  | plain notEnd flat => simp [closeOffsetWithin?, flat.1, flat.2]
  | opening opens => simp [closeOffsetWithin?, opens]
  | closing known closes =>
    have isCloser := isCloser_iff.mpr ⟨_, known, closes⟩
    have text := (Bool.and_eq_true_iff.mp closes).2
    simp [closeOffsetWithin?, closer?_of_isPunct known closes, isCloser, text]

theorem closeOffsetWithin?_of_stops (known : closer ∈ closers) (notEnd : token.isEnd = false)
    (stops : Stops closer inner (token :: rest) outcome) :
    closeOffsetWithin? (inner ++ [closer]) (token :: rest) = outcome.length? := by
  cases stops with
  | ended isEnd => exact Bool.noConfusion (notEnd.symm.trans isEnd)
  | closed closes =>
    have isCloser := isCloser_iff.mpr ⟨closer, known, closes⟩
    have text := (Bool.and_eq_true_iff.mp closes).2
    simp [closeOffsetWithin?, closer?_of_isPunct known closes, isCloser, text, Outcome.length?]
  | mismatched isCloser differs =>
    obtain ⟨other, otherKnown, isOther⟩ := isCloser_iff.mp isCloser
    have isPunct : (token.kind == .punct) = true := (Bool.and_eq_true_iff.mp isOther).1
    rw [Token.isPunct, isPunct, Bool.true_and] at differs
    cases inner <;>
      simp_all [closeOffsetWithin?, closer?_of_isPunct otherKnown isOther, Outcome.length?]

/-- Both go on with the same stack and stop at the same token. -/
theorem closeOffsetWithin?_eq_length? (knownCloser : closer ∈ closers) (known : inner ⊆ closers)
    (ordinary : ∀ token ∈ tokens, token.isEnd = false) :
    closeOffsetWithin? (inner ++ [closer]) tokens = (takeWithin closer inner tokens).length? := by
  induction tokens generalizing inner with
  | nil => simp [closeOffsetWithin?, takeWithin, Outcome.length?]
  | cons token rest ih =>
    obtain ⟨notEnd, ordinaryRest⟩ := List.forall_mem_cons.mp ordinary
    rcases step_or_stops known with ⟨next, step⟩ | ⟨outcome, stops⟩
    · rw [closeOffsetWithin?_of_step step, takeWithin_of_step knownCloser known step,
        Outcome.length?_cons, ih (step.subset_closers known) ordinaryRest]
    · rw [takeWithin_of_stops stops, closeOffsetWithin?_of_stops knownCloser notEnd stops]

end Closing

end Balanced

/-- Of tokens of which at most the last is an end of input, a cursor reads all others. -/
theorem Cursor.exists_finish_ofTokens {tokens : List Token}
    (ordinary : ∀ token ∈ tokens.dropLast, token.isEnd = false) :
    ∃ finish, tokens = (Cursor.ofTokens tokens).tokens.toList ++ finish ∧
      (∀ token ∈ (Cursor.ofTokens tokens).tokens.toList, token.isEnd = false) ∧
      ∀ token ∈ finish, token.isEnd = true := by
  unfold Cursor.ofTokens
  split
  · rename_i isEmpty
    exact ⟨[], by simp [List.getLast?_eq_none_iff.mp isEmpty], by simp, nofun⟩
  · rename_i last isLast
    obtain ⟨front, rfl⟩ := List.getLast?_eq_some_iff.mp isLast
    rw [List.dropLast_concat] at ordinary
    cases isEnd : last.isEnd with
    | true => exact ⟨[last], by simp, by simpa using ordinary, by simpa using isEnd⟩
    | false =>
      refine ⟨[], by simp, ?_, nofun⟩
      simpa [or_imp, forall_and, isEnd] using ordinary

end MacroScript
