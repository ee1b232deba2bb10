import MacroScript.Expansion
import MacroScript.Proofs.Hygiene.Reading

/-!
# What matching leaves behind

Matching the arguments of a call tries parsers on them.  Whether these succeed or fail,
the session is left with more scopes and perhaps more macros, and is otherwise unchanged.

Variables are bound to tokens of the arguments, and to the parentheses that are put
around captured expressions.
-/

namespace MacroScript

open MacroScript.Outcome

mutual

/-- Where the variables and groups of an element stand. -/
def PatternElement.spans : PatternElement → List Span
  | .token _ => []
  | .capture _ _ span => [span]
  | .repetition content _ span => span :: Pattern.spans content

/-- Where the variables and groups of a pattern stand. -/
def Pattern.spans : List PatternElement → List Span
  | [] => []
  | element :: rest => element.spans ++ Pattern.spans rest

end

namespace Matching

variable {macroName : String} {fault : Fault} {captures : List (String × Nat)}

/-- A change of a session that is quiet and keeps it sound. -/
structure Keeps (call : Invocation) (before after : Session) : Prop where
  quiet : before.Quiet after
  sound : before.Sound → call.Sound before → after.Sound

namespace Keeps

variable {call : Invocation}

theorem refl (session : Session) : Keeps call session session :=
  ⟨.refl _, fun sound _ => sound⟩

theorem trans {first second third : Session} (one : Keeps call first second)
    (two : Keeps call second third) : Keeps call first third where
  quiet := one.quiet.trans two.quiet
  sound sound callSound :=
    two.sound (one.sound sound callSound) (callSound.grows one.quiet.grows)

end Keeps

/-- The sessions to which trying parsers on arguments of a call leads. -/
inductive Tried (call : Invocation) : Session → Session → Prop
  | refl (session : Session) : Tried call session session
  | attempt {session after : Session} {kind : CaptureKind} {tokens : List Token}
      {places : List Grammar.Place} {last : Grammar.Reader}
      (inside : ∀ token ∈ tokens, token ∈ call.tokens)
      (reads : final (Session.read (captureParser kind) tokens call.scopes none session) =
        last.context.session)
      (walk : Grammar.Walk (session.reader tokens call.scopes none) places last)
      (later : Tried call last.context.session after) : Tried call session after

namespace Tried

variable {call : Invocation}

theorem trans {first second third : Session} (one : Tried call first second)
    (two : Tried call second third) : Tried call first third := by
  induction one with
  | refl session => exact two
  | attempt inside reads walk _ ih => exact .attempt inside reads walk (ih two)

/-- Trying parsers on arguments keeps the session, whether they fail or not. -/
theorem keeps {before after : Session} (tried : Tried call before after) :
    Keeps call before after := by
  induction tried with
  | refl session => exact .refl session
  | @attempt session after kind tokens places last inside _ walk _ ih =>
    have one : Keeps call session last.context.session := by
      refine ⟨Session.quiet_of_walk walk, ?_⟩
      intro sound callSound
      have readerSound : (session.reader tokens call.scopes none).Sound := by
        apply Session.sound_reader sound
        · intro id mem
          exact callSound.scopes.inside mem
        · intro token mem
          exact callSound.tokens token (inside token mem)
        · intro first impossible
          cases impossible
      exact (walk.sound Session.ready_reader readerSound).1.session
    exact one.trans ih

end Tried

/-- Begun in a session to which trying parsers has led, the action leads to such a session.  Its
values satisfy `post`, and the faults it comes to are `blamed`. -/
abbrev Ensures {α : Type} (call : Invocation) (start : Session) (blamed : Fault → Prop)
    (post : α → Prop) (action : SessionM α) : Prop :=
  Stays (Tried call start) blamed (fun value _ => post value) action

/-! ## What variables are bound to -/

/-- A token of the arguments, or a parenthesis around captured ones, which is placed at a token of
the arguments. -/
def FromCall (call : Invocation) (token : Token) : Prop :=
  token ∈ call.tokens ∨ ∃ text, ∃ place ∈ call.tokens, token = .synthetic text place

/-- All tokens of a fragment come from a call. -/
inductive FragmentFrom (call : Invocation) : Fragment → Prop
  | tokens {tokens : List Token} (each : ∀ token ∈ tokens, FromCall call token) :
      FragmentFrom call (.tokens tokens)
  | repeated {occurrences : List Fragment}
      (each : ∀ occurrence ∈ occurrences, FragmentFrom call occurrence) :
      FragmentFrom call (.repeated occurrences)

/-- All variables are bound to fragments from a call. -/
def BindingsFrom (call : Invocation) (bindings : Bindings) : Prop :=
  ∀ entry ∈ bindings, FragmentFrom call entry.2.fragment

/-- The tokens that are left belong to the arguments, and the variables are bound to
fragments from the call. -/
def ProgressFrom (call : Invocation) (progress : Progress) : Prop :=
  (∀ token ∈ progress.1, token ∈ call.tokens) ∧ BindingsFrom call progress.2

section Bindings

variable {call : Invocation} {bindings extended : Bindings} {name : String} {binding : Binding}
  {iterations : List Bindings}

theorem BindingsFrom.bind? (known : BindingsFrom call bindings)
    (fragment : FragmentFrom call binding.fragment)
    (bound : bindings.bind? name binding = some extended) : BindingsFrom call extended := by
  unfold Bindings.bind? at bound
  split at bound
  · cases bound
  · obtain rfl := Option.some.inj bound
    intro entry mem
    rcases List.mem_append.mp mem with old | new
    · exact known entry old
    · obtain rfl := List.mem_singleton.mp new
      exact fragment

theorem BindingsFrom.get? (known : BindingsFrom call bindings)
    (found : bindings.get? name = some binding) : FragmentFrom call binding.fragment := by
  obtain ⟨front, back, split, -⟩ := List.lookup_eq_some_iff.mp found
  exact known (name, binding) (by simp [split])

theorem fragmentFrom_rounds (each : ∀ iteration ∈ iterations, BindingsFrom call iteration)
    (name : String) : FragmentFrom call (.repeated (Bindings.rounds iterations name)) := by
  apply FragmentFrom.repeated
  intro occurrence mem
  obtain ⟨iteration, iterationMem, rfl⟩ := List.mem_map.mp mem
  cases found : iteration.get? name with
  | none => exact .repeated (by simp)
  | some binding => exact (each iteration iterationMem).get? found

theorem BindingsFrom.bindRounds {macroName : String} {span : Span}
    (each : ∀ iteration ∈ iterations, BindingsFrom call iteration)
    (known : BindingsFrom call bindings)
    (run : bindRounds macroName span iterations captures bindings = .ok extended) :
    BindingsFrom call extended := by
  induction captures generalizing bindings with
  | nil =>
    obtain rfl := Except.ok.inj run
    exact known
  | cons capture rest ih =>
    rcases capture with ⟨name, depth⟩
    unfold Matching.bindRounds at run
    split at run
    · rename_i longer bound
      exact ih (known.bind? (fragmentFrom_rounds each name) bound) run
    · cases run

end Bindings

/-! ## Captures -/

/-- What was captured comes from the call, and what is left belongs to the arguments. -/
def CapturedFrom (call : Invocation) (found : Option (List Token × List Token)) : Prop :=
  ∀ captured rest, found = some (captured, rest) →
    (∀ token ∈ captured, FromCall call token) ∧ ∀ token ∈ rest, token ∈ call.tokens

section Captures

variable {call : Invocation} {start : Session} {blamed : Fault → Prop} {tokens : List Token}
  {first : Token}

theorem fromCall_wrap (kind : CaptureKind) (firstInside : first ∈ call.tokens)
    (inside : ∀ token ∈ tokens, token ∈ call.tokens) :
    ∀ token ∈ wrap kind first tokens, FromCall call token := by
  have plain : ∀ token ∈ tokens, FromCall call token := fun token mem => .inl (inside token mem)
  cases kind with
  | expr =>
    intro token mem
    simp only [wrap, List.cons_append, List.mem_cons, List.mem_append, List.not_mem_nil,
      or_false] at mem
    rcases mem with rfl | captured | rfl
    · exact .inr ⟨_, first, firstInside, rfl⟩
    · exact plain token captured
    · exact .inr ⟨_, first, firstInside, rfl⟩
  | literal
  | ident
  | stmt => exact plain

theorem ensures_captureParsed (kind : CaptureKind) (firstInside : first ∈ call.tokens)
    (inside : ∀ token ∈ tokens, token ∈ call.tokens) :
    Ensures call start blamed (CapturedFrom call) (captureParsed call kind first tokens) := by
  intro session before
  obtain ⟨last, places, ends, walk⟩ :=
    Grammar.walks_captureParser kind (session.reader tokens call.scopes none) Session.ready_reader
  rw [Session.reader_state] at ends
  have tried : final (Session.read (captureParser kind) tokens call.scopes none session) =
      last.context.session → Tried call start last.context.session :=
    fun reads => before.trans (.attempt inside reads walk (.refl _))
  unfold captureParsed
  unfold Session.read at tried ⊢
  cases run : captureParser kind (session.readerState tokens call.scopes none) with
  | error fault state =>
    rw [run] at ends tried
    obtain rfl : state = last.state := ends
    exact ⟨tried rfl, by simp [CapturedFrom]⟩
  | ok value state =>
    rw [run] at ends tried
    obtain rfl : state = last.state := ends
    by_cases nothing : last.state.cursor.index = 0
    · simp only [nothing, if_true]
      exact ⟨tried rfl, by simp [CapturedFrom]⟩
    · simp only [nothing, if_false]
      refine ⟨tried rfl, ?_⟩
      intro captured rest found
      simp only [Option.some.injEq, Prod.mk.injEq] at found
      obtain ⟨rfl, rfl⟩ := found
      constructor
      · apply fromCall_wrap kind firstInside
        intro token mem
        exact inside token (List.mem_of_mem_take mem)
      · intro token mem
        exact inside token (List.mem_of_mem_drop mem)

/-- A capture of a single token. -/
theorem capturedFrom_single {rest : List Token} (accepted : Bool)
    (inside : ∀ token ∈ first :: rest, token ∈ call.tokens) :
    CapturedFrom call (if accepted then some ([first], rest) else none) := by
  obtain ⟨firstInside, restInside⟩ := List.forall_mem_cons.mp inside
  intro captured left found
  cases accepted with
  | false => cases found
  | true =>
    simp only [if_true, Option.some.injEq, Prod.mk.injEq] at found
    obtain ⟨rfl, rfl⟩ := found
    exact ⟨by simpa using .inl firstInside, restInside⟩

theorem ensures_capture (kind : CaptureKind)
    (inside : ∀ token ∈ tokens, token ∈ call.tokens) :
    Ensures call start blamed (CapturedFrom call) (capture call kind tokens) := by
  cases tokens with
  | nil => exact .pure (by simp [CapturedFrom])
  | cons first rest =>
    cases kind with
    | literal
    | ident => exact .pure (capturedFrom_single _ inside)
    | expr => exact ensures_captureParsed .expr (inside first List.mem_cons_self) inside
    | stmt => exact ensures_captureParsed .stmt (inside first List.mem_cons_self) inside

end Captures

/-! ## Repetitions -/

/-- What the rounds of a group bound comes from the call, and what is left belongs to the
arguments. -/
def RoundsFrom (call : Invocation) (rounds : List Bindings × List Token) : Prop :=
  (∀ iteration ∈ rounds.1, BindingsFrom call iteration) ∧ ∀ token ∈ rounds.2, token ∈ call.tokens

/-- Progress, if there is any, comes from the call. -/
def FoundFrom (call : Invocation) (found : Option Progress) : Prop :=
  ∀ progress, found = some progress → ProgressFrom call progress

theorem ensures_iterate {call : Invocation} {start : Session} {blamed : Fault → Prop}
    {matchRound : List Token → SessionM (Option Progress)}
    (round : ∀ tokens, (∀ token ∈ tokens, token ∈ call.tokens) →
      Ensures call start blamed (FoundFrom call) (matchRound tokens))
    (separator : Token) (bound : Nat) {tokens : List Token}
    (inside : ∀ token ∈ tokens, token ∈ call.tokens) :
    Ensures call start blamed (RoundsFrom call) (iterate matchRound separator bound tokens) := by
  have noRounds : RoundsFrom call ([], tokens) := ⟨by simp, inside⟩
  induction bound generalizing tokens with
  | zero => exact .pure noRounds
  | succ bound ih =>
    apply Stays.bind (round tokens inside)
    intro found known
    match found, known with
    | none, _ => exact .pure noRounds
    | some ([], bindings), known =>
      have bindingsKnown := (known _ rfl).2
      exact .pure ⟨by simpa using bindingsKnown, by simp⟩
    | some (next :: rest, bindings), known =>
      obtain ⟨leftInside, bindingsKnown⟩ := known _ rfl
      have one : RoundsFrom call ([bindings], next :: rest) :=
        ⟨by simpa using bindingsKnown, leftInside⟩
      have restInside : ∀ token ∈ rest, token ∈ call.tokens :=
        (List.forall_mem_cons.mp leftInside).2
      apply Stays.ite
      · apply Stays.bind (ih restInside ⟨by simp, restInside⟩)
        intro rounds roundsKnown
        split
        · exact .pure one
        · obtain ⟨laterKnown, lastInside⟩ := roundsKnown
          exact .pure ⟨List.forall_mem_cons.mpr ⟨bindingsKnown, laterKnown⟩, lastInside⟩
      · exact .pure one

/-! ## Patterns and rules -/

/-- A name is bound twice, the second time at one of the places. -/
def Duplicates (macroName : String) (spans : List Span) (fault : Fault) : Prop :=
  ∃ name, ∃ span ∈ spans, fault = duplicate macroName name span

theorem Duplicates.mono {spans others : List Span} (duplicates : Duplicates macroName spans fault)
    (subset : spans ⊆ others) : Duplicates macroName others fault := by
  obtain ⟨name, span, mem, rfl⟩ := duplicates
  exact ⟨name, span, subset mem, rfl⟩

theorem duplicates_of_bindRounds {span : Span} {iterations : List Bindings} {bindings : Bindings}
    (run : bindRounds macroName span iterations captures bindings = .error fault) :
    Duplicates macroName [span] fault := by
  induction captures generalizing bindings with
  | nil => cases run
  | cons capture rest ih =>
    unfold bindRounds at run
    split at run
    · exact ih run
    · cases run
      exact ⟨capture.1, span, List.mem_singleton_self span, rfl⟩

section Patterns

variable {start : Session} {blamed : Fault → Prop}

mutual

theorem ensures_matchElement (call : Invocation) (macroName : String) (depth : Nat)
    (element : PatternElement) (progress : Progress) (known : ProgressFrom call progress)
    (blames : ∀ fault, Duplicates macroName element.spans fault → blamed fault) :
    Ensures call start blamed (FoundFrom call)
      (matchElement call macroName depth element progress) := by
  rcases progress with ⟨tokens, bindings⟩
  obtain ⟨inside, bindingsKnown⟩ := known
  have nothing : FoundFrom call none := by simp [FoundFrom]
  cases element with
  | token expected =>
    unfold matchElement
    cases tokens with
    | nil => exact .pure nothing
    | cons token rest =>
      have restInside : ∀ token ∈ rest, token ∈ call.tokens :=
        (List.forall_mem_cons.mp inside).2
      apply Stays.pure
      intro found same
      cases fits : token.sameAs expected with
      | false => simp [fits] at same
      | true =>
        obtain rfl : (rest, bindings) = found := by simpa [fits] using same
        exact ⟨restInside, bindingsKnown⟩
  | capture name kind span =>
    unfold matchElement
    apply Stays.bind (ensures_capture kind inside)
    intro found capturedKnown
    match found, capturedKnown with
    | none, _ => exact .pure nothing
    | some (captured, rest), capturedKnown =>
      obtain ⟨capturedFrom, restInside⟩ := capturedKnown captured rest rfl
      simp only
      split
      · rename_i extended bound
        apply Stays.pure
        intro next same
        obtain rfl := Option.some.inj same
        exact ⟨restInside, bindingsKnown.bind? (.tokens capturedFrom) bound⟩
      · exact .throw (blames _ ⟨name, span, List.mem_singleton_self span, rfl⟩)
  | repetition content separator span =>
    unfold matchElement
    rw [PatternElement.spans] at blames
    have round : ∀ left, (∀ token ∈ left, token ∈ call.tokens) →
        Ensures call start blamed (FoundFrom call)
          (matchElements call macroName (depth + 1) content (left, [])) := by
      intro left leftInside
      exact ensures_matchElements call macroName (depth + 1) content (left, [])
        ⟨leftInside, by simp [BindingsFrom]⟩
        fun fault duplicates => blames fault (duplicates.mono (List.subset_cons_self _ _))
    apply Stays.bind (ensures_iterate round separator _ inside)
    rintro ⟨iterations, rest⟩ ⟨iterationsKnown, restInside⟩
    simp only
    split
    · rename_i extended bound
      apply Stays.pure
      intro next same
      obtain rfl := Option.some.inj same
      exact ⟨restInside, BindingsFrom.bindRounds iterationsKnown bindingsKnown bound⟩
    · rename_i fault failed
      exact .throw (blames fault ((duplicates_of_bindRounds failed).mono (by simp)))

theorem ensures_matchElements (call : Invocation) (macroName : String) (depth : Nat)
    (elements : List PatternElement) (progress : Progress) (known : ProgressFrom call progress)
    (blames : ∀ fault, Duplicates macroName (Pattern.spans elements) fault → blamed fault) :
    Ensures call start blamed (FoundFrom call)
      (matchElements call macroName depth elements progress) := by
  cases elements with
  | nil =>
    unfold matchElements
    apply Stays.pure
    intro next same
    obtain rfl := Option.some.inj same
    exact known
  | cons element rest =>
    unfold matchElements
    rw [Pattern.spans] at blames
    apply Stays.bind (ensures_matchElement call macroName depth element progress known
      fun fault duplicates => blames fault (duplicates.mono (List.subset_append_left _ _)))
    intro found foundKnown
    match found, foundKnown with
    | none, _ => exact .pure (by simp [FoundFrom])
    | some next, foundKnown =>
      exact ensures_matchElements call macroName depth rest next (foundKnown next rfl)
        fun fault duplicates => blames fault (duplicates.mono (List.subset_append_right _ _))

end

theorem ensures_matchPattern (call : Invocation) (macroName : String) (pattern : Pattern)
    (blames : ∀ fault, Duplicates macroName (Pattern.spans pattern) fault → blamed fault) :
    Ensures call start blamed
      (fun found => ∀ bindings, found = some bindings → BindingsFrom call bindings)
      (matchPattern call macroName pattern) := by
  have begins : ProgressFrom call (call.tokens, []) := ⟨fun _ mem => mem, by simp [BindingsFrom]⟩
  apply Stays.bind (ensures_matchElements call macroName 0 pattern _ begins blames)
  intro found known
  split
  · rename_i bindings
    apply Stays.pure
    intro extended same
    obtain rfl := Option.some.inj same
    exact (known _ rfl).2
  · exact .pure (by simp)

/-- No rule applies, or one of them binds a name twice. -/
def Complains (call : Invocation) (macroName : String) (rules : List Rule) (fault : Fault) :
    Prop :=
  fault = .expansion macroName call.span .noMatch ∨
    ∃ rule ∈ rules, Duplicates macroName (Pattern.spans rule.pattern) fault

/-- The chosen rule is one of the macro's, and its variables are bound to fragments from the
call. -/
theorem ensures_firstMatch (call : Invocation) (macroName : String) (number : Nat)
    (rules : List Rule) (blames : ∀ fault, Complains call macroName rules fault → blamed fault) :
    Ensures call start blamed
      (fun chosen => chosen.2.1 ∈ rules ∧ BindingsFrom call chosen.2.2)
      (firstMatch call macroName number rules) := by
  induction rules generalizing number with
  | nil => exact .throw (blames _ (.inl rfl))
  | cons rule rest ih =>
    apply Stays.bind (ensures_matchPattern call macroName rule.pattern
      fun fault duplicates => blames fault (.inr ⟨rule, List.mem_cons_self, duplicates⟩))
    intro found known
    cases found with
    | some bindings => exact .pure ⟨List.mem_cons_self, known bindings rfl⟩
    | none =>
      have others : ∀ fault, Complains call macroName rest fault → blamed fault := by
        rintro fault (noMatch | ⟨other, mem, duplicates⟩)
        · exact blames fault (.inl noMatch)
        · exact blames fault (.inr ⟨other, List.mem_cons_of_mem rule mem, duplicates⟩)
      apply (ih (number + 1) others).mono
      rintro chosen _ ⟨ruleMem, bindingsKnown⟩
      exact ⟨List.mem_cons_of_mem rule ruleMem, bindingsKnown⟩

end Patterns

end Matching

end MacroScript
