import MacroScript.Expansion
import MacroScript.Proofs.Matching
import MacroScript.Proofs.Tandem.Reading

/-!
# Matching in sessions that are alike

Two computations run in step when they take sessions that are alike to sessions that are
alike, and come to values that correspond or to the same fault.  Matching a call does so:
the rules are tried in the same order, the parsers behind captures take the same
decisions, and the variables are bound to corresponding tokens.
-/

namespace MacroScript

open MacroScript.Grammar

variable {r : Renumbering} {v : Vocabulary} {α : Type}

/-! ## Computations in step -/

/-- The outcomes of two computations in step.  The values of the first satisfy `post`. -/
inductive Session.Paired {α : Type} (r : Renumbering) (v : Vocabulary) (map : α → α)
    (post : α → Prop) : EStateM.Result Fault Session α → EStateM.Result Fault Session α → Prop
  | ok {value : α} {one two : Session} (alike : one.Alike r v two) (holds : post value) :
      Paired r v map post (.ok value one) (.ok (map value) two)
  | error {fault : Fault} {one two : Session} (alike : one.Alike r v two) :
      Paired r v map post (.error fault one) (.error fault two)

variable {post : α → Prop}

/-- Computations in step come to corresponding answers. -/
theorem Session.Paired.answer {map : α → α} {first second : EStateM.Result Fault Session α}
    (paired : Paired r v map post first second) :
    Outcome.answer second = (Outcome.answer first).map map := by
  cases paired with
  | ok alike holds
  | error alike => rfl

theorem Session.Paired.holds {map : α → α} {value : α} {after : Session}
    {second : EStateM.Result Fault Session α}
    (paired : Paired r v map post (.ok value after) second) : post value := by
  cases paired with
  | ok alike holds => exact holds

/-- Two computations that run in step. -/
def Session.InStep {α : Type} (r : Renumbering) (v : Vocabulary) (map : α → α)
    (post : α → Prop) (first second : SessionM α) : Prop :=
  ∀ one two : Session, one.Alike r v two → Paired r v map post (first one) (second two)

namespace Session.InStep

variable {β : Type} {map : α → α} {resultMap : β → β} {later : β → Prop}
  {first second : SessionM α}

protected theorem bind {next nextToo : α → SessionM β} (inStep : InStep r v map post first second)
    (rest : ∀ value, post value →
      InStep r v resultMap later (next value) (nextToo (map value))) :
    InStep r v resultMap later (first >>= next) (second >>= nextToo) := by
  intro one two alike
  have run := inStep one two alike
  simp only [Bind.bind, EStateM.bind]
  generalize first one = firstRun at run
  generalize second two = secondRun at run
  cases run with
  | error after => exact .error after
  | ok after holds => exact rest _ holds _ _ after

protected theorem pure {value other : α} (same : other = map value) (holds : post value) :
    InStep r v map post (pure value) (pure other) := by
  intro one two alike
  subst same
  exact .ok alike holds

theorem throw (fault : Fault) :
    InStep r v map post (throw fault : SessionM α) (throw fault) :=
  fun _ _ alike => .error alike

/-- What is known of the values of the first computation may be changed. -/
theorem mono {other : α → Prop} (inStep : InStep r v map post first second)
    (implies : ∀ {session after : Session} {value : α}, first session = .ok value after →
      post value → other value) : InStep r v map other first second := by
  intro one two alike
  have run := inStep one two alike
  generalize outcome : first one = firstRun at run ⊢
  generalize second two = secondRun at run ⊢
  cases run with
  | error after => exact .error after
  | ok after holds => exact .ok after (implies outcome holds)

end Session.InStep

/-- Parsers that begin to read in sessions that are alike. -/
theorem Session.Alike.reader {one two : Session} (alike : one.Alike r v two) {tokens : List Token}
    (covered : v.Covers tokens) (outer : ScopeStack) (hygiene : Option Hygiene) :
    (one.reader tokens outer hygiene).Alike r v []
      (two.reader (tokens.map r.token) (outer.map r.scope) (hygiene.map r.hygiene)) where
  cursor := (r.cursor_ofTokens tokens).symm
  ready := Session.ready_reader
  covered := covered.subset fun token mem =>
    Session.tokens_reader_subset (Array.mem_toList_iff.mp mem)
  context :=
    { session := alike.allocScope
      scopes := by simp only [Session.reader, List.map_cons, alike.size]
      nonempty := List.cons_ne_nil _ _
      hygiene := rfl }
  shown mem := by cases mem

/-! ## Bindings under new numbers -/

namespace Renumbering

variable (r : Renumbering)

mutual

/-- A fragment under the new numbers. -/
def fragment : Fragment → Fragment
  | .tokens tokens => .tokens (tokens.map r.token)
  | .repeated occurrences => .repeated (fragments occurrences)

/-- Fragments under the new numbers. -/
def fragments : List Fragment → List Fragment
  | [] => []
  | first :: rest => fragment first :: fragments rest

end

theorem fragments_eq_map (occurrences : List Fragment) :
    r.fragments occurrences = occurrences.map r.fragment := by
  induction occurrences with
  | nil => rfl
  | cons first rest ih => rw [fragments, ih, List.map_cons]

/-- What a variable is bound to under the new numbers. -/
def binding (binding : Binding) : Binding :=
  { binding with fragment := r.fragment binding.fragment }

/-- Bindings under the new numbers. -/
def bindings (bindings : Bindings) : Bindings :=
  bindings.map fun entry => (entry.1, r.binding entry.2)

/-- What matching has come to under the new numbers. -/
def progress (progress : Matching.Progress) : Matching.Progress :=
  (progress.1.map r.token, r.bindings progress.2)

theorem get?_bindings (bindings : Bindings) (name : String) :
    (r.bindings bindings).get? name = (bindings.get? name).map r.binding := by
  unfold Bindings.get? Renumbering.bindings
  induction bindings with
  | nil => rfl
  | cons entry rest ih =>
    rw [List.map_cons, List.lookup_cons, List.lookup_cons, ih]
    split
    · rfl
    · rfl

theorem bind?_bindings (bindings : Bindings) (name : String) (binding : Binding) :
    (r.bindings bindings).bind? name (r.binding binding) =
      (bindings.bind? name binding).map r.bindings := by
  simp only [Bindings.bind?, r.get?_bindings, Option.isSome_map]
  split
  · rfl
  · simp [Renumbering.bindings]

theorem rounds_bindings (iterations : List Bindings) (name : String) :
    Bindings.rounds (iterations.map r.bindings) name =
      (Bindings.rounds iterations name).map r.fragment := by
  unfold Bindings.rounds
  rw [List.map_map, List.map_map]
  apply List.map_congr_left
  intro iteration _
  simp only [Function.comp_apply, r.get?_bindings]
  cases iteration.get? name <;> rfl

mutual

theorem captures_element (depth : Nat) (element : PatternElement) :
    (r.element element).captures depth = element.captures depth := by
  cases element with
  | token expected
  | capture name kind span => rfl
  | repetition content separator span => exact captures_elements (depth + 1) content

theorem captures_elements (depth : Nat) (elements : List PatternElement) :
    Pattern.captures depth (r.elements elements) = Pattern.captures depth elements := by
  cases elements with
  | nil => rfl
  | cons element rest =>
    rw [Renumbering.elements, Pattern.captures, Pattern.captures, captures_element,
      captures_elements]

end

end Renumbering

/-! ## Captures -/

namespace Matching

variable {log : List Mark} {tokens : List Token}

theorem bindRounds_renumbered (macroName : String) (span : Span) (iterations : List Bindings)
    (captures : List (String × Nat)) (bindings : Bindings) :
    bindRounds macroName span (iterations.map r.bindings) captures (r.bindings bindings) =
      (bindRounds macroName span iterations captures bindings).map r.bindings := by
  induction captures generalizing bindings with
  | nil => rfl
  | cons capture rest ih =>
    rcases capture with ⟨name, depth⟩
    have renumbered : Fragment.repeated (Bindings.rounds (iterations.map r.bindings) name) =
        r.fragment (.repeated (Bindings.rounds iterations name)) := by
      rw [r.rounds_bindings, Renumbering.fragment, r.fragments_eq_map]
    have bound := r.bind?_bindings bindings name
      ⟨depth, .repeated (Bindings.rounds iterations name)⟩
    rw [Renumbering.binding] at bound
    rw [bindRounds, bindRounds, renumbered, bound]
    cases bindings.bind? name ⟨depth, .repeated (Bindings.rounds iterations name)⟩ with
    | none => rfl
    | some extended => exact ih extended

theorem wrap_renumbered (kind : CaptureKind) (first : Token) (tokens : List Token) :
    wrap kind (r.token first) (tokens.map r.token) = (wrap kind first tokens).map r.token := by
  cases kind with
  | expr => simp [wrap, Renumbering.token, Token.synthetic]
  | literal
  | ident
  | stmt => rfl

/-- A parser whose value is dropped. -/
theorem outcome_discard {sim : Lockstep r} {map : α → α} {view : α → List Mark}
    {parser : Parser α} {one two : State}
    (run : sim.Outcome map view log (parser one) (parser two)) :
    ∃ marks, sim.Outcome id (fun _ => marks) log ((do let _ ← parser) one)
      ((do let _ ← parser) two) := by
  simp only [Bind.bind, EStateM.bind]
  generalize parser one = firstRun at run
  generalize parser two = secondRun at run
  cases run with
  | error failed => exact ⟨[], .error failed⟩
  | @ok value first second related => exact ⟨view value, .ok related⟩

/-- The parser behind a capture runs in tandem with itself. -/
theorem outcome_captureParser (sim : Simulation r) (kind : CaptureKind) {one two : Reader}
    (related : sim.Related log one two) :
    ∃ marks, sim.Outcome id (fun _ => marks) log (captureParser kind one.state)
      (captureParser kind two.state) := by
  have same : two.state.cursor.remaining = one.state.cursor.remaining := by
    rw [← r.cursor_remaining one.state.cursor]
    exact congrArg Cursor.remaining (sim.cursor related)
  rw [← List.append_nil log] at related
  cases kind with
  | stmt =>
    simp only [captureParser, withRules, same]
    exact outcome_discard (outcome_of_composed sim (composed_level _).statement related trivial)
  | expr
  | literal
  | ident =>
    simp only [captureParser, withRules, same]
    exact outcome_discard (outcome_of_composed sim (composed_level _).assignment related trivial)

/-- The tokens of a capture under new numbers. -/
abbrev renumberCapture (r : Renumbering) :
    Option (List Token × List Token) → Option (List Token × List Token) :=
  Option.map (Prod.map (List.map r.token) (List.map r.token))

variable {call : Invocation}

/-- What matching ensures is known of the values of computations in step. -/
theorem ensured {map : α → α} {first second : SessionM α}
    (inStep : Session.InStep r v map (fun _ => True) first second)
    (ensures : ∀ session, Ensures call session (fun _ => True) post first) :
    Session.InStep r v map post first second :=
  inStep.mono fun {one _ _} run _ => ((ensures one).of_ok (.refl one) run).2

theorem inStep_captureParsed (kind : CaptureKind) (first : Token) (covered : v.Covers tokens) :
    Session.InStep r v (renumberCapture r) (fun _ => True)
      (captureParsed call kind first tokens)
      (captureParsed (r.call call) kind (r.token first) (tokens.map r.token)) := by
  intro one two alike
  obtain ⟨marks, run⟩ := outcome_captureParser (alikeSimulation r v) kind
    (alike.reader covered call.scopes none)
  rw [Session.reader_state, Session.reader_state, Option.map_none] at run
  have scopes : (r.call call).scopes = call.scopes.map r.scope := rfl
  simp only [captureParsed, Session.read, scopes]
  generalize captureParser kind (one.readerState _ _ _) = firstRun at run ⊢
  generalize captureParser kind (two.readerState _ _ _) = secondRun at run ⊢
  cases run with
  | error failed => exact .ok failed trivial
  | @ok value before after related =>
    have position : after.state.cursor.index = before.state.cursor.index := by
      change after.cursor.index = before.cursor.index
      rw [related.cursor]
      rfl
    simp only [position, ← List.map_take, ← List.map_drop, wrap_renumbered]
    split
    · exact .ok related.context.session trivial
    · exact .ok related.context.session trivial

theorem inStep_capture (kind : CaptureKind) (covered : v.Covers tokens) :
    Session.InStep r v (renumberCapture r) (fun _ => True) (capture call kind tokens)
      (capture (r.call call) kind (tokens.map r.token)) := by
  cases tokens with
  | nil => exact .pure rfl trivial
  | cons first rest =>
    cases kind with
    | literal
    | ident =>
      refine .pure ?_ trivial
      rw [apply_ite (renumberCapture r)]
      rfl
    | expr => exact inStep_captureParsed .expr first covered
    | stmt => exact inStep_captureParsed .stmt first covered

/-! ## Repetitions -/

theorem inStep_iterate {matchRound matchRoundToo : List Token → SessionM (Option Progress)}
    (round : ∀ tokens, (∀ token ∈ tokens, token ∈ call.tokens) →
      Session.InStep r v (Option.map r.progress) (FoundFrom call) (matchRound tokens)
        (matchRoundToo (tokens.map r.token))) (separator : Token) (bound : Nat)
    (inside : ∀ token ∈ tokens, token ∈ call.tokens) :
    Session.InStep r v (Prod.map (List.map r.bindings) (List.map r.token)) (fun _ => True)
      (iterate matchRound separator bound tokens)
      (iterate matchRoundToo (r.token separator) bound (tokens.map r.token)) := by
  induction bound generalizing tokens with
  | zero => exact .pure rfl trivial
  | succ bound ih =>
    apply Session.InStep.bind (round tokens inside)
    intro found known
    match found, known with
    | none, _ => exact .pure rfl trivial
    | some ([], bindings), _ => exact .pure rfl trivial
    | some (next :: rest, bindings), known =>
      have restInside := (List.forall_mem_cons.mp (known _ rfl).1).2
      have sameText : (r.token next).sameAs (r.token separator) = next.sameAs separator := rfl
      simp only [Option.map_some, Renumbering.progress, List.map_cons, sameText]
      split
      · apply Session.InStep.bind (ih restInside)
        rintro ⟨later, left⟩ -
        cases later with
        | nil
        | cons first others => exact .pure rfl trivial
      · exact .pure rfl trivial

/-! ## Patterns and rules -/

mutual

theorem inStep_matchElement (covered : v.Covers call.tokens) (macroName : String)
    (depth : Nat) (element : PatternElement) (progress : Progress)
    (known : ProgressFrom call progress) :
    Session.InStep r v (Option.map r.progress) (FoundFrom call)
      (matchElement call macroName depth element progress)
      (matchElement (r.call call) macroName depth (r.element element) (r.progress progress)) := by
  refine ensured ?_ fun _ => ensures_matchElement call macroName depth element progress known
    fun _ _ => trivial
  rcases progress with ⟨tokens, bindings⟩
  cases element with
  | token expected =>
    unfold matchElement
    cases tokens with
    | nil => exact .pure rfl trivial
    | cons token rest =>
      refine .pure ?_ trivial
      rw [apply_ite (Option.map r.progress)]
      rfl
  | capture name kind span =>
    unfold matchElement
    apply Session.InStep.bind (inStep_capture kind (covered.subset known.1))
    rintro (_ | ⟨captured, rest⟩) -
    · exact .pure rfl trivial
    · have bound := r.bind?_bindings bindings name ⟨depth, .tokens captured⟩
      simp only [Renumbering.binding, Renumbering.fragment] at bound
      simp only [Option.map_some, Prod.map, bound]
      cases bindings.bind? name ⟨depth, .tokens captured⟩ with
      | none => exact .throw _
      | some extended => exact .pure rfl trivial
  | repetition content separator span =>
    unfold matchElement
    have round : ∀ left, (∀ token ∈ left, token ∈ call.tokens) →
        Session.InStep r v (Option.map r.progress) (FoundFrom call)
          (matchElements call macroName (depth + 1) content (left, []))
          (matchElements (r.call call) macroName (depth + 1) (r.elements content)
            (left.map r.token, [])) := by
      intro left leftInside
      exact inStep_matchElements covered macroName (depth + 1) content (left, [])
        ⟨leftInside, by simp [BindingsFrom]⟩
    simp only [Renumbering.element, Renumbering.progress, List.length_map]
    apply Session.InStep.bind (inStep_iterate round separator _ known.1)
    rintro ⟨iterations, rest⟩ -
    simp only [Prod.map, r.captures_elements, bindRounds_renumbered]
    cases bindRounds macroName span iterations (Pattern.captures (depth + 1) content)
        bindings with
    | error fault => exact .throw fault
    | ok extended => exact .pure rfl trivial

theorem inStep_matchElements (covered : v.Covers call.tokens) (macroName : String)
    (depth : Nat) (elements : List PatternElement) (progress : Progress)
    (known : ProgressFrom call progress) :
    Session.InStep r v (Option.map r.progress) (FoundFrom call)
      (matchElements call macroName depth elements progress)
      (matchElements (r.call call) macroName depth (r.elements elements)
        (r.progress progress)) := by
  refine ensured ?_ fun _ => ensures_matchElements call macroName depth elements progress known
    fun _ _ => trivial
  cases elements with
  | nil =>
    unfold matchElements
    exact .pure rfl trivial
  | cons element rest =>
    unfold matchElements
    apply Session.InStep.bind
      (inStep_matchElement covered macroName depth element progress known)
    rintro (_ | next) foundKnown
    · exact .pure rfl trivial
    · exact (inStep_matchElements covered macroName depth rest next
        (foundKnown next rfl)).mono fun _ _ => trivial

end

theorem inStep_matchPattern (covered : v.Covers call.tokens) (macroName : String)
    (pattern : Pattern) :
    Session.InStep r v (Option.map r.bindings) (fun _ => True)
      (matchPattern call macroName pattern)
      (matchPattern (r.call call) macroName (r.elements pattern)) := by
  have start : ProgressFrom call (call.tokens, []) := ⟨fun _ mem => mem, by simp [BindingsFrom]⟩
  apply Session.InStep.bind (inStep_matchElements covered macroName 0 pattern _ start)
  intro found known
  match found, known with
  | none, _ => exact .pure rfl trivial
  | some (_ :: _, bindings), _
  | some ([], bindings), _ => exact .pure rfl trivial

/-- The number of the chosen rule is the same, and the rule and its bindings correspond. -/
abbrev renumberChoice (r : Renumbering) : Nat × Rule × Bindings → Nat × Rule × Bindings :=
  Prod.map id (Prod.map r.rule r.bindings)

theorem inStep_firstMatch (covered : v.Covers call.tokens) (macroName : String)
    (number : Nat) (rules : List Rule) :
    Session.InStep r v (renumberChoice r)
      (fun chosen => chosen.2.1 ∈ rules ∧ BindingsFrom call chosen.2.2)
      (firstMatch call macroName number rules)
      (firstMatch (r.call call) macroName number (rules.map r.rule)) := by
  refine ensured ?_ fun _ => ensures_firstMatch call macroName number rules fun _ _ => trivial
  induction rules generalizing number with
  | nil => exact .throw _
  | cons rule rest ih =>
    apply Session.InStep.bind (inStep_matchPattern covered macroName rule.pattern)
    rintro (_ | bindings) -
    · exact ih (number + 1)
    · exact .pure rfl trivial

end Matching

end MacroScript
