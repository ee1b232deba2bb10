import MacroScript.Proofs.Hygiene.Reached
import MacroScript.Proofs.Hygiene.Trace
import MacroScript.Proofs.Isolation
import MacroScript.Proofs.LateMacro
import MacroScript.Proofs.Matching.Shape
import Mathlib.Data.List.Basic

/-!
# Choosing a rule

The rules of a macro are tried in order, all on one session.  An attempt that fails leaves in it
the scopes that its parsers opened, and what they declared and marked in these.

Nothing of that is visible: the scopes and macros from before are unchanged, and so are the last
color and the trace.  Hence the session after an attempt is like the session before, but for the
numbers of new scopes and macros.  No capture can tell the difference, and so a rule matches
behind failed attempts just as it does alone.  This takes a call that was read in the session: one
that was read in another session may name a scope that only an attempt opens.
-/

namespace MacroScript

open MacroScript.Outcome

variable {session : Session}

/-! ## What matching leaves unchanged -/

/-- What was in a session is still there later: its scopes with all their macros and color marks,
its macros, the last color and the trace.  Hence names mean the same, seen from these scopes. -/
structure Session.Preserved (before after : Session) : Prop where
  scopes {id : ScopeId} (below : id < before.scopes.size) :
    after.scopes.get? id = before.scopes.get? id
  macros {id : MacroId} (below : id < before.macros.size) :
    after.macros.get? id = before.macros.get? id
  lastColor : after.lastColor = before.lastColor
  trace : after.trace = before.trace
  findMacro? {stack : ScopeStack} (below : ∀ id ∈ stack, id < before.scopes.size) (name : String) :
    after.scopes.findMacro? stack name = before.scopes.findMacro? stack name
  findColor? {stack : ScopeStack} (below : ∀ id ∈ stack, id < before.scopes.size) (name : String) :
    after.scopes.findColor? stack name = before.scopes.findColor? stack name

/-- Whatever matching a call comes to, it has changed nothing that was there before. -/
theorem Matching.firstMatch_preserves (call : Invocation) (macroName : String) (number : Nat)
    (rules : List Rule) (session : Session) :
    session.Preserved (final (firstMatch call macroName number rules session)) := by
  have tried := (ensures_firstMatch call macroName number rules fun _ _ => trivial).final
    (.refl session)
  have quiet := tried.keeps.quiet
  constructor
  case scopes => exact fun below => quiet.scopes _ below
  case macros =>
    intro id below
    have found : session.macros.get? id = some session.macros.definitions[id] :=
      Array.getElem?_eq_getElem below
    rw [found]
    exact quiet.grows.macros found
  case lastColor => exact quiet.color
  case trace => exact tried.trace
  case findMacro? => exact fun below name => quiet.scopes.findMacro? below name
  case findColor? => exact fun below name => quiet.scopes.findColor? below name

/-! ## Sessions after an attempt -/

/-- The numbers in a session are numbers of its own: its scopes name its macros, and its macros
were declared in its scopes. -/
structure Session.Closed (session : Session) : Prop where
  registered : session.Registered
  scopes {id : MacroId} {definition : MacroDef}
    (found : session.macros.get? id = some definition) :
    ∀ scope ∈ definition.scopes, scope < session.scopes.size

theorem Session.registered_after_readProgram (registered : session.Registered) (source : String) :
    (final (readProgram source session)).Registered := by
  unfold readProgram
  cases tokenize source with
  | error fault => exact registered
  | ok tokens =>
    obtain ⟨places, last, walk, last_eq⟩ :=
      exists_walk_of_read Grammar.yields_program session tokens [] none
    have ends := (final_bind_pure (read Grammar.program tokens [] none) Prod.fst session).trans
      last_eq
    simp only [ends]
    exact (walk.registered_of_session registered).1

theorem Expansion.Ends.registered {call : Invocation} {before after : Session}
    (ends : Ends call before after) (registered : before.Registered) : after.Registered := by
  cases ends with
  | matching tried => exact tried.registered registered
  | reading tried _ _ _ walk =>
    exact (walk.registered_of_session (tried.registered registered)).1

/-- Reading sources and expanding calls leads to closed sessions only. -/
theorem Session.Reached.closed {calls : List Invocation} (reached : Reached session calls) :
    session.Closed := by
  refine ⟨?_, fun found _ mem => (reached.sound.1.scopes found).inside mem⟩
  induction reached with
  | start => exact .empty
  | @read session after calls source program _ run registered
  | @misread session after calls source fault _ run registered =>
    have ends := registered_after_readProgram registered source
    rwa [run] at ends
  | @expand session after calls call expansion _ _ run registered
  | @fail session after calls call fault _ _ run registered =>
    have ends := (Expansion.ends_expand call session).registered registered
    rwa [run] at ends
  | retrace _ _ registered => exact registered

namespace Renumbering

/-- New scopes and macros of the first session are found behind all those of the second. -/
abbrev behind (before after : Session) : Renumbering where
  scopes := after.scopes.size - before.scopes.size
  base := before.scopes.size
  macros := after.macros.size - before.macros.size
  floor := before.macros.size

variable {r : Renumbering}

theorem map_scope_of_lt {stack : ScopeStack} (below : ∀ id ∈ stack, id < r.base) :
    stack.map r.scope = stack :=
  (List.map_congr_left fun id mem => if_pos (below id mem)).trans (List.map_id' stack)

theorem definition_of_lt (colors : r.colors = 0) {definition : MacroDef}
    (below : ∀ id ∈ definition.scopes, id < r.base) : r.definition definition = definition := by
  rw [Renumbering.definition, rule_of_still colors, map_scope_of_lt below, List.map_id]

mutual

theorem fragment_of_still (colors : r.colors = 0) : ∀ fragment, r.fragment fragment = fragment
  | .tokens tokens => by
    rw [Renumbering.fragment, token_of_still colors, List.map_id]
  | .repeated occurrences => by
    rw [Renumbering.fragment, fragments_of_still colors occurrences]

theorem fragments_of_still (colors : r.colors = 0) :
    ∀ fragments, r.fragments fragments = fragments
  | [] => rfl
  | first :: rest => by
    rw [Renumbering.fragments, fragment_of_still colors first, fragments_of_still colors rest]

end

theorem bindings_of_still (colors : r.colors = 0) (bindings : Bindings) :
    r.bindings bindings = bindings := by
  have kept (entry : String × Binding) : (entry.1, r.binding entry.2) = entry := by
    rw [Renumbering.binding, fragment_of_still colors]
  simp only [Renumbering.bindings, kept, List.map_id']

end Renumbering

namespace Session

variable {before after : Session}

/-- What is said of an old scope is said in the same words, and of a new one nothing is. -/
theorem Quiet.entry {α : Type} {change : α → α} (quiet : before.Quiet after)
    {entry : Scope → Option α} (id : ScopeId)
    (kept : ∀ {scope value}, before.scopes.get? id = some scope → entry scope = some value →
      change value = value) :
    (after.scopes.get? ((Renumbering.behind before after).scope id)).bind entry =
      ((before.scopes.get? id).bind entry).map change := by
  by_cases old : id < before.scopes.size
  · have same : (Renumbering.behind before after).scope id = id := if_pos old
    rw [same, quiet.scopes id old]
    cases found : before.scopes.get? id with
    | none => rfl
    | some scope =>
      rw [Option.bind_some]
      cases has : entry scope with
      | none => rfl
      | some value => exact congrArg some (kept found has).symm
  · have above := Nat.le_of_not_lt old
    have moved := Renumbering.scope_of_le (r := .behind before after) above
    have beyond : after.scopes.size ≤ id + (after.scopes.size - before.scopes.size) := by
      omega
    rw [moved, (ScopeStore.get?_eq_none_iff _ _).mpr beyond,
      (ScopeStore.get?_eq_none_iff _ _).mpr above]
    rfl

/-- A quiet change leaves a session that is alike. -/
theorem alike_of_quiet (quiet : before.Quiet after) (closed : before.Closed) :
    before.Alike (.behind before after) .all after := by
  have scopesGrow := quiet.grows.scopes
  have macrosGrow := quiet.grows.macros_size_le
  constructor
  case based => exact Nat.le_refl _
  case size =>
    rw [Renumbering.scope_of_le (Nat.le_refl _)]
    exact (Nat.add_sub_of_le scopesGrow).symm
  case macroIn? =>
    intro id name _
    apply quiet.entry id
    intro scope value found has
    apply Renumbering.macroId_of_lt
    have named : before.scopes.macroIn? id name = some value := by
      rw [ScopeStore.macroIn?, found]
      exact has
    exact closed.registered.macroIn? named
  case colorIn? =>
    intro id name _
    apply quiet.entry id
    intro scope value _ _
    rw [Renumbering.color_of_still rfl, Option.map_id]
    rfl
  case settled => exact Nat.le_refl _
  case registered =>
    rw [Renumbering.macroId, if_neg (Nat.lt_irrefl _)]
    exact (Nat.add_sub_of_le macrosGrow).symm
  case definition =>
    intro id
    by_cases old : id < before.macros.size
    · have found : before.macros.get? id = some before.macros.definitions[id] :=
        Array.getElem?_eq_getElem old
      rw [Renumbering.macroId_of_lt old, quiet.grows.macros found, found, Option.map_some,
        Renumbering.definition_of_lt rfl (closed.scopes found)]
    · have above := Nat.le_of_not_lt old
      have moved : (Renumbering.behind before after).macroId id =
          id + (after.macros.size - before.macros.size) := if_neg old
      have beyond : after.macros.size ≤ id + (after.macros.size - before.macros.size) := by
        omega
      rw [moved, (Registry.get?_eq_none_iff _ _).mpr beyond,
        (Registry.get?_eq_none_iff _ _).mpr above]
      rfl
  case covered => exact fun _ _ _ _ _ => trivial
  case lastColor => exact quiet.color

end Session

namespace Matching

variable {other : Invocation} {rule : Rule} {bindings : Bindings}

/-! ## Matching looks at tokens and scopes -/

variable {call : Invocation} {macroName : String}

theorem capture_congr (scopes : other.scopes = call.scopes) : capture other = capture call := by
  funext kind tokens
  unfold capture captureParsed
  rw [scopes]

mutual

theorem matchElement_congr {other : Invocation} (scopes : other.scopes = call.scopes)
    (depth : Nat) (element : PatternElement) :
    matchElement other macroName depth element = matchElement call macroName depth element := by
  funext progress
  cases element with
  | token expected => simp only [matchElement]
  | capture name kind span => simp only [matchElement, capture_congr scopes]
  | repetition content separator span =>
    simp only [matchElement, matchElements_congr scopes (depth + 1) content]

theorem matchElements_congr {other : Invocation} (scopes : other.scopes = call.scopes)
    (depth : Nat) (elements : List PatternElement) :
    matchElements other macroName depth elements =
      matchElements call macroName depth elements := by
  funext progress
  cases elements with
  | nil => simp only [matchElements]
  | cons element rest =>
    simp only [matchElements, matchElement_congr scopes depth element,
      matchElements_congr scopes depth rest]

end

theorem matchPattern_congr (scopes : other.scopes = call.scopes)
    (tokens : other.tokens = call.tokens) (pattern : Pattern) :
    matchPattern other macroName pattern = matchPattern call macroName pattern := by
  rw [matchPattern, matchPattern, matchElements_congr scopes, tokens]

/-- Behind a quiet change a pattern matches as before. -/
theorem answer_matchPattern_of_quiet {before after : Session} (quiet : before.Quiet after)
    (closed : before.Closed) (inside : ∀ id ∈ call.scopes, id < before.scopes.size)
    (pattern : Pattern) :
    answer (matchPattern call macroName pattern after) =
      answer (matchPattern call macroName pattern before) := by
  let r := Renumbering.behind before after
  have covered : Vocabulary.all.Covers call.tokens := fun _ _ => trivial
  have paired := inStep_matchPattern covered macroName pattern before after
    (Session.alike_of_quiet quiet closed)
  have scopes : (r.call call).scopes = call.scopes := Renumbering.map_scope_of_lt inside
  have tokens : (r.call call).tokens = call.tokens := by
    show call.tokens.map r.token = call.tokens
    rw [Renumbering.token_of_still rfl, List.map_id]
  have answers := paired.answer
  rw [Renumbering.elements_of_still rfl, matchPattern_congr scopes tokens] at answers
  have kept : Option.map r.bindings = id := by
    rw [funext (Renumbering.bindings_of_still rfl)]
    exact Option.map_id
  rw [answers, kept]
  cases answer (matchPattern call macroName pattern before) <;> rfl

/-! ## Rules -/

/-- The first rule decides, or else the rest does in the session that the attempt has left. -/
theorem answer_firstMatch_cons (number : Nat) (rule : Rule) (rest : List Rule)
    (session : Session) :
    answer (firstMatch call macroName number (rule :: rest) session) =
      (answer (matchPattern call macroName rule.pattern session)).bind fun found =>
        found.elim
          (answer (firstMatch call macroName (number + 1) rest
            (final (matchPattern call macroName rule.pattern session))))
          fun bindings => .ok (number, rule, bindings) := by
  simp only [firstMatch, Bind.bind, EStateM.bind]
  cases matchPattern call macroName rule.pattern session with
  | error fault after => rfl
  | ok found after => cases found <;> rfl

theorem answer_firstMatch_nil (number : Nat) (session : Session) :
    answer (firstMatch call macroName number [] session) =
      .error (.expansion macroName call.span .noMatch) :=
  rfl

theorem firstMatch_singleton_eq_ok_iff :
    answer (firstMatch call macroName 0 [rule] session) = .ok (0, rule, bindings) ↔
      answer (matchPattern call macroName rule.pattern session) = .ok (some bindings) := by
  rw [answer_firstMatch_cons, answer_firstMatch_nil]
  rcases answer (matchPattern call macroName rule.pattern session) with fault | _ | found <;>
    simp [Except.bind]

/-- A rule alone finds no match exactly when its pattern does not match. -/
theorem firstMatch_singleton_eq_noMatch_iff :
    answer (firstMatch call macroName 0 [rule] session) =
        .error (.expansion macroName call.span .noMatch) ↔
      answer (matchPattern call macroName rule.pattern session) = .ok none := by
  rw [answer_firstMatch_cons, answer_firstMatch_nil]
  have known := ensures_matchPattern call macroName rule.pattern (fun _ => id) session
    (.refl session)
  cases run : matchPattern call macroName rule.pattern session with
  | error fault after =>
    rw [run] at known
    obtain ⟨-, name, span, -, rfl⟩ := known
    simp [answer, Except.bind, duplicate, Fault.expansion]
  | ok found after => cases found <;> simp [answer, Except.bind]

/-- The rules may also be tried later, when other attempts have changed the session. -/
theorem firstMatch_eq_ok_iff_of_quiet {later : Session} (closed : session.Closed)
    (inside : ∀ id ∈ call.scopes, id < session.scopes.size) (quiet : session.Quiet later)
    {rules : List Rule} {number chosen : Nat} :
    answer (firstMatch call macroName number rules later) = .ok (chosen, rule, bindings) ↔
      ∃ index, chosen = number + index ∧ rules[index]? = some rule ∧
        answer (matchPattern call macroName rule.pattern session) = .ok (some bindings) ∧
          ∀ earlier ∈ rules.take index,
            answer (matchPattern call macroName earlier.pattern session) = .ok none := by
  induction rules generalizing number later with
  | nil => simp [answer_firstMatch_nil]
  | cons first rest ih =>
    have tried := (ensures_matchPattern call macroName first.pattern fun _ _ => trivial).final
      (.refl later)
    have tail := @ih _ (quiet.trans tried.keeps.quiet) (number + 1)
    rw [answer_firstMatch_cons, answer_matchPattern_of_quiet quiet closed inside,
      ← Nat.or_exists_add_one]
    simp only [List.getElem?_cons_zero, List.getElem?_cons_succ, List.take_zero,
      List.take_succ_cons, List.forall_mem_cons, List.not_mem_nil, false_imp_iff, implies_true,
      and_true, Option.some.injEq, Nat.add_zero]
    rcases answered : answer (matchPattern call macroName first.pattern session) with
      fault | _ | found
    · -- The fault is the answer, and no rule is chosen.
      simp only [Except.bind, reduceCtorEq, false_and, and_false, exists_false, or_false,
        false_iff]
      rintro ⟨-, rfl, matched⟩
      rw [answered] at matched
      cases matched
    · -- The first rule is passed over, and the rest begins one number later.
      have passed : ¬(chosen = number ∧ first = rule ∧
          answer (matchPattern call macroName rule.pattern session) = .ok (some bindings)) := by
        rintro ⟨-, rfl, matched⟩
        rw [answered] at matched
        cases matched
      have next (index : Nat) : number + 1 + index = number + (index + 1) := by
        omega
      simp only [Except.bind, Option.elim, true_and, passed, false_or, tail, next]
    · -- The first rule is chosen.
      simp only [Except.bind, Option.elim, Except.ok.injEq, Prod.mk.injEq, reduceCtorEq,
        false_and, and_false, exists_false, or_false]
      constructor
      · rintro ⟨rfl, rfl, rfl⟩
        exact ⟨rfl, rfl, answered⟩
      · rintro ⟨rfl, rfl, matched⟩
        rw [answered] at matched
        cases matched
        exact ⟨rfl, rfl, rfl⟩

/-- Rules that were tried before and failed have no part in what is chosen: the rule that is
chosen matches alone with the same bindings, and each rule in front of it does not match alone. -/
theorem firstMatch_eq_ok_iff {session : Session} (closed : session.Closed)
    (inside : ∀ id ∈ call.scopes, id < session.scopes.size) (rules : List Rule) (index : Nat)
    (rule : Rule) (bindings : Bindings) :
    answer (firstMatch call macroName 0 rules session) = .ok (index, rule, bindings) ↔
      rules[index]? = some rule ∧
        answer (firstMatch call macroName 0 [rule] session) = .ok (0, rule, bindings) ∧
          ∀ earlier ∈ rules.take index, answer (firstMatch call macroName 0 [earlier] session) =
            .error (.expansion macroName call.span .noMatch) := by
  rw [firstMatch_eq_ok_iff_of_quiet closed inside (.refl session)]
  simp only [firstMatch_singleton_eq_ok_iff, firstMatch_singleton_eq_noMatch_iff, Nat.zero_add]
  constructor
  · rintro ⟨_, rfl, chosen⟩
    exact chosen
  · exact fun chosen => ⟨index, rfl, chosen⟩

/-- Both rules begin with a statement, and the statement of the call declares a macro. -/
def secondRule : String :=
  "macro m \x7b ($s:stmt 1) => \x7b \x7d ($s:stmt 2) => \x7b \x7d \x7d " ++
    "m(macro n \x7b () => \x7b 3 \x7d \x7d 2);"

/-- The first rule declares the macro and fails, and the second declares it again. -/
theorem secondRule_matches_alone :
    ∃ session call first second bindings after,
      firstMatch call "m" 0 [first, second] session = .ok (1, second, bindings) after ∧
        after.macros.size = session.macros.size + 2 ∧
          answer (firstMatch call "m" 0 [second] session) = .ok (0, second, bindings) ∧
            answer (firstMatch call "m" 0 [first] session) =
              .error (.expansion "m" call.span .noMatch) := by
  have evaluated : endsWith (fun program session =>
      (Leaf.calls (Leaf.ofProgram program)).head?.any fun call =>
        (session.macros.get? 0).any fun definition =>
          definition.rules.length == 2 &&
            endsWith (fun chosen after =>
              chosen.1 == 1 && after.macros.size == session.macros.size + 2)
              (firstMatch call "m" 0 definition.rules session))
      (Session.readProgram secondRule {}) = true := by
    decide +kernel
  obtain ⟨program, session, readRun, holds⟩ := exists_ok_of_endsWith evaluated
  simp only [Option.any_eq_true, Bool.and_eq_true, beq_iff_eq] at holds
  obtain ⟨call, isCall, definition, -, length, ended⟩ := holds
  obtain ⟨first, second, rules⟩ := List.length_eq_two.mp length
  obtain ⟨⟨index, rule, bindings⟩, after, run, size⟩ := exists_ok_of_endsWith ended
  simp only [Bool.and_eq_true, beq_iff_eq] at size
  obtain ⟨rfl, size⟩ := size
  rw [rules] at run
  have reached := Session.Reached.start.read readRun
  have callSound := reached.sound.2 call
    (List.mem_append_left _ (List.mem_of_mem_head? isCall))
  obtain ⟨atIndex, alone, earlier⟩ :=
    (firstMatch_eq_ok_iff reached.closed (fun _ => callSound.scopes.inside) [first, second] 1 rule
      bindings).mp (by rw [run]; rfl)
  obtain rfl : second = rule := by simpa using atIndex
  exact ⟨session, call, first, second, bindings, after, run, size, alone,
    earlier first (by simp)⟩

/-- The first rule begins with a statement.  The second one spells the statement of the call out,
and goes on with an expression. -/
def declaringRule : String :=
  "macro m \x7b ($s:stmt 1) => \x7b \x7d " ++
    "(macro n \x7b () => \x7b 3 \x7d \x7d $e:expr) => \x7b \x7d \x7d " ++
      "m(macro n \x7b () => \x7b 3 \x7d \x7d n(1 2));"

/-- The call of `declaringRule` names a scope that a new session does not have yet.  The first rule
opens a scope under that number and declares `n` in it, so that the second one finds a call of `n`
there.  Alone the second rule does not match. -/
theorem declaringRule_needs_first :
    ∃ (call : Invocation) (first second : Rule) (bindings : Bindings),
      answer (firstMatch call "m" 0 [first, second] {}) = .ok (1, second, bindings) ∧
        ∀ others, answer (firstMatch call "m" 0 [second] {}) ≠ .ok (0, second, others) := by
  have evaluated : endsWith (fun program session =>
      (Leaf.calls (Leaf.ofProgram program)).head?.any fun call =>
        (session.macros.get? 0).any fun definition => definition.rules.length == 2 &&
          (endsWith (fun chosen _ => chosen.1 == 1) (firstMatch call "m" 0 definition.rules {}) &&
            failsWith (fun _ => true) (firstMatch call "m" 0 definition.rules.tail {})))
      (Session.readProgram declaringRule {}) = true := by
    decide +kernel
  obtain ⟨program, session, -, holds⟩ := exists_ok_of_endsWith evaluated
  simp only [Option.any_eq_true, Bool.and_eq_true, beq_iff_eq] at holds
  obtain ⟨call, -, definition, -, length, ended, failed⟩ := holds
  obtain ⟨first, second, rules⟩ := List.length_eq_two.mp length
  rw [rules] at ended failed
  obtain ⟨⟨index, rule, bindings⟩, after, run, isSecond⟩ := exists_ok_of_endsWith ended
  obtain rfl : index = 1 := eq_of_beq isSecond
  obtain ⟨⟨offset, number, found⟩, -⟩ := firstMatch_eq_ok run
  rw [Nat.zero_add] at number
  obtain rfl : second = rule := by simpa [← number] using found
  obtain ⟨fault, failedAfter, alone, -⟩ := exists_error_of_failsWith failed
  refine ⟨call, first, second, bindings, by rw [run]; rfl, ?_⟩
  intro others matched
  rw [show firstMatch call "m" 0 [second] {} = .error fault failedAfter from alone] at matched
  cases matched

end Matching

end MacroScript
