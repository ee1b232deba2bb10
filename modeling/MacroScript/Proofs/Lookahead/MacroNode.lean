import MacroScript.Proofs.Balanced
import MacroScript.Proofs.Lookahead.Parser

/-!
# Names, calls and macro declarations and what follows

Outside of an expansion the meaning of a name depends on the context only, which is the same
for a source and for a longer one.  A balanced run that is closed within the shorter source is
the same run in both.
-/

namespace MacroScript

namespace Balanced

/-- Closing a run does not depend on what follows. -/
theorem take_of_append {closer : String} (known : closer ∈ closers)
    {tokens more tree rest : List Token} (closed : take closer (tokens ++ more) = .closed tree rest)
    (enough : more.length ≤ rest.length) :
    ∃ kept, take closer tokens = .closed tree kept ∧ rest = kept ++ more := by
  obtain ⟨close, closes, inside, split⟩ := (take_eq_closed_iff known).mp closed
  have parts := split.trans (List.append_cons tree close rest)
  rcases List.append_eq_append_iff.mp parts with ⟨missing, longer, rfl⟩ | ⟨kept, rfl, rfl⟩
  · obtain rfl : missing = [] := by
      rw [List.length_append] at enough
      exact List.eq_nil_of_length_eq_zero (by omega)
    exact ⟨[], (take_eq_closed_iff known).mpr ⟨close, closes, inside, by simpa using longer.symm⟩,
      rfl⟩
  · exact ⟨kept, (take_eq_closed_iff known).mpr ⟨close, closes, inside, by simp⟩, rfl⟩

end Balanced

namespace Grammar

variable {α : Type} {c : Continuation} {low owed : Nat} {state after : State} {otherwise : α}
  {ask : Context → Cursor → Except Fault α}

/-! ## Balanced runs -/

theorem gains_takeBalanced (closer : String) : Gains c 1 (takeBalanced closer) := by
  intro state after tree holds run
  obtain ⟨next, last, rest, _, forward, index, rfl⟩ := takeBalanced_eq_ok holds.ready run
  refine ⟨forward, .inl ?_⟩
  show state.cursor.index + 1 ≤ next.index
  omega

theorem takeBalanced_of_closed {closer : String} {tree rest : List Token}
    (closed : Balanced.take closer state.cursor.rest = .closed tree rest) :
    takeBalanced closer state =
      .ok tree { state with
        cursor := { state.cursor with index := state.cursor.tokens.size - rest.length } } := by
  simp only [takeBalanced, closed]

theorem Longer.rest {one two : State} (longer : Longer c one two) :
    two.cursor.rest = one.cursor.rest ++ c.next :: c.rest := by
  rw [Cursor.rest, Cursor.rest, longer.tokens, longer.index]
  apply List.drop_append_of_le_length
  rw [Array.length_toList]
  exact longer.ready.inside

theorem concur_takeBalanced {closer : String} (known : closer ∈ Balanced.closers) :
    Concur c low 0 1 (takeBalanced closer) (takeBalanced closer) where
  gains := gains_takeBalanced closer
  agree {one two} longer _ := by
    intro value after run
    have forwardToo := (gains_takeBalanced closer longer.holds run).1
    have lengths : two.cursor.tokens.size = c.limit + (c.rest.length + 1) := longer.holds.size
    cases closed : Balanced.take closer two.cursor.rest with
    | mismatched found rest
    | unfinished rest => simp [takeBalanced, closed] at run
    | closed tree rest =>
      rw [takeBalanced_of_closed closed] at run
      cases run
      rcases Nat.lt_or_ge rest.length (c.rest.length + 1) with past | enough
      · refine .inr ?_
        show c.limit < two.cursor.tokens.size - rest.length + 0
        omega
      · rw [longer.rest] at closed
        obtain ⟨kept, closedToo, rfl⟩ := Balanced.take_of_append known closed enough
        obtain ⟨last, -, -, split⟩ := (Balanced.take_eq_closed_iff known).mp closedToo
        have suffix : kept <:+ one.cursor.rest := ⟨value ++ [last], by simp [split]⟩
        refine .inl ⟨_, takeBalanced_of_closed closedToo,
          longer.move (longer.ready.forward_suffix suffix) forwardToo ?_ longer.allowIn⟩
        simp only [longer.size, List.length_append, List.length_cons, lengths]
        omega
  same _ _ := rfl

/-! ## Names -/

theorem withContext_eq_ok {value : α} (run : withContext otherwise ask state = .ok value after) :
    after = state := by
  unfold withContext at run
  split at run
  · cases run
    rfl
  · split at run
    · cases run
      rfl
    · cases run

/-- Outside of an expansion a question about the context is not about the source. -/
theorem concur_withContext (same : ∀ {context : Context}, context.hygiene = none → ∀ cursor other,
      ask context other = ask context cursor) :
    Concur c low owed 0 (withContext otherwise ask) (withContext otherwise ask) where
  gains state after value holds run := by
    rw [withContext_eq_ok run]
    exact ⟨.refl holds.ready, .inl (Nat.le_refl _)⟩
  agree {one two} longer _ := by
    unfold withContext
    rw [longer.context]
    cases has : one.context with
    | none => exact .pure longer otherwise
    | some context =>
      simp only [same (longer.plain has) one.cursor two.cursor]
      cases ask context one.cursor with
      | error fault => rintro _ _ ⟨⟩
      | ok value => exact .pure longer value
  same _ _ := rfl

theorem concur_resolveName (identifier : Identifier) (place : Nat) :
    Concur c low owed 0 (resolveName identifier place) (resolveName identifier place) := by
  apply Concur.andThen (concur_withContext _) fun color => .pure (identifier.applyColor? color)
  intro context plain cursor other
  rw [Context.tokenColor_of_plain plain, Context.tokenColor_of_plain plain]

theorem concur_changeContext {change : Context → Context}
    (plain : ∀ {context : Context}, context.hygiene = none → (change context).hygiene = none) :
    Concur c low owed 0 (changeContext change) (changeContext change) where
  gains := by
    rintro state after value holds ⟨⟩
    exact ⟨.refl holds.ready, .inl (Nat.le_refl _)⟩
  agree longer _ := by
    rintro _ _ ⟨⟩
    exact .inl ⟨_, rfl, longer.change change plain⟩
  same _ _ := rfl

/-- Note a binding outside of an expansion. -/
abbrev noteName (name : String) : Parser Unit :=
  changeContext fun context => context.mark context.scopes name none

theorem concur_noteName (name : String) : Concur c low owed 0 (noteName name) (noteName name) :=
  concur_changeContext fun {context} plain =>
    (Context.mark_hygiene context context.scopes name none).trans plain

/-- Declaring a name reads no token. -/
theorem declareName_cursor {identifier value : Identifier} {place : Nat}
    (run : declareName identifier place state = .ok value after) : after.cursor = state.cursor := by
  obtain ⟨updated, asked, bound, laterRun⟩ := Outcome.bind_eq_ok_iff.mp run
  obtain ⟨_, noted, ⟨⟩, resolved⟩ := Outcome.bind_eq_ok_iff.mp laterRun
  obtain ⟨color, final, colored, ⟨⟩⟩ := Outcome.bind_eq_ok_iff.mp resolved
  rw [withContext_eq_ok colored, withContext_eq_ok bound]

/-- Outside of an expansion a name is noted as a binding without a color. -/
theorem declareName_of_plain
    (plain : ∀ {context : Context}, state.context = some context → context.hygiene = none)
    (identifier : Identifier) (place : Nat) :
    declareName identifier place state =
      (do noteName identifier.name; resolveName identifier place : Parser Identifier) state := by
  obtain ⟨cursor, context⟩ := state
  cases context with
  | none => rfl
  | some context =>
    have bound : context.bindName cursor place identifier.name =
        .ok (context.mark context.scopes identifier.name none) :=
      Context.bindName_of_plain (plain rfl)
    have declared := declareName_state ⟨cursor, context⟩ identifier place
    simp only [bound] at declared
    exact declared.trans (resolveName_state ⟨cursor, _⟩ identifier place).symm

theorem concur_declareName (identifier : Identifier) (place : Nat) :
    Concur c low owed 0 (declareName identifier place) (declareName identifier place) where
  gains state after value holds run := by
    rw [declareName_cursor run]
    exact ⟨.refl holds.ready, .inl (Nat.le_refl _)⟩
  agree longer begun := by
    rw [declareName_of_plain longer.plain,
      declareName_of_plain fun has => longer.plain (longer.context ▸ has)]
    exact ((concur_noteName _).andThen fun _ => concur_resolveName identifier place).agree
      longer begun
  same _ _ := rfl

theorem concur_expectName : Concur c low 0 1 expectName expectName :=
  concur_expect (·.isName) .unexpected (concur_advance.bind fun _ => .pure _)

theorem concur_bindingName : Concur c low 0 1 bindingName bindingName :=
  concur_index.andThen fun place =>
    concur_expectName.bind fun identifier => concur_declareName identifier place

theorem concur_referenceName : Concur c low 0 1 referenceName referenceName :=
  concur_index.andThen fun place =>
    concur_expectName.bind fun identifier => concur_resolveName identifier place

/-! ## Patterns -/

theorem concur_patternElement {content contentToo : Parser Pattern}
    (inner : Concur c (low + 1) 1 0 content contentToo) :
    Concur c low 0 1 (patternElement content) (patternElement contentToo) := by
  have group (token : Token) : Concur c low 0 2
      (do
        let _ ← advance
        let _ ← advance
        let elements ← content
        let _ ← expectPunct ")"
        let separator ← advance
        if separator.isEnd then malformed separator.span .missingSeparator
        else return PatternElement.repetition elements separator (← finishSpan token.span))
      (do
        let _ ← advance
        let _ ← advance
        let elements ← contentToo
        let _ ← expectPunct ")"
        let separator ← advance
        if separator.isEnd then malformed separator.span .missingSeparator
        else return PatternElement.repetition elements separator (← finishSpan token.span)) := by
    refine (concur_advance.bind fun _ => concur_advance.bind fun _ => inner.later.settle
      fun elements => (concur_expectPunct ")").bind fun _ => concur_advance.andThen
        fun separator => .ite (.of_fails (.malformed _ _)) ?_).mono (Nat.le_succ 2)
    exact (concur_finishSpan _).andThen fun span => .pure _
  refine concur_peekNext Token.isEnd_of_isPunct (fun token => (group token).mono (Nat.le_succ 1))
    (fun token => ?_) ?_
  · cases token.captureName? with
    | none => exact concur_advance.bind fun _ => .pure _
    | some name =>
      refine concur_advance.bind fun _ => (concur_expectPunct ":").andThen fun _ =>
        concur_advance.andThen fun word => ?_
      cases (if word.isName then CaptureKind.ofWord? word.text else none) with
      | none => exact .of_fails (.malformed _ _)
      | some kind => exact .pure _
  · intro token one two longer atLast _
    exact .of_past longer (group token).gains (by omega)

/-- One more element, with parsers for the rest that agree. -/
theorem concur_patternElements_succ {bound boundToo : Nat}
    (later : ∀ closer inner, Concur c (low + 1) 1 0 (patternElements bound closer inner)
      (patternElements boundToo closer inner)) (closer : String) (inner : List String) :
    Concur c low 1 0 (patternElements (bound + 1) closer inner)
      (patternElements (boundToo + 1) closer inner) := by
  have onward {first : Parser PatternElement} {second : Parser PatternElement}
      (element : Concur c low 0 1 first second) (inner : List String) :
      Concur c low 1 0 (do return (← first) :: (← patternElements bound closer inner))
        (do return (← second) :: (← patternElements boundToo closer inner)) :=
    (element.bind fun value => (later closer inner).cons value).weaken
  have bracket (token : Token) : Concur c low 0 1
      (do let _ ← advance; return PatternElement.token token)
      (do let _ ← advance; return PatternElement.token token) :=
    concur_advance.bind fun _ => .pure _
  refine concur_peek_eager (Nat.succ_pos _) fun token => .ite (.of_fails (.malformed _ _))
    (.ite (.pure []) (.ite (onward (bracket token) inner.tail) ?_))
  cases token.closer? with
  | some opened => exact onward (bracket token) (opened :: inner)
  | none =>
    exact .ite (.of_fails (.malformed _ _)) (onward (concur_patternElement (later ")" [])) inner)

/-- An element is at least a token, so the elements do not come to the bound within the shorter
source. -/
theorem concur_patternElements (bound boundToo : Nat) (equal : c.alike = true → bound = boundToo)
    (closer : String) (inner : List String) :
    Concur c (c.limit - bound) 1 0 (patternElements bound closer inner)
      (patternElements boundToo closer inner) := by
  induction boundToo generalizing bound closer inner with
  | zero =>
    have fails : Fails (patternElements 0 closer inner) := by
      rintro state after value ⟨⟩
    refine ⟨(Concur.of_fails fails : Concur c 0 0 0 _ _).gains, fun _ _ => .of_fails fails, ?_⟩
    intro state shares _
    rw [equal shares.alike]
  | succ boundToo ih =>
    have step (bound : Nat) (equal : c.alike = true → bound = boundToo) :
        Concur c (c.limit - (bound + 1)) 1 0 (patternElements (bound + 1) closer inner)
          (patternElements (boundToo + 1) closer inner) :=
      concur_patternElements_succ
        (fun closer inner => (ih bound equal closer inner).from_le (by omega)) closer inner
    cases bound with
    | zero =>
      have never (alike : c.alike = true) : False := by
        have := equal alike
        omega
      exact .of_gains (step 0 fun alike => (never alike).elim).gains
        (fun shares _ => (never shares.alike).elim) fun longer begun near => by omega
    | succ bound => exact step bound fun alike => Nat.succ.inj (equal alike)

theorem concur_pattern : Concur c low 1 0 pattern pattern where
  gains _ _ _ holds run := (concur_patternElements _ _ (fun _ => rfl) _ _).gains holds run
  agree {one two} longer begun := by
    apply (concur_patternElements _ _ (fun alike => nomatch longer.differs.symm.trans alike)
      _ _).agree longer
    rw [Cursor.remaining, longer.size]
    omega
  same _ _ := rfl

/-! ## Declarations -/

theorem concur_rule : Concur c low 0 1 rule rule :=
  (concur_expectPunct "(").bind fun _ => (concur_pattern.settle fun _ =>
    (concur_expectPunct ")").bind fun _ => (concur_expectPunct "=>").andThen fun _ =>
      (concur_expectPunct "\x7b").andThen fun _ => (concur_takeBalanced (by decide)).andThen
        fun _ => concur_finish).weaken

theorem concurBounded_rulesOf (name : String) :
    ConcurBounded c low 1 (rulesOf name) (rulesOf name) := by
  refine concurBounded_of_round (fun bound (_ : Unit) => rulesOf name bound)
    (fun bound _ => rulesOf name bound) ?_ ?_ ()
  · exact fun _ => .pure []
  · intro bound boundToo high _ next _
    refine concur_atPunct "\x7d" (.pure []) (Nat.le_refl _) (Nat.succ_pos _) ?_
    refine concur_peek_eager (Nat.succ_pos _) fun token => .ite (.of_fails (.malformed _ _)) ?_
    exact (concur_rule.bind fun value => (next ()).cons value).weaken

theorem concur_macroDeclaration : Concur c low 0 4 macroDeclaration macroDeclaration := by
  refine concur_advance.bind fun start => concur_advance.bind fun nameToken =>
    (concur_noteName _).andThen fun _ => (concur_expectPunct "\x7b").bind fun _ =>
      (concurBounded_rulesOf _).settle fun rules => concur_advance.bind fun _ =>
        (concur_finishSpan _).andThen fun span => .ite (.of_fails (.malformed _ _)) ?_
  refine (concur_withContext fun _ _ _ => rfl).andThen fun macroId => ?_
  have declares : ∀ {context : Context}, context.hygiene = none →
      (context.declare nameToken.text rules span).hygiene = none := id
  exact (concur_changeContext declares).andThen fun _ => .pure _

/-! ## Calls -/

theorem Context.captureColors_of_plain {context : Context} (plain : context.hygiene = none)
    (cursor : Cursor) (place : Nat) (tokens : List Token) :
    context.captureColors cursor place tokens = .ok tokens := by
  simp only [Context.captureColors, plain]

theorem concur_macroCall (macroId : MacroId) :
    Concur c low 0 2 (macroCall macroId) (macroCall macroId) := by
  refine concur_advance.bind fun nameToken => concur_advance.bind fun _ =>
    concur_index.andThen fun place => (concur_takeBalanced (by decide)).andThen fun captured => ?_
  refine (concur_withContext fun plain cursor other => ?_).andThen fun tokens =>
    (concur_finishSpan _).andThen fun span => (concur_withContext fun _ _ _ => rfl).andThen
      fun scopes => .pure _
  rw [Context.captureColors_of_plain plain, Context.captureColors_of_plain plain]

/-- The token behind a name matters only if the name is that of a macro, whose call goes past
that token. -/
theorem concur_nameExpression : Concur c low 0 1 nameExpression nameExpression := by
  have plain : Concur c low 0 1 (do return Expr.identifier (← referenceName))
      (do return Expr.identifier (← referenceName)) := concur_referenceName.bind fun _ => .pure _
  refine concur_index.andThen fun place => concur_peekNext Token.isEnd_of_isPunct
    (fun _ => Concur.andThen (concur_withContext fun _ _ _ => rfl) fun callee => ?_)
    (fun _ => plain) ?_
  · cases callee with
    | none => exact plain
    | some macroId => exact (concur_macroCall macroId).mono (Nat.le_succ 1)
  intro token one two longer atLast begun value after run
  obtain ⟨callee, between, asked, later⟩ := Outcome.bind_eq_ok_iff.mp run
  obtain rfl := withContext_eq_ok asked
  cases callee with
  | none => exact plain.agree longer begun later
  | some macroId =>
    have calls : Concur c low 0 2 (macroCall macroId) (macroCall macroId) :=
      concur_macroCall macroId
    have further := (calls.gains longer.holds later).2
    have index := longer.index
    exact .inr (by omega)

end Grammar

end MacroScript
