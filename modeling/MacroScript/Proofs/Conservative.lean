import MacroScript.Proofs.FullExpansion
import MacroScript.Proofs.Hygiene.Source
import MacroScript.Proofs.Reading.Plain
import Mathlib.Data.List.Chain

/-!
# Sources without macros

Macros are a conservative extension of the plain language.  A source that declares no
macro is read in every session as in the plain language, whatever the session knows from
other units: the same tree, spans included, or the same fault.  Such a tree has no macro
nodes, and splicing gives a tree without macro nodes back as it is.
-/

namespace MacroScript

open MacroScript.Grammar MacroScript.Outcome

/-! ## Splicing a tree without macro nodes -/

namespace Splice

/-- Where there are no macro nodes, no handler is called, and nothing changes. -/
theorem Spliced.eq_pure {r : Renumbering} {one two : Handler} {α : Type} {done marks : List Mark}
    {origin : α} {first second : SessionM α} {map : α → α} {view : α → List Mark}
    (spliced : Spliced r one two done marks origin first second map view)
    (free : MacroFree (Mark.leaves marks)) : first = Pure.pure origin := by
  induction spliced with
  | pure same seen => rfl
  | keep kept rest ih =>
    rw [← List.singleton_append, Mark.leaves_append, MacroFree.append_iff] at free
    exact ih free.2
  | drop rest ih
  | call call origin
  | callExpression call => cases free _ List.mem_cons_self
  | bind front back unchanged ih ihBack =>
    rw [Mark.leaves_append, MacroFree.append_iff] at free
    rw [ih free.1, pure_bind, ihBack _ free.2, unchanged]
  | frame inner ih => exact ih free

/-- Splicing gives a program without macro nodes back, and leaves the session alone. -/
theorem spliceProgram_of_macroFree {handler : Handler} {program : Program}
    (free : MacroFree (Leaf.ofProgram program)) : spliceProgram handler program = pure program := by
  apply (spliced_spliceProgram {} handler handler program).eq_pure
  rwa [Mark.leaves_contents]

end Splice

/-- Compiling gives a program and the session back unchanged exactly if the program has no
macro nodes.  What a program is compiled to has none, so compiling it again changes nothing,
in whatever session. -/
theorem compile_unchanged_iff_macroFree (options : CompileOptions) (program : Program)
    (session : Session) :
    (compile options program session = .ok program session ↔
        MacroFree (Leaf.ofProgram program)) ∧
      ∀ expanded after, compile options program session = .ok expanded after →
        ∀ later again, compile later expanded again = .ok expanded again := by
  have unchanged : ∀ {options : CompileOptions} {program : Program} {session : Session},
      MacroFree (Leaf.ofProgram program) →
        compile options program session = .ok program session := by
    intro options program session free
    rw [compile, Splice.spliceProgram_of_macroFree free]
    rfl
  have compiled : ∀ {expanded : Program} {after : Session},
      compile options program session = .ok expanded after →
        MacroFree (Leaf.ofProgram expanded) := by
    intro expanded after run
    exact (Splice.replaced_spliceProgram run).macroFree Compile.macroFree_expandWithin
  constructor
  · exact ⟨compiled, unchanged⟩
  · intro expanded after run later again
    exact unchanged (compiled run)

/-- Compiling `nestedCalls` changes the program and the session, and compiling the result
again, with a trace, changes neither. -/
theorem compile_nestedCalls_again :
    ∃ program session expanded after,
      Session.readProgram nestedCalls {} = .ok program session ∧
        compile {} program session = .ok expanded after ∧
          session.scopes.size < after.scopes.size ∧
            Leaf.ofProgram program ≠ Leaf.ofProgram expanded ∧
              compile { recordTrace := true } expanded after = .ok expanded after := by
  have evaluated : endsWith (fun program session =>
      endsWith (fun expanded (after : Session) =>
        decide (session.scopes.size < after.scopes.size) &&
          decide (Leaf.ofProgram program ≠ Leaf.ofProgram expanded)) (compile {} program session))
      (Session.readProgram nestedCalls {}) = true := by
    decide +kernel
  rcases exists_ok_of_endsWith evaluated with ⟨program, session, readRun, compiled⟩
  rcases exists_ok_of_endsWith compiled with ⟨expanded, after, compileRun, holds⟩
  simp only [Bool.and_eq_true, decide_eq_true_eq] at holds
  rcases compile_unchanged_iff_macroFree {} program session with ⟨-, idempotent⟩
  exact ⟨program, session, expanded, after, readRun, compileRun, holds.1, holds.2,
    idempotent expanded after compileRun { recordTrace := true } after⟩

/-! ## Reading -/

/-- No two tokens in a row begin the declaration of a macro: a word `macro` and a name. -/
def Token.DeclareNoMacro (tokens : List Token) : Prop :=
  tokens.IsChain fun first second => ¬(first.isWord "macro" = true ∧ second.isName = true)

instance (tokens : List Token) : Decidable (Token.DeclareNoMacro tokens) :=
  inferInstanceAs (Decidable (tokens.IsChain _))

theorem Cursor.declaresNoMacro_ofTokens {tokens : List Token}
    (undeclared : Token.DeclareNoMacro tokens) : (ofTokens tokens).DeclaresNoMacro := by
  intro index isMacro
  by_contra named
  rw [Bool.not_eq_false] at named
  have inside := (ready_ofTokens tokens).lt_of_isName named
  have first := getElem?_of_lt (Nat.lt_of_succ_lt inside)
  have second := getElem?_of_lt inside
  obtain ⟨firstInside, first_eq⟩ := List.getElem?_eq_some_iff.mp first
  obtain ⟨secondInside, second_eq⟩ := List.getElem?_eq_some_iff.mp second
  have pair := undeclared.getElem index secondInside
  rw [first_eq, second_eq] at pair
  exact pair ⟨isMacro, named⟩

theorem Grammar.Agree.answer_eq {α : Type} {macros : Registry} {cursor : Cursor}
    {plain knowing : EStateM.Result Fault State α} (agree : Agree macros cursor plain knowing) :
    answer knowing = answer plain := by
  cases agree with
  | ok
  | error => rfl

namespace Session

variable {session after : Session} {tokens : List Token} {source : String} {program : Program}

theorem bare_reader (session : Session) (tokens : List Token) :
    (session.reader tokens [] none).context.Bare session.macros := by
  let outside : Context := { session, scopes := [] }
  have outsideBare : outside.Bare session.macros := ⟨rfl, rfl, by simp [outside]⟩
  exact outsideBare.enterScope

theorem agree_program (undeclared : Token.DeclareNoMacro tokens) (session : Session) :
    Agree session.macros (.ofTokens tokens) (Grammar.program { cursor := .ofTokens tokens })
      (Grammar.program (session.readerState tokens [] none)) :=
  agrees_of_composed (composed_program (r := {})) _ _ (Cursor.ready_ofTokens tokens)
    (Cursor.declaresNoMacro_ofTokens undeclared) (bare_reader session tokens)

section

variable (scanned : tokenize source = .ok tokens) (undeclared : Token.DeclareNoMacro tokens)
include scanned undeclared

/-- Reading tokens that declare no macro comes to what the plain language comes to. -/
theorem answer_readProgram (session : Session) :
    answer (readProgram source session) = parse source := by
  have plainRun : parse source =
      answer (Grammar.program { cursor := .ofTokens tokens }) := by
    simp only [parse, scanned, bind, Except.bind]
    cases Grammar.program { cursor := .ofTokens tokens } <;> rfl
  have knowingRun : answer (readProgram source session) =
      answer (Grammar.program (session.readerState tokens [] none)) := by
    simp only [readProgram, scanned, read, bind, EStateM.bind]
    cases Grammar.program (session.readerState tokens [] none) <;> rfl
  rw [plainRun, knowingRun]
  exact (agree_program undeclared session).answer_eq

/-- Reading tokens that declare no macro adds none to the session. -/
theorem macros_readProgram (run : readProgram source session = .ok program after) :
    after.macros = session.macros := by
  have agree := agree_program undeclared session
  generalize Grammar.program { cursor := .ofTokens tokens } = plain at agree
  cases outcome : Grammar.program (session.readerState tokens [] none) with
  | error fault state => simp [readProgram, scanned, read, bind, EStateM.bind, outcome] at run
  | ok value state =>
    simp only [readProgram, scanned, read, bind, EStateM.bind, outcome, pure, EStateM.pure,
      EStateM.Result.ok.injEq] at run
    obtain ⟨-, rfl⟩ := run
    rw [outcome] at agree
    cases agree with
    | ok forward bare => exact bare.macros

/-- A tree that was read from tokens that declare no macro has no macro nodes. -/
theorem macroFree_readProgram (run : readProgram source session = .ok program after) :
    MacroFree (Leaf.ofProgram program) := by
  have kept := macros_readProgram scanned undeclared run
  obtain ⟨tokens', places, final, scanned', walk, seen, rfl⟩ := readProgram_eq_ok run
  obtain ⟨free, -⟩ := walk.macroFree fresh_reader.nonempty (bare_reader session tokens')
    (Nat.le_of_eq (congrArg Registry.size kept))
  rw [seen]
  intro leaf mem
  obtain ⟨place, placeMem, rfl⟩ := List.mem_map.mp mem
  exact free place placeMem

end

end Session

/-- A source that declares no macro is read, and expanded, as in the plain language: in every
session, to the same tree or to the same fault. -/
theorem undeclared_reads_and_expands_as_plain {source : String}
    (undeclared : ∀ tokens, tokenize source = .ok tokens → Token.DeclareNoMacro tokens)
    (options : CompileOptions) (session : Session) :
    answer (Session.readProgram source session) = parse source ∧
      answer (expandSource options source session) = parse source := by
  cases scanned : tokenize source with
  | error fault =>
    have failed : Session.readProgram source session = .error fault session := by
      simp only [Session.readProgram, scanned]
      rfl
    simp only [expandSource, bind, EStateM.bind, failed, parse, scanned, Except.bind, answer,
      and_self]
  | ok tokens =>
    have same := Session.answer_readProgram scanned (undeclared tokens scanned) session
    refine ⟨same, ?_⟩
    cases run : Session.readProgram source session with
    | error fault after =>
      rw [run] at same
      simp only [expandSource, bind, EStateM.bind, run, ← same, answer]
    | ok program after =>
      rw [run] at same
      have free := Session.macroFree_readProgram scanned (undeclared tokens scanned) run
      simp only [expandSource, bind, EStateM.bind, run, ← same, compile,
        Splice.spliceProgram_of_macroFree free]
      rfl

/-- A session in which `m` is the name of a macro. -/
def sessionWithMacro : Session :=
  ({} : Session).allocScope.declareMacro 0
    { name := "m", rules := [], scopes := [0], span := .nowhere }

/-- A source in which `macro` is a name like any other, and `m` that of a function. -/
def macroAsName : String :=
  "let macro = m; macro(function macro() \x7b return macro.x; \x7d) ? macro : m();"

/-- In a session with macros, the source is read and expanded as in the plain language. -/
theorem macroAsName_reads_and_expands_as_plain :
    (∀ tokens, tokenize macroAsName = .ok tokens → Token.DeclareNoMacro tokens) ∧
      (parse macroAsName).isOk = true ∧
        answer (Session.readProgram macroAsName sessionWithMacro) = parse macroAsName ∧
          answer (expandSource {} macroAsName sessionWithMacro) = parse macroAsName := by
  have undeclared : ∀ tokens, tokenize macroAsName = .ok tokens →
      Token.DeclareNoMacro tokens := by
    have checked : (tokenize macroAsName).toOption.all
        (fun tokens => decide (Token.DeclareNoMacro tokens)) = true := by
      decide +kernel
    intro tokens scanned
    simpa [scanned, Except.toOption] using checked
  have parsed : (parse macroAsName).isOk = true := by decide +kernel
  exact ⟨undeclared, parsed, undeclared_reads_and_expands_as_plain undeclared {} sessionWithMacro⟩

end MacroScript
