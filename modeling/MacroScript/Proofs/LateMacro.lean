import MacroScript.Proofs.Blame.Registered
import MacroScript.Proofs.Isolation
import MacroScript.Proofs.Lookahead.Program

/-!
# Macros that are declared late

A unit is read to its end before any of its calls are expanded.  A macro that is declared at
the end of the unit is therefore there when the calls before it are expanded, and a name of
an argument or of a template may come to call it.  Where no argument and no template has that
name, the macro makes no difference.
-/

namespace MacroScript

open MacroScript.Grammar MacroScript.Outcome

variable {session after : Session} {name source : String} {declared : MacroStmt}
  {program expanded : Program} {options : CompileOptions} {printed : Printed}

/-! ## A session with one more macro -/

/-- The vocabulary of the tokens that do not spell a name. -/
def Vocabulary.without (name : String) : Vocabulary where
  Admits token := token.isName = true → token.text ≠ name
  Shown _ := True
  hidden := some name
  shown _ := trivial
  seen admitted isName := by
    rw [ne_eq, Option.some.injEq]
    exact (admitted isName).symm
  recolored admitted _ := admitted
  replaced admitted _ := admitted
  synthetic _ _ isName := by cases isName

/-- The macros from a number on make room for one more. -/
abbrev Renumbering.afterOne (floor : Nat) : Renumbering :=
  { macros := 1, floor }

theorem Renumbering.macroId_of_lt {r : Renumbering} {id : MacroId} (below : id < r.floor) :
    r.macroId id = id :=
  if_pos below

/-- A name that calls a macro in some scope calls a registered one. -/
theorem Session.Registered.macroIn? (registered : session.Registered) {id : ScopeId}
    {macroId : MacroId} (found : session.scopes.macroIn? id name = some macroId) :
    macroId < session.macros.size := by
  have seen : session.scopes.findMacro? [id] name = some macroId := by
    rw [ScopeStore.findMacro?_eq, List.findSome?_singleton]
    exact found
  exact registered.findMacro? seen

/-- A session in which a macro was declared is like the session before, for those who do not
speak of the macro. -/
theorem Session.alike_declareMacro (registered : session.Registered) (id : ScopeId)
    (definition : MacroDef) (within : ∀ {known found}, session.macros.get? known = some found →
      MacroDef.Within (.without definition.name) found) :
    session.Alike (.afterOne session.macros.size) (.without definition.name)
      ((session.markColor id definition.name none).declareMacro id definition) := by
  have colors : (Renumbering.afterOne session.macros.size).color = fun color => color :=
    Renumbering.color_of_still rfl
  have other {key : String} (seen : (Vocabulary.without definition.name).hidden ≠ some key) :
      definition.name ≠ key := fun same => seen (congrArg some same)
  constructor
  case based => exact Nat.zero_le _
  case size =>
    simp only [Session.declareMacro, Session.markColor, ScopeStore.size_bindMacro,
      ScopeStore.size_markColor]
    rfl
  case macroIn? =>
    intro place key seen
    have same : (Renumbering.afterOne session.macros.size).scope place = place := rfl
    simp only [Session.declareMacro, Session.markColor, ScopeStore.macroIn?_bindMacro,
      ScopeStore.macroIn?_markColor, same, other seen, false_and, and_false, if_false]
    cases found : session.scopes.macroIn? place key with
    | none => rfl
    | some known =>
      exact congrArg some (Renumbering.macroId_of_lt (registered.macroIn? found)).symm
  case colorIn? =>
    intro place key seen
    have same : (Renumbering.afterOne session.macros.size).scope place = place := rfl
    simp only [Session.declareMacro, Session.markColor, ScopeStore.colorIn?_bindMacro,
      ScopeStore.colorIn?_markColor, same, other seen, false_and, and_false, if_false, colors]
    cases session.scopes.colorIn? place key with
    | none => rfl
    | some color => cases color <;> rfl
  case settled => exact Nat.le_refl _
  case registered =>
    simp only [Session.declareMacro, Session.markColor, Registry.size_add, Renumbering.macroId]
    simp
  case definition =>
    intro known
    have kept : (Renumbering.afterOne session.macros.size).definition = fun known => known :=
      funext (Renumbering.definition_of_still rfl rfl)
    rw [kept, Option.map_id']
    simp only [Session.declareMacro, Session.markColor]
    by_cases older : known < session.macros.size
    · rw [Renumbering.macroId_of_lt older, Registry.get?_add, if_neg (Nat.ne_of_lt older)]
    · have moved : (Renumbering.afterOne session.macros.size).macroId known = known + 1 :=
        if_neg older
      have behind : session.macros.size ≤ known := Nat.le_of_not_lt older
      have unlike : known + 1 ≠ session.macros.size := Nat.ne_of_gt (Nat.lt_succ_of_le behind)
      rw [moved, Registry.get?_add, if_neg unlike,
        (Registry.get?_eq_none_iff _ _).mpr (Nat.le_succ_of_le behind),
        (Registry.get?_eq_none_iff _ _).mpr behind]
  case covered => exact within
  case lastColor => rfl

/-! ## What a unit leaves -/

/-- The declarations among places are of registered macros. -/
theorem Grammar.Walk.declared_lt {reader after : Reader} {places : List Place}
    (walk : Walk reader places after) (nonempty : reader.context.scopes ≠ []) {index : Nat}
    (mem : (index, Leaf.declaration declared) ∈ places) :
    declared.macroId < after.context.session.macros.size := by
  induction walk with
  | nil reader => cases mem
  | step step =>
    cases step with
    | @declaration cursor next context name rules forward inside templates written =>
      obtain rfl := Leaf.declaration.inj (Prod.mk.inj (List.mem_singleton.mp mem)).2
      rw [Context.declare, Session.declareMacro, Registry.size_add, Context.mark_macros]
      exact Nat.lt_succ_self _
    | _ => simp at mem
  | append one two first second =>
    have middleNonempty := (one.advances nonempty).scopes ▸ nonempty
    rcases List.mem_append.mp mem with early | late
    · exact Nat.lt_of_lt_of_le (first nonempty early)
        (two.advances middleNonempty).grows.macros_size_le
    · exact second middleNonempty late
  | enclosed inner ih =>
    rw [Reader.exit, Context.exitScope_session]
    exact ih (List.cons_ne_nil _ _) mem

/-- The names and literals of a unit were read from tokens. -/
theorem showsAll_readProgram (read : Session.readProgram source {} = .ok program session) :
    Vocabulary.all.ShowsAll (Mark.ofProgram program) := by
  have alike := Session.alike_of_unused .all {} {} rfl rfl 0 rfl
  have covered : ∀ tokens, tokenize source = .ok tokens → Vocabulary.all.Covers tokens :=
    fun _ _ _ _ => trivial
  have paired := inStep_readProgram covered {} {} alike
  rw [read] at paired
  exact paired.holds

/-- A unit knows no macro but those that it has declared. -/
theorem fixes_readProgram (read : Session.readProgram source {} = .ok program session) :
    (Renumbering.afterOne session.macros.size).Fixes (Mark.ofProgram program) := by
  have shown := showsAll_readProgram read
  obtain ⟨-, calls⟩ := Session.registered_readProgram .empty read
  obtain ⟨tokens, places, final, -, walk, seen, rfl⟩ := Session.readProgram_eq_ok read
  intro leaf marked
  have mem := Leaf.mem_ofProgram.mpr marked
  cases leaf with
  | binding name =>
    exact congrArg Leaf.binding (Renumbering.identifier_of_names rfl (shown _ marked))
  | reference name =>
    exact congrArg Leaf.reference (Renumbering.identifier_of_names rfl (shown _ marked))
  | call call =>
    have known : call.Registered final.context.session := calls call (Leaf.mem_calls.mpr mem)
    exact congrArg Leaf.call (Renumbering.call_of_still rfl rfl (Renumbering.macroId_of_lt known))
  | declaration declared =>
    rw [seen, List.mem_map] at mem
    obtain ⟨⟨index, _⟩, placeMem, rfl⟩ := mem
    have kept : (Renumbering.afterOne final.context.session.macros.size).macroId
        declared.macroId = declared.macroId :=
      Renumbering.macroId_of_lt (walk.declared_lt Session.fresh_reader.nonempty placeMem)
    rw [Renumbering.leaf, Renumbering.declared, kept]

/-! ## Compiling -/

/-- A name is written neither in an argument of a call of the program nor in a template of a
macro of the session.  The name of a member or of a property counts as well, since a rule may
capture it and put it in front of a parenthesis, also when a template hands it on. -/
def Unspoken (name : String) (program : Program) (session : Session) : Prop :=
  (∀ call ∈ Leaf.calls (Leaf.ofProgram program), ∀ token ∈ call.tokens,
    token.isName = true → token.text ≠ name) ∧
  ∀ id definition, session.macros.get? id = some definition →
    ∀ rule ∈ definition.rules, ∀ token ∈ rule.template, token.isName = true → token.text ≠ name

theorem unspoken_iff :
    Unspoken name program session ↔
      (∀ call ∈ Leaf.calls (Leaf.ofProgram program), ∀ token ∈ call.tokens,
        token.isName = true → token.text ≠ name) ∧
      ∀ definition ∈ session.macros.definitions.toList, ∀ rule ∈ definition.rules,
        ∀ token ∈ rule.template, token.isName = true → token.text ≠ name := by
  apply and_congr_right
  intro _
  constructor
  · intro silent definition mem
    rcases List.mem_iff_getElem?.mp mem with ⟨id, found⟩
    exact silent id definition (by simpa [Registry.get?] using found)
  · intro silent id definition found
    exact silent definition (Array.mem_toList_iff.mpr (Array.mem_of_getElem? found))

instance (name : String) (program : Program) (session : Session) :
    Decidable (Unspoken name program session) :=
  decidable_of_iff _ unspoken_iff.symm

/-- A macro of which nothing speaks makes no difference. -/
theorem compile_declareMacro {definition : MacroDef}
    (read : Session.readProgram source {} = .ok program session)
    (unspoken : Unspoken definition.name program session)
    (run : compile options program session = .ok expanded after) (id : ScopeId) :
    ∃ later, compile options program
      ((session.markColor id definition.name none).declareMacro id definition) =
        .ok expanded later := by
  have alike := Session.alike_declareMacro (Session.registered_readProgram .empty read).1 id
    definition (unspoken.2 _ _)
  have shown : (Vocabulary.without definition.name).ShowsAll (Mark.ofProgram program) := by
    intro mark mem
    have plainly := showsAll_readProgram read mark mem
    match mark, mem with
    | .leaf (.call call), mem =>
      rw [← Leaf.mem_ofProgram, ← Leaf.mem_calls] at mem
      exact unspoken.1 call mem
    | .leaf (.binding _), _
    | .leaf (.reference _), _ => exact plainly
    | .leaf (.declaration _), _ => trivial
    | .literal _, _ => exact plainly
    | .enter, _ => trivial
    | .exit, _ => trivial
  have paired := inStep_compile options shown _ _ alike
  rw [Renumbering.program_of_fixes _ program (fixes_readProgram read), run] at paired
  have free := (Splice.replaced_spliceProgram run).macroFree Compile.macroFree_expandWithin
  have still := Renumbering.program_of_macroFree (r := .afterOne session.macros.size) rfl free
    paired.holds
  generalize compile options program _ = result at paired
  cases paired with
  | @ok _ _ later _ _ => exact ⟨later, by rw [still]⟩

theorem Splice.spliceStmts_concat (handler : Handler) (stmts : List Stmt) (declared : MacroStmt) :
    spliceStmts handler (stmts ++ [.macroDeclaration declared]) = spliceStmts handler stmts := by
  induction stmts with
  | nil => rfl
  | cons stmt rest ih => simp only [List.cons_append, spliceStmts, ih]

/-- A declaration behind all statements is dropped. -/
theorem compile_concat (run : compile options program session = .ok expanded after)
    (declared : MacroStmt) (span : Span) :
    compile options ⟨program.body ++ [.macroDeclaration declared], span⟩ session =
      .ok ⟨expanded.body, span⟩ after := by
  rcases program with ⟨body, inner⟩
  rcases Outcome.bind_eq_ok_iff.mp run with ⟨spliced, middle, spliceRun, done⟩
  rcases Outcome.pure_eq_ok_iff.mp done with ⟨rfl, rfl⟩
  apply Outcome.bind_eq_ok_iff.mpr
  refine ⟨spliced, middle, ?_, rfl⟩
  rw [Splice.spliceStmts_concat]
  exact spliceRun

/-- The code of a program depends on its statements only. -/
theorem print_code_congr {options : PrintOptions} (run : print program options = .ok printed)
    (span : Span) (otherOptions : PrintOptions) :
    ∃ printedToo, print ⟨program.body, span⟩ otherOptions = .ok printedToo ∧
      printedToo.code = printed.code := by
  have items : Layout.programItems ⟨program.body, span⟩ = Layout.programItems program := rfl
  unfold print at run ⊢
  rw [items]
  simp only at run ⊢
  split at run
  · cases run
  · cases run
    exact ⟨_, rfl, rfl⟩

/-- A source is compiled when it can be read, expanded and printed. -/
theorem compileSource_eq_ok_iff :
    compileSource options source = .ok printed ↔
      ∃ program session expanded after, Session.readProgram source {} = .ok program session ∧
        compile options program session = .ok expanded after ∧
          generate options expanded (some source) = .ok printed := by
  unfold compileSource compileUnit expandSource
  simp only [bind, EStateM.bind]
  cases read : Session.readProgram source {} with
  | error fault after => simp
  | ok program session =>
    cases run : compile options program session with
    | error fault after => simp [run]
    | ok expanded after =>
      cases printing : generate options expanded (some source) with
      | error fault =>
        have failed : (throw fault : SessionM Printed) after = .error fault after := rfl
        simp [run, printing, failed]
      | ok result => simp [run, printing, pure, EStateM.pure]

/-! ## A declaration at the end of a source -/

/-- The second source is the first one, followed by the declaration of a macro, which is its
last statement. -/
structure DeclaresLate (source longer : String) (declared : MacroStmt) : Prop where
  goesOn : ∃ word, GoesOnWith word source longer ∧ declared.span.start = word.span.start
  last : ∃ program session, Session.readProgram longer {} = .ok program session ∧
    program.body.getLast? = some (.macroDeclaration declared)

/-- The macro that a statement declares. -/
def Stmt.declared? : Stmt → Option MacroStmt
  | .macroDeclaration declared => some declared
  | _ => none

/-- The macro by whose declaration the second source goes on behind the first. -/
def lateMacro? (source longer : String) : Option MacroStmt := do
  let tokens ← (tokenize source).toOption
  let tokensToo ← (tokenize longer).toOption
  let word ← tokensToo[tokens.dropLast.length]?
  let program ← (Outcome.answer (Session.readProgram longer {})).toOption
  let last ← program.body.getLast?
  let declared ← last.declared?
  if word.isWord "macro" ∧ tokens.dropLast <+: tokensToo ∧
      declared.span.start = word.span.start then
    return declared
  else
    none

theorem Stmt.declared?_eq_some_iff {stmt : Stmt} :
    stmt.declared? = some declared ↔ stmt = .macroDeclaration declared := by
  cases stmt <;> simp [Stmt.declared?]

theorem declaresLate_of_lateMacro? {longer : String}
    (found : lateMacro? source longer = some declared) : DeclaresLate source longer declared := by
  simp only [lateMacro?, Option.bind_eq_bind, Option.bind_eq_some_iff,
    Outcome.toOption_eq_some_iff, Outcome.answer_eq_ok_iff, Stmt.declared?_eq_some_iff,
    Option.ite_none_right_eq_some, Option.pure_def, Option.some.injEq] at found
  rcases found with ⟨tokens, scanned, tokensToo, scannedToo, word, wordAt, program,
    ⟨session, read⟩, last, lastIs, other, rfl, ⟨isMacro, ⟨rest, rfl⟩, begins⟩, rfl⟩
  rcases exists_finish_tokenize scanned with ⟨words, finish, rfl, -, -⟩
  rw [List.dropLast_concat] at wordAt scannedToo
  rw [List.getElem?_append_right (Nat.le_refl _), Nat.sub_self] at wordAt
  cases rest with
  | nil => cases wordAt
  | cons _ rest =>
    cases wordAt
    exact ⟨⟨word, ⟨isMacro, words, finish, rest, scanned, scannedToo⟩, begins⟩,
      program, session, read, lastIs⟩

/-- A macro that is declared at the end of a source makes no difference to the code, if no
argument of a call and no template has its name. -/
theorem compileSource_declaresLate {options : CompileOptions} {source longer : String}
    {declared : MacroStmt} {program : Program} {session : Session} {printed : Printed}
    (late : DeclaresLate source longer declared)
    (read : Session.readProgram source {} = .ok program session)
    (unspoken : Unspoken declared.name.name program session)
    (compiled : compileSource options source = .ok printed) :
    ∃ printedToo, compileSource options longer = .ok printedToo ∧
      printedToo.code = printed.code := by
  rcases late with ⟨⟨word, goesOn, begins⟩, programToo, sessionToo, readToo, last⟩
  rcases List.getLast?_eq_some_iff.mp last with ⟨front, ends⟩
  rcases Session.readProgram_longer goesOn read readToo ends begins with
    ⟨rfl, definition, name, rfl⟩
  rcases programToo with ⟨_, span⟩
  obtain rfl := ends
  rcases compileSource_eq_ok_iff.mp compiled with
    ⟨program, session, expanded, after, readAgain, run, printing⟩
  cases read.symm.trans readAgain
  rw [← name] at unspoken
  rcases compile_declareMacro read unspoken run ({} : Session).scopes.size with ⟨later, runToo⟩
  rcases print_code_congr printing span _ with ⟨printedToo, printingToo, code⟩
  refine ⟨printedToo, compileSource_eq_ok_iff.mpr ?_, code⟩
  exact ⟨_, _, _, later, readToo, compile_concat runToo declared span, printingToo⟩

/-- A source with the declaration of `m` behind it. -/
def withLateMacro (source : String) : String :=
  source ++ "\nmacro m \x7b ($a:literal) => \x7b 2 \x7d \x7d"

/-- `m` is called before it is declared, but not in the argument of another macro. -/
def calledEarly : String :=
  "macro id \x7b ($e:expr) => \x7b $e \x7d \x7d m(id(n(1)));"

/-- `m` is called in the argument of another macro. -/
def capturedEarly : String :=
  "macro id \x7b ($e:expr) => \x7b $e \x7d \x7d id(m(1));"

/-- The early call stays what it is: `m` makes no difference. -/
theorem calledEarly_declaresLate :
    ∃ declared program session printed printedToo,
      DeclaresLate calledEarly (withLateMacro calledEarly) declared ∧
        Session.readProgram calledEarly {} = .ok program session ∧
          Unspoken declared.name.name program session ∧
            compileSource {} calledEarly = .ok printed ∧
              compileSource {} (withLateMacro calledEarly) = .ok printedToo ∧
                printedToo.code = printed.code := by
  have found : (lateMacro? calledEarly (withLateMacro calledEarly)).any
      (·.name.name == "m") = true := by
    decide +kernel
  have silent : endsWith (fun program session => decide (Unspoken "m" program session))
      (Session.readProgram calledEarly {}) = true := by
    decide +kernel
  have compiles : (compileSource {} calledEarly).toOption.isSome = true := by decide +kernel
  rcases (Option.any_eq_true _ _).mp found with ⟨declared, foundIs, named⟩
  have late := declaresLate_of_lateMacro? foundIs
  rcases exists_ok_of_endsWith silent with ⟨program, session, read, unspoken⟩
  rcases Option.isSome_iff_exists.mp compiles with ⟨printed, compiledIs⟩
  have compiled := Outcome.toOption_eq_some_iff.mp compiledIs
  rw [decide_eq_true_iff, ← eq_of_beq named] at unspoken
  rcases compileSource_declaresLate late read unspoken compiled with
    ⟨printedToo, compiledToo, code⟩
  exact ⟨declared, program, session, printed, printedToo, late, read, unspoken, compiled,
    compiledToo, code⟩

/-- The argument of an early call is read again once `m` is declared, and becomes a call of it. -/
theorem capturedEarly_declaresLate :
    ∃ declared printed printedToo,
      DeclaresLate capturedEarly (withLateMacro capturedEarly) declared ∧
        compileSource {} capturedEarly = .ok printed ∧
          compileSource {} (withLateMacro capturedEarly) = .ok printedToo ∧
            printed.code = "m(1);\n" ∧ printedToo.code = "2;\n" := by
  have found : (lateMacro? capturedEarly (withLateMacro capturedEarly)).isSome = true := by
    decide +kernel
  have before : (compileSource {} capturedEarly).toOption.any (·.code == "m(1);\n") = true := by
    decide +kernel
  have behind : (compileSource {} (withLateMacro capturedEarly)).toOption.any
      (·.code == "2;\n") = true := by
    decide +kernel
  rcases Option.isSome_iff_exists.mp found with ⟨declared, foundIs⟩
  rcases (Option.any_eq_true _ _).mp before with ⟨printed, compiled, code⟩
  rcases (Option.any_eq_true _ _).mp behind with ⟨printedToo, compiledToo, codeToo⟩
  exact ⟨declared, printed, printedToo, declaresLate_of_lateMacro? foundIs,
    Outcome.toOption_eq_some_iff.mp compiled, Outcome.toOption_eq_some_iff.mp compiledToo,
    eq_of_beq code, eq_of_beq codeToo⟩

-- A member and a property in arguments, and a member in a template, all become calls of `m`.
example : ∀ source ∈
    ["macro k \x7b (a.$x:ident) => \x7b $x(1) \x7d \x7d k(a.m);",
      "macro k \x7b (\x7b $x:ident: 1 \x7d) => \x7b $x(1) \x7d \x7d k(\x7b m: 1 \x7d);",
      "macro k \x7b (a.$x:ident) => \x7b $x(1) \x7d \x7d " ++
        "macro t \x7b () => \x7b k(a.m) \x7d \x7d t();"],
    (compileSource {} source).toOption.map Printed.code = some "m(1);\n" ∧
      (compileSource {} (withLateMacro source)).toOption.map Printed.code = some "2;\n" := by
  decide +kernel

end MacroScript
