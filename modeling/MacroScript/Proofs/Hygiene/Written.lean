import MacroScript.Proofs.Hygiene.Overwriting
import MacroScript.Proofs.Hygiene.Run

/-!
# Bindings written in macros

A binding that a macro has written should be renamed.  It is when the body binds the name
itself.  A name of the body may also be handed to a call, and be bound by the expansion of
that call or of one further on.  Its color is fixed when it is handed over, so it is
renamed only if the scopes of the declaration showed a color for it by then.

These are all the ways that a name can take from a macro declaration to a binding: what
waits to be expanded was handed over by some body, or was not written in a macro.
-/

namespace MacroScript

open MacroScript.Grammar MacroScript.Outcome

variable {history : List Performed} {token : Token} {performed : Performed} {program : Program}
  {index : Nat} {source : String} {start session : Session}

namespace Performed

variable {identifier : Identifier}

/-- The body hands a token to a call. -/
def HandsOver (performed : Performed) (token : Token) : Prop :=
  ∃ index call offset, (index, Leaf.call call) ∈ performed.places ∧
    call.tokens[offset]? = some token ∧
      performed.origin? (index + 2 + offset) = some .body

/-- A token that was captured is handed on as it is. -/
theorem eq_of_captured
    (inside : ∀ id ∈ performed.definition.scopes, id < performed.before.scopes.size) {offset : Nat}
    {call : Invocation} {token : Token} (mem : (index, Leaf.call call) ∈ performed.places)
    (found : call.tokens[offset]? = some token) (isName : token.isName = true)
    (invocation : performed.origin? (index + 2 + offset) = some .invocation) :
    token = performed.tokens (index + 2 + offset) := by
  cases performed.madeOf _ mem with
  | call arguments =>
    obtain ⟨made, kept, -⟩ := arguments offset token found
    by_cases ordinary : token.captureName? = none
    · have uses : Uses performed.tokens (index, .call call) (index + 2 + offset) token.color := by
        refine .argument ?_ ?_ (found.trans (congrArg some made))
        · rw [made] at isName
          exact isName
        · rw [made] at ordinary
          exact ordinary
      rcases performed.resolves inside mem uses with ⟨body, -⟩ | ⟨-, carried⟩
      · cases invocation.symm.trans body
      · rw [made, carried]
    · exact kept ordinary

/-- A name that the body binds itself has the color of the expansion. -/
theorem binding_of_body (sound : performed.before.Sound) {own : Color}
    (mem : (index, Leaf.binding identifier) ∈ performed.places)
    (body : performed.origin? index = some .body) (own_eq : performed.color = some own) :
    identifier = (performed.tokens index).identifier.applyColor own := by
  have inside := scopes_inside sound
  obtain ⟨scope, outer, stack⟩ :=
    List.exists_cons_of_ne_nil (sound.scopes performed.known).nonempty
  obtain ⟨-, -, color, rfl⟩ := (performed.madeOf _ mem).of_binding
  -- Nothing has overwritten the binding where it is read.
  have kept : ¬performed.Overwrites (performed.tokens index).text index := by
    rintro ⟨last, last_le, -, maximal, invocation, -⟩
    have le_last := maximal index (Nat.le_refl _) ⟨⟨_, mem⟩, rfl⟩
    rw [Nat.le_antisymm last_le le_last] at invocation
    cases body.symm.trans invocation
  have shown := (performed.findColor?_eq_color_iff inside stack mem body (Nat.le_refl _)).mpr kept
  rcases performed.resolves inside mem (.binding index color) with ⟨-, found⟩ | ⟨invocation, -⟩
  · have color_eq : color = some own := found.trans (shown.trans own_eq)
    rw [color_eq]
    rfl
  · cases body.symm.trans invocation

/-- A name that the body binds itself is renamed. -/
theorem sourceName_of_body (sound : performed.before.Sound)
    (mem : (index, Leaf.binding identifier) ∈ performed.places)
    (body : performed.origin? index = some .body) : identifier.sourceName.isSome = true := by
  obtain ⟨own, own_eq⟩ := performed.exists_color mem body
  rw [binding_of_body sound mem body own_eq]
  rfl

end Performed

/-- One of the expansions has handed the name over, with its color. -/
def HandedOver (history : List Performed) (token : Token) : Prop :=
  ∃ performed ∈ history, ∃ handed, performed.HandsOver handed ∧
    handed.identifier = token.identifier ∧ handed.color = token.color

theorem HandedOver.mono {longer : List Performed} (subset : history ⊆ longer)
    (handedOver : HandedOver history token) : HandedOver longer token := by
  obtain ⟨performed, mem, handed⟩ := handedOver
  exact ⟨performed, subset mem, handed⟩

theorem HandedOver.congr {other : Token} (identifier : token.identifier = other.identifier)
    (color : token.color = other.color) (handedOver : HandedOver history token) :
    HandedOver history other := by
  obtain ⟨performed, mem, handed, hands, identifier_eq, color_eq⟩ := handedOver
  exact ⟨performed, mem, handed, hands, identifier_eq.trans identifier, color_eq.trans color⟩

/-- A captured name has the spelling, the place and the color it had among the arguments. -/
theorem Performed.handedOver_of_captured
    (waiting : ∀ token ∈ performed.call.tokens, token.isName = true →
      WrittenInMacro program token.span → HandedOver history token)
    (read : index < performed.final.cursor.index) (isName : (performed.tokens index).isName = true)
    (invocation : performed.origin? index = some .invocation)
    (written : WrittenInMacro program (performed.tokens index).span) :
    HandedOver history (performed.tokens index) := by
  obtain ⟨token, newline, fromCall, token_eq⟩ := performed.captured_of_invocation read invocation
  rw [token_eq] at isName written ⊢
  rcases fromCall with captured | ⟨text, place, -, rfl⟩
  · exact (waiting token captured isName written).congr rfl rfl
  · cases isName

/-- A name that waits among arguments was handed over, if it was written in a macro. -/
theorem Run.handedOver {reached : Session} {waiting : List Invocation} (sound : start.Sound)
    (read : Session.readProgram source start = .ok program session)
    (run : Run (Leaf.calls (Leaf.ofProgram program)) session history waiting reached) :
    ∀ call ∈ waiting, ∀ token ∈ call.tokens, token.isName = true →
      WrittenInMacro program token.span → HandedOver history token := by
  obtain ⟨sessionSound, callsSound⟩ := Session.sound_readProgram sound read
  induction run with
  | start =>
    intro call mem token tokenMem isName written
    exact absurd written
      (Session.not_written_of_argument read (Leaf.mem_calls.mp mem) tokenMem isName)
  | retrace run trace ih => exact ih
  | @expand history performed rest run ih =>
    obtain ⟨callWaits, restWaits⟩ := List.forall_mem_cons.mp ih
    have inside := Performed.scopes_inside (run.sound sessionSound callsSound).1
    intro call mem token tokenMem isName written
    rcases List.mem_append.mp mem with new | old
    · rw [Leaf.mem_calls, performed.leaves, List.mem_map] at new
      obtain ⟨⟨index, leaf⟩, place, rfl⟩ := new
      obtain ⟨offset, found⟩ := List.mem_iff_getElem?.mp tokenMem
      have read : index + 2 + offset < performed.final.cursor.index := by
        cases performed.madeOf _ place with
        | call arguments => exact (arguments offset token found).2.2
      obtain ⟨origin, origin_eq, -⟩ := performed.placed_of_lt read
      cases origin with
      | body =>
        exact ⟨performed, by simp, token, ⟨index, call, offset, place, found, origin_eq⟩,
          rfl, rfl⟩
      | invocation =>
        have same := Performed.eq_of_captured inside place found isName origin_eq
        rw [same] at isName written ⊢
        exact (Performed.handedOver_of_captured callWaits read isName origin_eq written).mono
          (List.subset_append_left _ _)
    · exact (restWaits call old token tokenMem isName written).mono
        (List.subset_append_left _ _)

/-- A binding of an expansion that was written in a macro is renamed, or its name was handed over
without a color. -/
theorem Run.renamed_or_handedOver {earlier : List Performed} {rest : List Invocation}
    (sound : start.Sound) (read : Session.readProgram source start = .ok program session)
    (run : Run (Leaf.calls (Leaf.ofProgram program)) session earlier (performed.call :: rest)
      performed.before) {identifier : Identifier}
    (mem : (index, Leaf.binding identifier) ∈ performed.places)
    (written : WrittenInMacro program identifier.span) :
    identifier.sourceName.isSome = true ∨
      ∃ other ∈ earlier, ∃ token, other.HandsOver token ∧ token.color = none ∧
        token.identifier = identifier := by
  obtain ⟨sessionSound, callsSound⟩ := Session.sound_readProgram sound read
  have beforeSound := (run.sound sessionSound callsSound).1
  have inside := Performed.scopes_inside beforeSound
  rcases Performed.origin_of_binding inside mem with body | invocation
  · exact .inl (Performed.sourceName_of_body beforeSound mem body)
  · obtain ⟨bindingRead, isName, color, rfl⟩ := (performed.madeOf _ mem).of_binding
    rcases performed.resolves inside mem (.binding index color) with ⟨body, -⟩ | ⟨-, carried⟩
    · cases body.symm.trans invocation
    · cases color with
      | some color => exact .inl rfl
      | none =>
        have waiting := run.handedOver sound read performed.call List.mem_cons_self
        obtain ⟨other, otherMem, token, hands, identifier_eq, color_eq⟩ :=
          Performed.handedOver_of_captured waiting bindingRead isName invocation written
        exact .inr
          ⟨other, otherMem, token, hands, color_eq.trans carried.symm, identifier_eq⟩

/-- The bindings that macros have written are renamed exactly if no name that a body hands over
without a color becomes a binding. -/
theorem expandSource_renames_written_bindings_iff {options : CompileOptions} {source : String}
    {start after : Session} {expanded : Program} (sound : start.Sound)
    (run : expandSource options source start = .ok expanded after) :
    ∃ program session history,
      Session.readProgram source start = .ok program session ∧
        Run (Leaf.calls (Leaf.ofProgram program)) session history [] after ∧
          ((∀ identifier, Leaf.binding identifier ∈ Leaf.ofProgram expanded →
              WrittenInMacro program identifier.span → identifier.sourceName.isSome = true) ↔
            ∀ performed ∈ history, ∀ token, performed.HandsOver token → token.color = none →
              WrittenInMacro program token.span →
                Leaf.binding token.identifier ∉ Leaf.ofProgram expanded) := by
  simp only [expandSource, bind_eq_ok_iff] at run
  obtain ⟨program, session, read, compiled⟩ := run
  obtain ⟨history, compileRun, origins⟩ := Run.of_compile compiled
  refine ⟨program, session, history, read, compileRun, ?_⟩
  constructor
  · intro renamed performed _ token _ _ written bound
    cases renamed token.identifier bound written
  · intro never identifier bound written
    rcases origins _ bound with ordinary | ⟨performed, performedMem, leafMem⟩
    · exact absurd written (Session.not_written_of_binding read ordinary)
    · obtain ⟨earlier, later, rfl⟩ := List.append_of_mem performedMem
      obtain ⟨rest, reached⟩ := compileRun.reached rfl
      rw [performed.leaves, List.mem_map] at leafMem
      obtain ⟨⟨index, leaf⟩, place, rfl⟩ := leafMem
      rcases reached.renamed_or_handedOver sound read place written with
        renamed | ⟨other, otherMem, token, hands, uncolored, rfl⟩
      · exact renamed
      · have otherHistory := List.mem_append_left (performed :: later) otherMem
        exact absurd bound (never other otherHistory token hands uncolored written)

/-! ## A name that is handed over -/

/-- A macro that binds its argument, and one with the given body that is called. -/
def handingOver (body : String) : String :=
  "macro d \x7b ($x:ident) => \x7b let $x; \x7d \x7d macro m \x7b () => \x7b " ++ body ++
    " \x7d \x7d m();"

/-- A name that is bound before it is handed over is renamed in both places. -/
theorem handingOver_boundBefore :
    ∃ expanded after, expandSource {} (handingOver "let t; d(t);") {} = .ok expanded after ∧
      Leaf.ofProgram expanded =
          [.binding { name := "t_1", span := ⟨60, 61, 1, 60⟩, sourceName := some "t" },
            .binding { name := "t_1", span := ⟨65, 66, 1, 65⟩, sourceName := some "t" }] ∧
        ∃ program session history,
          Session.readProgram (handingOver "let t; d(t);") {} = .ok program session ∧
            Run (Leaf.calls (Leaf.ofProgram program)) session history [] after ∧
              WrittenInMacro program ⟨65, 66, 1, 65⟩ ∧
                ∀ performed ∈ history, ∀ token, performed.HandsOver token →
                  token.color = none → WrittenInMacro program token.span →
                    Leaf.binding token.identifier ∉ Leaf.ofProgram expanded := by
  have passed : endsWith (fun program session => yields (fun expanded =>
      decide (.declaration
          { name := { name := "m", span := ⟨44, 45, 1, 44⟩ }, macroId := 1,
            span := ⟨38, 72, 1, 38⟩ } ∈ Leaf.ofProgram program) &&
        Leaf.ofProgram expanded ==
          [.binding { name := "t_1", span := ⟨60, 61, 1, 60⟩, sourceName := some "t" },
            .binding { name := "t_1", span := ⟨65, 66, 1, 65⟩, sourceName := some "t" }])
      (compile {} program session)) (Session.readProgram (handingOver "let t; d(t);") {}) =
      true := by
    decide +kernel
  obtain ⟨program, session, readRun, inner⟩ := exists_ok_of_endsWith passed
  obtain ⟨expanded, after, compileRun, holds⟩ := exists_ok_of_yields inner
  have run : expandSource {} (handingOver "let t; d(t);") {} = .ok expanded after :=
    bind_eq_ok_iff.mpr ⟨program, session, readRun, compileRun⟩
  simp only [Bool.and_eq_true, decide_eq_true_eq, beq_iff_eq] at holds
  obtain ⟨declared, leaves⟩ := holds
  obtain ⟨program', session', history, readRun', reached, renamed⟩ :=
    expandSource_renames_written_bindings_iff .empty run
  obtain ⟨rfl, rfl⟩ : program' = program ∧ session' = session :=
    EStateM.Result.ok.inj (readRun'.symm.trans readRun)
  refine ⟨expanded, after, run, leaves, program', session', history, readRun, reached,
    ⟨_, declared, by decide⟩, renamed.mp ?_⟩
  intro identifier mem _
  rw [leaves] at mem
  simp only [List.mem_cons, Leaf.binding.injEq, List.not_mem_nil, or_false] at mem
  rcases mem with rfl | rfl <;> rfl

/-- A name that is handed over before it is bound keeps its spelling. -/
theorem handingOver_unbound :
    ∃ program session expanded after,
      Session.readProgram (handingOver "d(t);") {} = .ok program session ∧
        expandSource {} (handingOver "d(t);") {} = .ok expanded after ∧
          WrittenInMacro program ⟨58, 59, 1, 58⟩ ∧
            Leaf.ofProgram expanded = [.binding { name := "t", span := ⟨58, 59, 1, 58⟩ }] := by
  have passed : endsWith (fun program session => yields (fun expanded =>
      decide (.declaration
          { name := { name := "m", span := ⟨44, 45, 1, 44⟩ }, macroId := 1,
            span := ⟨38, 65, 1, 38⟩ } ∈ Leaf.ofProgram program) &&
        Leaf.ofProgram expanded == [.binding { name := "t", span := ⟨58, 59, 1, 58⟩ }])
      (compile {} program session)) (Session.readProgram (handingOver "d(t);") {}) = true := by
    decide +kernel
  obtain ⟨program, session, readRun, inner⟩ := exists_ok_of_endsWith passed
  obtain ⟨expanded, after, compileRun, holds⟩ := exists_ok_of_yields inner
  have run : expandSource {} (handingOver "d(t);") {} = .ok expanded after :=
    bind_eq_ok_iff.mpr ⟨program, session, readRun, compileRun⟩
  simp only [Bool.and_eq_true, decide_eq_true_eq, beq_iff_eq] at holds
  exact ⟨program, session, expanded, after, readRun, run, ⟨_, holds.1, by decide⟩, holds.2⟩

end MacroScript
