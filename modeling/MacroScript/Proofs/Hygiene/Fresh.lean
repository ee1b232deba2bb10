import MacroScript.Proofs.Hygiene.Provenance
import MacroScript.Proofs.Hygiene.Written

/-!
# Renamed names

A renamed name should not be the spelling of a name that was not renamed.  Colors count
expansions, and nothing looks at the names of the source when one is given out, so a name
of the source can be spelled as a renamed one.

This is the only way in which the two can meet: every renamed name of a result is made
from a name that the body of some expansion binds and from the color of that expansion.
-/

namespace MacroScript

open MacroScript.Grammar MacroScript.Outcome

variable {history : List Performed} {source : String} {start session : Session} {program : Program}

/-- The names of a program that bind or refer to bindings. -/
def Program.names (program : Program) : List Identifier :=
  (Leaf.ofProgram program).filterMap Leaf.name?

/-- No renamed name is spelled as one that was not renamed. -/
def Program.RenamedFresh (program : Program) : Prop :=
  ∀ renamed ∈ program.names, ∀ kept ∈ program.names,
    renamed.sourceName.isSome = true → kept.sourceName = none → renamed.name ≠ kept.name

instance (program : Program) : Decidable program.RenamedFresh :=
  inferInstanceAs (Decidable (∀ renamed ∈ program.names, ∀ kept ∈ program.names,
    renamed.sourceName.isSome = true → kept.sourceName = none → renamed.name ≠ kept.name))

/-! ## The region of a unit -/

/-- The scopes and macros of a unit that begins in the session, and the names to which the
expansions give their colors. -/
def Session.region (start : Session) (history : List Performed) : Region where
  scope := start.scopes.size
  macroId := start.macros.size
  colors name color := ∃ performed ∈ history, performed.Renames name color

theorem Session.region_extends (start : Session) {longer : List Performed}
    (subset : history ⊆ longer) : (start.region history).Extends (start.region longer) where
  scope := rfl
  macroId := rfl
  colors allowed := by
    rcases allowed with ⟨performed, mem, renames⟩
    exact ⟨performed, subset mem, renames⟩

/-- Nothing of a session belongs to a unit that has not begun. -/
theorem Session.confined_region (start : Session) : start.Confined (start.region []) where
  scopes_le := Nat.le_refl _
  macros_le := Nat.le_refl _
  marks inside found := absurd (ScopeStore.lt_of_get?_eq_some found) (Nat.not_lt_of_le inside)
  targets inside found := absurd (ScopeStore.lt_of_get?_eq_some found) (Nat.not_lt_of_le inside)
  declared inside found :=
    absurd (Array.getElem?_eq_some_iff.mp found).1 (Nat.not_lt_of_le inside)

/-- What is read from a source belongs to its unit. -/
theorem Session.confined_readProgram (read : readProgram source start = .ok program session) :
    session.Confined (start.region []) ∧
      ∀ leaf ∈ Leaf.ofProgram program, leaf.Confined (start.region []) := by
  rcases readProgram_eq_ok read with ⟨tokens, places, final, scanned, walk, seen, rfl⟩
  have reads : (start.reader tokens [] none).Confined (start.region []) := by
    apply Session.confined_reader start.confined_region
    · intro token mem
      rw [(scanned_tokenize scanned).plain token mem]
      exact Region.allows_none _ _
    · simp
    · simp
  have plain : final.context.hygiene = none :=
    (walk.advances Session.fresh_reader.nonempty).claims.of_none.1
  rcases walk.confined Session.ready_reader Session.fresh_reader.nonempty reads
    (owned_of_plain plain) with ⟨confined, leaves⟩
  constructor
  · exact confined.session
  · intro leaf mem
    rw [seen, List.mem_map] at mem
    rcases mem with ⟨place, placeMem, rfl⟩
    exact leaves place placeMem

/-- Whatever a run has reached or produced belongs to the unit. -/
theorem Run.confined {reached : Session} {waiting : List Invocation}
    (read : Session.readProgram source start = .ok program session)
    (run : Run (Leaf.calls (Leaf.ofProgram program)) session history waiting reached) :
    reached.Confined (start.region history) ∧
      (∀ call ∈ waiting, call.Confined (start.region history)) ∧
        ∀ performed ∈ history, ∀ leaf ∈ Leaf.ofProgram performed.program,
          leaf.Confined (start.region history) := by
  induction run with
  | start =>
    rcases Session.confined_readProgram read with ⟨confined, leaves⟩
    refine ⟨confined, ?_, by simp⟩
    intro call mem
    exact leaves (.call call) (Leaf.mem_calls.mp mem)
  | retrace run trace ih =>
    rcases ih with ⟨confined, others⟩
    exact ⟨⟨confined.scopes_le, confined.macros_le, confined.marks, confined.targets,
      confined.declared⟩, others⟩
  | @expand history performed rest run ih =>
    rcases ih with ⟨before, waitingConfined, produced⟩
    rcases List.forall_mem_cons.mp waitingConfined with ⟨callConfined, restConfined⟩
    have wider := start.region_extends (List.subset_append_left history [performed])
    have own : ∀ {name color}, performed.Renames name color →
        (start.region (history ++ [performed])).colors name color := by
      intro name color renames
      exact ⟨performed, by simp, renames⟩
    rcases performed.confined (before.extends wider) (callConfined.extends wider) own with
      ⟨after, new⟩
    refine ⟨after, ?_, ?_⟩
    · intro call mem
      rcases List.mem_append.mp mem with inNew | old
      · exact new (.call call) (Leaf.mem_calls.mp inNew)
      · exact (restConfined call old).extends wider
    · intro other otherMem leaf leafMem
      rcases List.mem_append.mp otherMem with old | last
      · exact (produced other old leaf leafMem).extends wider
      · rw [List.mem_singleton.mp last] at leafMem
        exact new leaf leafMem

/-! ## Renamed names -/

/-- A name that the body binds has the color of the expansion in the result. -/
theorem Performed.exists_renamed {performed : Performed} (sound : performed.before.Sound)
    {name : String} {color : Color} (renames : performed.Renames name color) :
    ∃ identifier, Leaf.binding identifier ∈ Leaf.ofProgram performed.program ∧
      identifier.name = name ++ "_" ++ toString color ∧
        identifier.sourceName.isSome = true := by
  rcases renames with ⟨own, index, identifier, mem, body, rfl⟩
  refine ⟨identifier, ?_, ?_⟩
  · rw [performed.leaves]
    exact List.mem_map_of_mem mem
  · rw [binding_of_body sound mem body own]
    exact ⟨rfl, rfl⟩

theorem Program.mem_names {identifier : Identifier} :
    identifier ∈ program.names ↔
      Leaf.binding identifier ∈ Leaf.ofProgram program ∨
        Leaf.reference identifier ∈ Leaf.ofProgram program := by
  unfold names
  rw [List.mem_filterMap]
  constructor
  · rintro ⟨leaf, mem, named⟩
    cases leaf with
    | binding other => exact .inl (Option.some.inj named ▸ mem)
    | reference other => exact .inr (Option.some.inj named ▸ mem)
    | call invocation
    | declaration declared => cases named
  · rintro (bound | referred)
    · exact ⟨_, bound, rfl⟩
    · exact ⟨_, referred, rfl⟩

/-- Renamed names are fresh exactly if no name that was not renamed is spelled as a name that the
body of an expansion binds, followed by the color of that expansion. -/
theorem expandSource_renamedFresh_iff {options : CompileOptions} {source : String}
    {start after : Session} {expanded : Program} (sound : start.Sound)
    (run : expandSource options source start = .ok expanded after) :
    ∃ program session history,
      Session.readProgram source start = .ok program session ∧
        Run (Leaf.calls (Leaf.ofProgram program)) session history [] after ∧
          (expanded.RenamedFresh ↔
            ∀ performed ∈ history, ∀ name color, performed.Renames name color →
              ∀ kept ∈ expanded.names, kept.sourceName = none →
                kept.name ≠ name ++ "_" ++ toString color) := by
  rw [expandSource, bind_eq_ok_iff] at run
  rcases run with ⟨program, session, read, compiled⟩
  rcases Run.of_compile_iff compiled with ⟨history, reached, origins⟩
  refine ⟨program, session, history, read, reached, ?_⟩
  constructor
  · intro fresh performed mem name color renames kept keptMem plain same
    rcases List.append_of_mem mem with ⟨earlier, later, rfl⟩
    rcases reached.reached rfl with ⟨rest, before⟩
    rcases Session.sound_readProgram sound read with ⟨sessionSound, callsSound⟩
    rcases Performed.exists_renamed (before.sound sessionSound callsSound).1 renames with
      ⟨identifier, bound, name_eq, renamed⟩
    have inResult : Leaf.binding identifier ∈ Leaf.ofProgram expanded :=
      (origins _).mpr ⟨rfl, .inr ⟨performed, mem, bound⟩⟩
    exact fresh identifier (Program.mem_names.mpr (.inl inResult)) kept keptMem renamed plain
      (name_eq.trans same.symm)
  · intro unspelled renamed renamedMem kept keptMem isRenamed plain same
    rcases reached.confined read with ⟨-, -, produced⟩
    have wider := start.region_extends (List.nil_subset history)
    have confined : ∀ leaf ∈ Leaf.ofProgram expanded, leaf.Confined (start.region history) := by
      intro leaf mem
      rcases ((origins leaf).mp mem).2 with own | ⟨performed, performedMem, leafMem⟩
      · exact ((Session.confined_readProgram read).2 leaf own).extends wider
      · exact produced performed performedMem leaf leafMem
    have stems : renamed.Confined (start.region history) := by
      rcases Program.mem_names.mp renamedMem with bound | referred
      · exact confined _ bound
      · exact confined _ referred
    rcases Option.isSome_iff_exists.mp isRenamed with ⟨name, sourceName⟩
    rcases stems name sourceName with ⟨color, name_eq, performed, performedMem, renames⟩
    exact unspelled performed performedMem name color renames kept keptMem plain
      (same.symm.trans name_eq)

/-! ## A name of the source beside a renamed one -/

/-- A macro that binds `t` is called once, before the given name is bound. -/
def besideRenamed (name : String) : String :=
  "macro m \x7b () => \x7b let t; \x7d \x7d m(); let " ++ name ++ ";"

/-- The only expansion has the first color, so a name with the second one is not taken. -/
theorem besideRenamed_second :
    ∃ expanded after, expandSource {} (besideRenamed "t_2") {} = .ok expanded after ∧
      expanded.names.map Identifier.name = ["t_1", "t_2"] ∧
        ∃ program session history,
          Session.readProgram (besideRenamed "t_2") {} = .ok program session ∧
            Run (Leaf.calls (Leaf.ofProgram program)) session history [] after ∧
              expanded.RenamedFresh ∧
                ∀ performed ∈ history, ∀ name color, performed.Renames name color →
                  ∀ kept ∈ expanded.names, kept.sourceName = none →
                    kept.name ≠ name ++ "_" ++ toString color := by
  have passed : yields (fun expanded => expanded.names.map Identifier.name == ["t_1", "t_2"] &&
      decide expanded.RenamedFresh) (expandSource {} (besideRenamed "t_2") {}) = true := by
    decide +kernel
  rcases exists_ok_of_yields passed with ⟨expanded, after, run, holds⟩
  simp only [Bool.and_eq_true, decide_eq_true_eq, beq_iff_eq] at holds
  rcases expandSource_renamedFresh_iff .empty run with
    ⟨program, session, history, read, reached, fresh⟩
  exact ⟨expanded, after, run, holds.1, program, session, history, read, reached, holds.2,
    fresh.mp holds.2⟩

/-- A name of the source that has the first color is spelled as the renamed one. -/
theorem besideRenamed_first :
    ∃ expanded after, expandSource {} (besideRenamed "t_1") {} = .ok expanded after ∧
      expanded.names.map Identifier.name = ["t_1", "t_1"] ∧
        expanded.names.map Identifier.sourceName = [some "t", none] ∧
          ¬ expanded.RenamedFresh := by
  have passed : yields (fun expanded => expanded.names.map Identifier.name == ["t_1", "t_1"] &&
      expanded.names.map Identifier.sourceName == [some "t", none] &&
        !decide expanded.RenamedFresh) (expandSource {} (besideRenamed "t_1") {}) = true := by
    decide +kernel
  rcases exists_ok_of_yields passed with ⟨expanded, after, run, holds⟩
  simp only [Bool.and_eq_true, Bool.not_eq_true', decide_eq_false_iff_not, beq_iff_eq] at holds
  exact ⟨expanded, after, run, holds.1.1, holds.1.2, holds.2⟩

end MacroScript
