import MacroScript.Proofs.Hygiene.Fresh
import MacroScript.Proofs.Lossless
import MacroScript.Proofs.Tandem.Compile

/-!
# Names and literals quote the source

A span is a claim about the source: the text of a token stands at its span.  Expanding
macros copies tokens, captures them, puts parentheses around them and colors them, and
reads them again.  None of this changes the text of a token or its span, and the tree keeps
both.  So every literal of an expanded unit, and every name as it was spelled before it was
renamed, is still found in the source where its span says.
-/

namespace MacroScript

open MacroScript.Outcome

variable {program : Program}

/-! ## Tokens of a source -/

/-- The vocabulary of tokens that stand in a source where their spans say.  Only punctuators
may stand elsewhere, as the parentheses around captured expressions do. -/
def Vocabulary.ofSource (source : String) : Vocabulary where
  Admits token := token.kind ≠ .punct → token.text = token.span.textIn source
  Shown token := token.kind ≠ .punct → token.text = token.span.textIn source
  hidden := none
  shown := id
  seen _ _ := by simp
  recolored admitted _ := admitted
  replaced admitted _ := admitted
  synthetic _ _ written := absurd rfl written

theorem covers_tokenize {source : String} {tokens : List Token}
    (run : tokenize source = .ok tokens) : (Vocabulary.ofSource source).Covers tokens :=
  fun _ mem _ => text_of_tokenize run mem

/-! ## Expanded units -/

/-- The literals of a program. -/
def Program.literals (program : Program) : List Literal :=
  (Mark.ofProgram program).filterMap fun
    | .literal literal => some literal
    | _ => none

theorem Program.mem_literals {literal : Literal} (mem : literal ∈ program.literals) :
    .literal literal ∈ Mark.ofProgram program := by
  obtain ⟨mark, markMem, found⟩ := List.mem_filterMap.mp mem
  cases mark with
  | literal other => exact Option.some.inj found ▸ markMem
  | enter
  | exit
  | leaf leaf => cases found

theorem Vocabulary.ShowsAll.names {v : Vocabulary} (shown : v.ShowsAll (Mark.ofProgram program))
    {name : Identifier} (mem : name ∈ program.names) : v.Names name := by
  obtain ⟨leaf, leafMem, found⟩ := List.mem_filterMap.mp mem
  rw [Leaf.mem_ofProgram] at leafMem
  cases leaf with
  | binding other
  | reference other => exact Option.some.inj found ▸ shown _ leafMem
  | call call
  | declaration declared => cases found

theorem Identifier.originalName_applyColor? (token : Token) (color : Option Color) :
    (token.identifier.applyColor? color).originalName = token.text := by
  cases color <;> rfl

theorem Identifier.span_applyColor? (token : Token) (color : Option Color) :
    (token.identifier.applyColor? color).span = token.span := by
  cases color <;> rfl

/-- Every literal of an expanded unit is the text of the source at its span, and every name
is spelled in the source, at its span, as it was before it was renamed. -/
theorem expandSource_faithful {options : CompileOptions} {source : String} {program : Program}
    {after : Session} (run : expandSource options source {} = .ok program after) :
    (∀ literal ∈ program.literals, literal.raw = literal.span.textIn source) ∧
      ∀ name ∈ program.names, name.originalName = name.span.textIn source := by
  -- A new session in tandem with itself: only what is known of the first run is of interest.
  have alike := Session.alike_of_unused (.ofSource source) {} {} rfl rfl 0 rfl
  have paired := inStep_expandSource options (fun _ scanned => covers_tokenize scanned) {} {} alike
  rw [run] at paired
  have shown := paired.holds
  constructor
  · intro literal mem
    obtain ⟨token, admitted, written, raw, span⟩ := shown _ (Program.mem_literals mem)
    rw [raw, span]
    exact admitted written
  · intro name mem
    obtain ⟨token, color, admitted, isName, rfl⟩ := shown.names mem
    have written : token.kind ≠ .punct := by
      rw [beq_iff_eq.mp isName]
      decide
    rw [Identifier.originalName_applyColor?, Identifier.span_applyColor?]
    exact admitted written

/-- A call whose template binds a name and calls another macro with what was captured. -/
def heldValue : String :=
  "macro inc \x7b ($e:expr) => \x7b $e + 1 \x7d \x7d " ++
    "macro hold \x7b ($x:ident, $e:expr) => \x7b let t = inc($e); $x = t; \x7d \x7d " ++
      "let x = 0; hold(x, 'é');"

/-- The expansion of `heldValue` has a literal from each of its parts and a renamed name. -/
theorem expandSource_heldValue :
    ∃ program after, expandSource {} heldValue {} = .ok program after ∧
      program.literals.map Literal.raw = ["0", "'é'", "1"] ∧
        (∃ name ∈ program.names, name.isColored = true) ∧
          (∀ literal ∈ program.literals, literal.raw = literal.span.textIn heldValue) ∧
            ∀ name ∈ program.names, name.originalName = name.span.textIn heldValue := by
  have yielded : yields (fun program => program.literals.map Literal.raw == ["0", "'é'", "1"] &&
      program.names.any Identifier.isColored) (expandSource {} heldValue {}) = true := by
    decide +kernel
  obtain ⟨program, after, run, seen⟩ := exists_ok_of_yields yielded
  rw [Bool.and_eq_true, beq_iff_eq, List.any_eq_true] at seen
  exact ⟨program, after, run, seen.1, seen.2, expandSource_faithful run⟩

end MacroScript
