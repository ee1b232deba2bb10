import MacroScript.Proofs.FullExpansion
import MacroScript.Proofs.Tandem.Compile

/-!
# Units do not see each other

A unit that is compiled in a session does not depend on the units before it, whatever they
declared, marked or left unfinished.  It is compiled as in a new session, to the same tree
or the same fault.  Only the colors of renamed names go on from the last color that the
session has given out.
-/

namespace MacroScript

open MacroScript.Outcome

/-- The vocabulary of all tokens. -/
def Vocabulary.all : Vocabulary where
  Admits _ := True
  Shown _ := True
  hidden := none
  shown := id
  seen _ _ := by simp
  recolored _ _ := trivial
  replaced _ _ := trivial
  synthetic _ _ := trivial

/-- A tree without macro nodes has no numbers but the colors of its names. -/
theorem Renumbering.program_of_macroFree {r : Renumbering} (colors : r.colors = 0)
    {v : Vocabulary} {program : Program} (free : MacroFree (Leaf.ofProgram program))
    (shown : v.ShowsAll (Mark.ofProgram program)) : r.program program = program := by
  apply r.program_of_fixes
  intro leaf mem
  have isPlain := free leaf (Leaf.mem_ofProgram.mpr mem)
  cases leaf with
  | binding name => exact congrArg Leaf.binding (identifier_of_names colors (shown _ mem))
  | reference name => exact congrArg Leaf.reference (identifier_of_names colors (shown _ mem))
  | call call
  | declaration declared => cases isPlain

/-- Expanding a unit in a session comes to what it comes to in a new session: the same
fault, or the same tree with the colors of its names moved behind the last one that the
session has given out. -/
theorem expandSource_isolated (options : CompileOptions) (source : String) (session : Session) :
    answer (expandSource options source session) =
      (answer (expandSource options source {})).map
        (Renumbering.program { colors := session.lastColor }) := by
  let colored : Session := { lastColor := session.lastColor }
  have covered : ∀ tokens, tokenize source = .ok tokens → Vocabulary.all.Covers tokens :=
    fun _ _ _ _ => trivial
  -- First the colors move, with no scopes and no macros in either session.
  have colors : answer (expandSource options source colored) =
      (answer (expandSource options source {})).map
        (Renumbering.program { colors := session.lastColor }) :=
    (inStep_expandSource options covered {} colored (Session.alike_of_unused .all {} colored rfl rfl
      session.lastColor (Nat.zero_add _).symm)).answer
  -- Then the scopes and the macros of the session are added, of which no tree shows anything.
  have others := inStep_expandSource options covered colored session
    (Session.alike_of_unused .all colored session rfl rfl 0 rfl)
  rw [← colors]
  generalize run : expandSource options source colored = first at others ⊢
  generalize expandSource options source session = second at others ⊢
  cases others with
  | error alike => rfl
  | @ok program after _ alike shown =>
    obtain ⟨read, middle, _, compiled⟩ := bind_eq_ok_iff.mp run
    have free := (Splice.replaced_spliceProgram compiled).macroFree Compile.macroFree_expandWithin
    exact congrArg Except.ok (Renumbering.program_of_macroFree rfl free shown)

end MacroScript
