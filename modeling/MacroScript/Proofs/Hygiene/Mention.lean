import MacroScript.Proofs.Hygiene.Resolution
import Mathlib.Data.List.Pairwise

/-!
# The tokens behind the leaves

Every leaf of a walk is made of the tokens at its place.  A name is spelled as its token,
the arguments of a call are the tokens behind its bracket, up to their colors, and a
declaration reaches from its first token to its last.

So every name that is mentioned on the way, be it as a binding, as a reference or among
the arguments of a call, is used with some color.
-/

namespace MacroScript

theorem Cursor.previousSpan_of_pos {cursor : Cursor} (moved : 0 < cursor.index) :
    cursor.previousSpan = (cursor.tokenAt (cursor.index - 1)).span := by
  unfold previousSpan previous?
  cases position : cursor.index with
  | zero => exact absurd moved (position ▸ Nat.lt_irrefl 0)
  | succ index => rfl

namespace Grammar

variable {tokens : Nat → Token} {limit index : Nat} {place : Place} {identifier : Identifier}
  {reader after : Reader} {places : List Place}

/-- How a leaf is made of the tokens from its place up to a limit. -/
inductive MadeOf (tokens : Nat → Token) (limit : Nat) : Place → Prop
  | binding {index : Nat} (inside : index < limit) (isName : (tokens index).isName = true)
      (color : Option Color) :
      MadeOf tokens limit (index, .binding ((tokens index).identifier.applyColor? color))
  | reference {index : Nat} (inside : index < limit) (isName : (tokens index).isName = true)
      (color : Option Color) :
      MadeOf tokens limit (index, .reference ((tokens index).identifier.applyColor? color))
  | call {index : Nat} {call : Invocation}
      (arguments : ∀ offset token, call.tokens[offset]? = some token →
        token = { tokens (index + 2 + offset) with color := token.color } ∧
          (token.captureName? ≠ none → token = tokens (index + 2 + offset)) ∧
            index + 2 + offset < limit) :
      MadeOf tokens limit (index, .call call)
  | declaration {index last : Nat} {declared : MacroStmt} (from_le : index ≤ last)
      (inside : last < limit)
      (span : declared.span = (tokens index).span.through (tokens last).span) :
      MadeOf tokens limit (index, .declaration declared)

theorem MadeOf.mono {larger : Nat} (made : MadeOf tokens limit place) (le : limit ≤ larger) :
    MadeOf tokens larger place := by
  cases made with
  | binding inside isName color => exact .binding (Nat.lt_of_lt_of_le inside le) isName color
  | reference inside isName color => exact .reference (Nat.lt_of_lt_of_le inside le) isName color
  | call arguments =>
    apply MadeOf.call
    intro offset token found
    obtain ⟨made, kept, inside⟩ := arguments offset token found
    exact ⟨made, kept, Nat.lt_of_lt_of_le inside le⟩
  | declaration from_le inside span =>
    exact .declaration from_le (Nat.lt_of_lt_of_le inside le) span

theorem MadeOf.of_binding (made : MadeOf tokens limit (index, .binding identifier)) :
    index < limit ∧ (tokens index).isName = true ∧
      ∃ color, identifier = (tokens index).identifier.applyColor? color := by
  cases made with
  | binding inside isName color => exact ⟨inside, isName, color, rfl⟩

theorem MadeOf.of_reference (made : MadeOf tokens limit (index, .reference identifier)) :
    index < limit ∧ (tokens index).isName = true ∧
      ∃ color, identifier = (tokens index).identifier.applyColor? color := by
  cases made with
  | reference inside isName color => exact ⟨inside, isName, color, rfl⟩

/-- Only the color of a token changes when it is handed to a call, and that of a variable does
not. -/
theorem Context.captureColors_getElem? {context : Context} {cursor : Cursor} {start : Nat}
    {captured fixed rest : List Token}
    (taken : cursor.tokens.toList.drop start = captured ++ rest)
    (run : context.captureColors cursor start captured = .ok fixed) {offset : Nat}
    {token : Token} (found : fixed[offset]? = some token) :
    token = { cursor.tokenAt (start + offset) with color := token.color } ∧
      (token.captureName? ≠ none → token = cursor.tokenAt (start + offset)) ∧
        offset < captured.length := by
  obtain ⟨⟨-, inside⟩, ⟨-, rfl⟩ | handed⟩ := handed_of_captureColors taken run found
  · exact ⟨rfl, fun _ => rfl, inside⟩
  · cases handed with
    | name isName ordinary colored => exact ⟨rfl, fun named => absurd ordinary named, inside⟩
    | other other => exact ⟨rfl, fun _ => rfl, inside⟩

theorem Step.madeOf (step : Step reader places after) (ready : reader.cursor.Ready)
    (same : reader.cursor.tokenAt = tokens) :
    ∀ place ∈ places, MadeOf tokens after.cursor.index place := by
  subst same
  cases step with
  | move forward => simp
  | @binding cursor context bound color isName binds colored =>
    intro place mem
    rw [List.mem_singleton.mp mem]
    have inside := Cursor.advance_index_of_lt (ready.lt_of_isName isName)
    exact .binding (Nat.lt_of_lt_of_eq (Nat.lt_succ_self _) inside.symm) isName color
  | @reference cursor context color isName colored =>
    intro place mem
    rw [List.mem_singleton.mp mem]
    have inside := Cursor.advance_index_of_lt (ready.lt_of_isName isName)
    exact .reference (Nat.lt_of_lt_of_eq (Nat.lt_succ_self _) inside.symm) isName color
  | call isName found taken fixed forward behind =>
    intro place mem
    rw [List.mem_singleton.mp mem]
    apply MadeOf.call
    intro offset token tokenFound
    obtain ⟨made, kept, inside⟩ := Context.captureColors_getElem? taken fixed tokenFound
    refine ⟨made, kept, ?_⟩
    simp only [behind]
    omega
  | @declaration cursor next context name rules forward inside templates written =>
    intro place mem
    rw [List.mem_singleton.mp mem]
    have last : next.previousSpan = (cursor.tokenAt (next.index - 1)).span := by
      rw [Cursor.previousSpan_of_pos (Nat.zero_lt_of_lt inside), forward.tokenAt]
    apply MadeOf.declaration (Nat.le_sub_one_of_lt inside)
    · exact Nat.sub_one_lt_of_lt inside
    · exact congrArg cursor.peek.span.through last
  | abandoned forward => simp

/-- Every leaf of a walk is made of tokens that the walk has read, and of tokens before the next
leaf. -/
theorem Walk.madeOf (walk : Walk reader places after) (ready : reader.cursor.Ready)
    (same : reader.cursor.tokenAt = tokens) :
    (∀ place ∈ places, MadeOf tokens after.cursor.index place) ∧
      places.Pairwise fun place next => MadeOf tokens next.1 place := by
  induction walk with
  | nil reader => simp
  | step step =>
    refine ⟨step.madeOf ready same, ?_⟩
    rcases step.places_inside ready with rfl | ⟨leaf, rfl, -⟩ <;> simp
  | append one two first second =>
    have forward := one.forward ready
    have middleReady := forward.ready ready
    have middleSame := (funext forward.tokenAt).trans same
    obtain ⟨firstMade, firstBefore⟩ := first ready same
    obtain ⟨secondMade, secondBefore⟩ := second middleReady middleSame
    constructor
    · intro place mem
      rcases List.mem_append.mp mem with early | late
      · exact (firstMade place early).mono (two.forward middleReady).index
      · exact secondMade place late
    · rw [List.pairwise_append]
      refine ⟨firstBefore, secondBefore, ?_⟩
      intro place early next late
      exact (firstMade place early).mono ((two.ordered middleReady).2 next late).1
  | enclosed inner ih => exact ih ready same

/-- Of two places of a walk, one is made of tokens before the other. -/
theorem Walk.madeOf_of_ne (walk : Walk reader places after) (ready : reader.cursor.Ready)
    (same : reader.cursor.tokenAt = tokens) {one two : Place} (oneMem : one ∈ places)
    (twoMem : two ∈ places) (different : one ≠ two) :
    MadeOf tokens two.1 one ∨ MadeOf tokens one.1 two := by
  have symmetric : Std.Symm fun first second : Place =>
      MadeOf tokens second.1 first ∨ MadeOf tokens first.1 second :=
    ⟨fun _ _ => Or.symm⟩
  have either : places.Pairwise fun first second =>
      MadeOf tokens second.1 first ∨ MadeOf tokens first.1 second :=
    (walk.madeOf ready same).2.imp fun made => .inl made
  exact either.forall oneMem twoMem different

/-! ## Mentioned names -/

/-- The place mentions the name token at an index: as a binding, as a reference, or among the
arguments of a call. -/
inductive Mentions : Place → Nat → Prop
  | binding (index : Nat) (identifier : Identifier) : Mentions (index, .binding identifier) index
  | reference (index : Nat) (identifier : Identifier) :
      Mentions (index, .reference identifier) index
  | argument {index offset : Nat} {call : Invocation} {token : Token}
      (found : call.tokens[offset]? = some token) (isName : token.isName = true)
      (ordinary : token.captureName? = none) :
      Mentions (index, .call call) (index + 2 + offset)

/-- A name that is mentioned is used with some color. -/
theorem MadeOf.exists_uses (made : MadeOf tokens limit place) (mentions : Mentions place index) :
    ∃ color, Uses tokens place index color := by
  cases mentions with
  | binding index identifier =>
    cases made with
    | binding inside isName color => exact ⟨color, .binding index color⟩
  | reference index identifier =>
    cases made with
    | reference inside isName color => exact ⟨color, .reference index color⟩
  | @argument index offset call token found isName ordinary =>
    cases made with
    | call arguments =>
      obtain ⟨made, -⟩ := arguments offset token found
      refine ⟨token.color, .argument ?_ ?_ (found.trans (congrArg some made))⟩
      · rw [made] at isName
        exact isName
      · rw [made] at ordinary
        exact ordinary

end Grammar

end MacroScript
