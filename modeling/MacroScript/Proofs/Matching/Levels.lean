import MacroScript.Proofs.Matching

/-!
# The levels of captured fragments

A variable inside of groups is bound to a fragment with one level for every group.  All
occurrences at one level have the same number of levels below them, so every path of the
right length that stays within the numbers of occurrences leads to tokens.
-/

namespace MacroScript

/-! ## Fragments -/

/-- All tokens of the fragment are below the same number of levels. -/
inductive Fragment.Uniform : Nat → Fragment → Prop
  | tokens (tokens : List Token) : Uniform 0 (.tokens tokens)
  | repeated {levels : Nat} {occurrences : List Fragment}
      (each : ∀ occurrence ∈ occurrences, Uniform levels occurrence) :
      Uniform (levels + 1) (.repeated occurrences)

namespace Fragment

variable {levels : Nat} {fragment : Fragment}

theorem follow?_append (first second : List Nat) (fragment : Fragment) :
    fragment.follow? (first ++ second) = (fragment.follow? first).bind (follow? second) := by
  induction first generalizing fragment with
  | nil => rfl
  | cons number rest ih =>
    cases fragment with
    | tokens tokens => rfl
    | repeated occurrences =>
      simp only [List.cons_append, follow?]
      cases occurrences[number]? with
      | none => rfl
      | some occurrence => exact ih occurrence

/-- A path takes away one level for every number on it. -/
theorem Uniform.follow? {part : Fragment} {path : List Nat} (uniform : fragment.Uniform levels)
    (found : fragment.follow? path = some part) :
    ∃ left, levels = path.length + left ∧ part.Uniform left := by
  induction path generalizing levels fragment with
  | nil =>
    rw [Fragment.follow?, Option.some.injEq] at found
    exact ⟨levels, (Nat.zero_add levels).symm, found ▸ uniform⟩
  | cons number rest ih =>
    cases uniform with
    | tokens tokens => cases found
    | @repeated lower occurrences each =>
      rw [Fragment.follow?, Option.bind_eq_some_iff] at found
      rcases found with ⟨occurrence, occurrenceAt, found⟩
      rcases ih (each occurrence (List.mem_of_getElem? occurrenceAt)) found with
        ⟨left, rfl, leftUniform⟩
      exact ⟨left, by rw [List.length_cons]; omega, leftUniform⟩

theorem Uniform.exists_tokens (uniform : fragment.Uniform 0) :
    ∃ tokens, fragment.tokens? = some tokens := by
  cases uniform with
  | tokens tokens => exact ⟨tokens, rfl⟩

theorem Uniform.exists_occurrences (uniform : fragment.Uniform (levels + 1)) :
    ∃ count, fragment.occurrences? = some count := by
  cases uniform with
  | @repeated _ occurrences each => exact ⟨occurrences.length, rfl⟩

end Fragment

/-! ## Bindings -/

namespace Bindings

variable {bindings : Bindings} {name : String} {binding : Binding}

theorem mem_of_get? (found : bindings.get? name = some binding) : (name, binding) ∈ bindings := by
  rcases List.lookup_eq_some_iff.mp found with ⟨front, back, split, -⟩
  simp [split]

/-- Inside of `depth` groups, every variable is bound to a fragment that has a level for each
further group around it. -/
def Leveled (depth : Nat) (bindings : Bindings) : Prop :=
  ∀ name binding, (name, binding) ∈ bindings →
    ∃ levels, binding.depth = depth + levels ∧ binding.fragment.Uniform levels

end Bindings

/-! ## Captures of a pattern -/

mutual

theorem PatternElement.le_of_mem_captures {depth : Nat} {element : PatternElement}
    {capture : String × Nat} (mem : capture ∈ element.captures depth) : depth ≤ capture.2 := by
  cases element with
  | token token => simp [PatternElement.captures] at mem
  | capture name kind span =>
    rw [PatternElement.captures, List.mem_singleton] at mem
    exact mem ▸ Nat.le_refl depth
  | repetition content separator span =>
    rw [PatternElement.captures] at mem
    exact Nat.le_of_succ_le (Pattern.le_of_mem_captures mem)

/-- The variables of a pattern are at least as deep as the pattern. -/
theorem Pattern.le_of_mem_captures {depth : Nat} {elements : List PatternElement}
    {capture : String × Nat} (mem : capture ∈ Pattern.captures depth elements) :
    depth ≤ capture.2 := by
  cases elements with
  | nil => simp [Pattern.captures] at mem
  | cons element rest =>
    rw [Pattern.captures] at mem
    rcases List.mem_append.mp mem with first | later
    · exact PatternElement.le_of_mem_captures first
    · exact Pattern.le_of_mem_captures later

end

end MacroScript
