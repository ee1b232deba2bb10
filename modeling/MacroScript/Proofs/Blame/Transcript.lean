import MacroScript.Proofs.Blame.Registered
import MacroScript.Proofs.Matching.Levels
import MacroScript.Proofs.Transcript

/-!
# Transcripts find their fragments

A template is copied along paths of round numbers.  The number of rounds of a group is the
number of occurrences of every variable in it that is bound deeper than the path, so the
path of a round leads into all of their fragments.  A variable that is used at its own
depth therefore has tokens there.

What can go wrong in a transcript is the fault of the macro, and it is blamed on a token of the
template.
-/

namespace MacroScript.Transcript

open MacroScript.Outcome MacroScript.Bindings

variable {macroName : String} {template : List Token} {blamed : Fault → Prop} {bindings : Bindings}

/-- The path leads into the fragment of every variable of the template that is bound as deep
as the path is long. -/
def Reaches (setting : Setting) (template : List Token) (path : List Nat) : Prop :=
  ∀ name ∈ template.filterMap Token.captureName?, ∀ binding,
    setting.bindings.get? name = some binding → path.length ≤ binding.depth →
      ∃ part, binding.fragment.follow? path = some part

/-- What `Reaches` says about one variable. -/
abbrev Follows (setting : Setting) (path : List Nat) (name : String) : Prop :=
  ∀ binding, setting.bindings.get? name = some binding → path.length ≤ binding.depth →
    ∃ part, binding.fragment.follow? path = some part

namespace Reaches

variable {setting : Setting}

theorem nil : Reaches setting template [] := by
  intro name mem binding bound deep
  exact ⟨binding.fragment, rfl⟩

theorem subset {smaller : List Token} {path : List Nat} (reaches : Reaches setting template path)
    (subset : smaller ⊆ template) : Reaches setting smaller path := by
  intro name mem
  rcases List.mem_filterMap.mp mem with ⟨token, tokenMem, named⟩
  exact reaches name (List.mem_filterMap.mpr ⟨token, subset tokenMem, named⟩)

end Reaches

/-- The faults of a template are blamed on its tokens. -/
structure Blames (macroName : String) (template : List Token) (blamed : Fault → Prop) : Prop where
  expansion {token : Token} (mem : token ∈ template) (problem : ExpansionProblem) :
    blamed (.expansion macroName token.span problem)
  malformed {token : Token} (mem : token ∈ template) (problem : SourceProblem) :
    blamed (.malformed token.span problem)

theorem Blames.subset {smaller : List Token} (blames : Blames macroName template blamed)
    (subset : smaller ⊆ template) : Blames macroName smaller blamed :=
  ⟨fun mem => blames.expansion (subset mem), fun mem => blames.malformed (subset mem)⟩

/-- A variable is bound to a fragment with as many levels as it is deep. -/
theorem uniform_of_get? {name : String} {binding : Binding} (leveled : bindings.Leveled 0)
    (bound : bindings.get? name = some binding) : binding.fragment.Uniform binding.depth := by
  rcases leveled _ _ (mem_of_get? bound) with ⟨levels, depth_eq, uniform⟩
  rw [depth_eq, Nat.zero_add]
  exact uniform

section Setting

variable {setting : Setting} {path : List Nat} {name : String} {fault : Fault} {dollar : Token}
  {found : Option (String × Nat)} {names : List String} {count : Nat} {group : List Token}

/-! ## Captures -/

section

variable (leveled : setting.bindings.Leveled 0)
include leveled

/-- Replacing a variable fails only because of how the macro uses it. -/
theorem blamed_of_substitute (blames : Blames setting.macroName template blamed)
    {placeholder : Token} (mem : placeholder ∈ template)
    (reached : Follows setting path name)
    (run : substitute setting name placeholder path = .error fault) : blamed fault := by
  unfold substitute at run
  cases bound : setting.bindings.get? name with
  | none =>
    rw [bound] at run
    cases run
    exact blames.expansion mem _
  | some binding =>
    simp only [bound] at run
    by_cases deep : binding.depth = path.length
    · rcases reached binding bound (Nat.le_of_eq deep.symm) with ⟨part, followed⟩
      rcases (uniform_of_get? leveled bound).follow? followed with ⟨left, depth_eq, uniform⟩
      obtain rfl : left = 0 := by omega
      rcases uniform.exists_tokens with ⟨tokens, tokens_eq⟩
      simp [deep, followed, tokens_eq] at run
    · rw [if_neg deep] at run
      cases run
      exact blames.expansion mem _

/-! ## Groups -/

/-- A variable is either bound no deeper than the path or has occurrences there. -/
theorem deeper_cases (reached : Follows setting path name) :
    (setting.bindings.get? name).filter (path.length < ·.depth) = none ∨
      ∃ binding count,
        (setting.bindings.get? name).filter (path.length < ·.depth) = some binding ∧
          (binding.fragment.follow? path).bind Fragment.occurrences? = some count := by
  cases deep : (setting.bindings.get? name).filter (path.length < ·.depth) with
  | none => exact .inl rfl
  | some binding =>
    rcases Option.filter_eq_some_iff.mp deep with ⟨bound, deeper⟩
    have deeper := of_decide_eq_true deeper
    rcases reached binding bound (Nat.le_of_lt deeper) with ⟨part, followed⟩
    rcases (uniform_of_get? leveled bound).follow? followed with ⟨left, depth_eq, uniform⟩
    rcases Nat.exists_eq_succ_of_ne_zero (show left ≠ 0 by omega) with ⟨lower, rfl⟩
    rcases uniform.exists_occurrences with ⟨count, count_eq⟩
    exact .inr ⟨binding, count, rfl, by rw [followed, Option.bind_some, count_eq]⟩

theorem blamed_of_sharedCount (blames : Blames setting.macroName template blamed)
    (mem : dollar ∈ template) (reached : ∀ name ∈ names, Follows setting path name)
    (run : sharedCount setting dollar path found names = .error fault) : blamed fault := by
  induction names generalizing found with
  | nil => cases run
  | cons name rest ih =>
    rcases List.forall_mem_cons.mp reached with ⟨here, later⟩
    unfold sharedCount at run
    rcases deeper_cases leveled here with deep | ⟨binding, count, deep, counted⟩
    · simp only [deep] at run
      exact ih later run
    · simp only [deep, counted] at run
      split at run
      · exact ih later run
      · split at run
        · exact ih later run
        · cases run
          exact blames.expansion mem _

omit leveled in
/-- All variables that are bound deeper than the path have the shared number of
occurrences. -/
theorem occurrences_of_sharedCount {first : String}
    (run : sharedCount setting dollar path found names = .ok (some (first, count))) :
    (∀ known, found = some known → known.2 = count) ∧
      ∀ name ∈ names, ∀ binding, setting.bindings.get? name = some binding →
        path.length < binding.depth →
          (binding.fragment.follow? path).bind Fragment.occurrences? = some count := by
  induction names generalizing found with
  | nil =>
    cases run
    simp
  | cons name rest ih =>
    rw [List.forall_mem_cons]
    unfold sharedCount at run
    cases deep : (setting.bindings.get? name).filter (path.length < ·.depth) with
    | none =>
      simp only [deep] at run
      rcases ih run with ⟨known, others⟩
      refine ⟨known, ?_, others⟩
      intro binding bound deeper
      rw [Option.filter_eq_none_iff] at deep
      exact absurd (decide_eq_true deeper) (deep binding bound)
    | some binding =>
      rcases Option.filter_eq_some_iff.mp deep with ⟨bound, -⟩
      simp only [deep] at run
      cases counted : (binding.fragment.follow? path).bind Fragment.occurrences? with
      | none => simp [counted] at run
      | some here =>
        simp only [counted] at run
        have own : here = count → ∀ other, setting.bindings.get? name = some other →
            path.length < other.depth →
              (other.fragment.follow? path).bind Fragment.occurrences? = some count := by
          intro same other otherBound _
          obtain rfl := Option.some.inj (bound.symm.trans otherBound)
          rw [counted, same]
        cases found with
        | none =>
          rcases ih run with ⟨known, others⟩
          exact ⟨by simp, own (known _ rfl), others⟩
        | some former =>
          rcases former with ⟨name, expected⟩
          simp only at run
          split at run
          · rename_i same
            rcases ih run with ⟨known, others⟩
            exact ⟨known, own (same ▸ known _ rfl), others⟩
          · cases run

theorem blamed_of_roundCount (blames : Blames setting.macroName template blamed)
    (mem : dollar ∈ template) (reaches : Reaches setting group path)
    (run : roundCount setting dollar group path = .error fault) : blamed fault := by
  rw [roundCount, except_bind_eq_error_iff] at run
  rcases run with shared | ⟨found, -, none⟩
  · exact blamed_of_sharedCount leveled blames mem reaches shared
  · cases found with
    | none =>
      cases none
      exact blames.expansion mem _
    | some counted => cases none

end

/-- The path of a round leads into the fragments of the variables of the group. -/
theorem Reaches.round {round : Nat} (run : roundCount setting dollar group path = .ok count)
    (inside : round < count) : Reaches setting group (path ++ [round]) := by
  rw [roundCount, except_bind_eq_ok_iff] at run
  rcases run with ⟨found, shared, counted⟩
  cases found with
  | none => cases counted
  | some known =>
    cases counted
    intro name mem binding bound deep
    rw [List.length_append, List.length_singleton] at deep
    have occurrences := (occurrences_of_sharedCount shared).2 name mem binding bound deep
    rcases Option.bind_eq_some_iff.mp occurrences with ⟨part, followed, counted⟩
    cases part with
    | tokens tokens => cases counted
    | repeated rounds =>
      have inRounds : round < rounds.length := by
        rw [Fragment.occurrences?, Option.some.injEq] at counted
        rw [counted]
        exact inside
      refine ⟨rounds.get ⟨round, inRounds⟩, ?_⟩
      rw [Fragment.follow?_append, followed, Option.bind_some, Fragment.follow?,
        List.getElem?_eq_getElem inRounds]
      rfl

/-- A group that is not closed or has no separator is a fault of the macro. -/
theorem blamed_of_group? {macroName : String} {tokens : List Token}
    (blames : Blames macroName (dollar :: tokens) blamed)
    (run : group? dollar tokens = .error fault) : blamed fault := by
  have divides := Balanced.divides_takeWithin ")" [] tokens
  unfold group? Balanced.take at run
  split at run
  · rename_i found rest taken
    rw [taken] at divides
    cases run
    exact blames.malformed (List.mem_cons_of_mem _ (divides.subset List.mem_cons_self)) _
  · cases run
    exact blames.malformed List.mem_cons_self _
  · cases run
    exact blames.malformed List.mem_cons_self _
  · cases run

/-! ## Templates -/

/-- Rounds fail at the first one that does. -/
theorem mapM_eq_error_iff {α β ε : Type} {action : α → Except ε β} {inputs : List α} {fault : ε} :
    inputs.mapM action = .error fault ↔
      ∃ before input after, inputs = before ++ input :: after ∧
        (∀ other ∈ before, ∃ value, action other = .ok value) ∧ action input = .error fault := by
  induction inputs with
  | nil => simp [pure, Except.pure]
  | cons first rest ih =>
    rw [List.mapM_cons, except_bind_eq_error_iff]
    constructor
    · rintro (failed | ⟨value, evaluated, failed⟩)
      · exact ⟨[], first, rest, rfl, by simp, failed⟩
      · rcases except_bind_eq_error_iff.mp failed with restFailed | ⟨_, -, impossible⟩
        · obtain ⟨before, input, after, rfl, earlier, failed⟩ := ih.mp restFailed
          exact ⟨first :: before, input, after, rfl,
            List.forall_mem_cons.mpr ⟨⟨value, evaluated⟩, earlier⟩, failed⟩
        · cases impossible
    · rintro ⟨before, input, after, split, earlier, failed⟩
      cases before with
      | nil =>
        cases split
        exact .inl failed
      | cons head tail =>
        simp only [List.cons_append, List.cons.injEq] at split
        obtain ⟨rfl, rfl⟩ := split
        obtain ⟨⟨value, evaluated⟩, earlier⟩ := List.forall_mem_cons.mp earlier
        have restFailed := ih.mpr ⟨tail, input, after, rfl, earlier, failed⟩
        exact .inr ⟨value, evaluated, except_bind_eq_error_iff.mpr (.inl restFailed)⟩

theorem blamed_of_transcribeWithin (leveled : setting.bindings.Leveled 0) {bound : Nat}
    (blames : Blames setting.macroName template blamed) (reaches : Reaches setting template path)
    (run : transcribeWithin setting bound template path = .error fault) : blamed fault := by
  induction bound generalizing template path with
  | zero => cases run
  | succ bound ih =>
    cases template with
    | nil => cases run
    | cons token rest =>
      have tail : rest.tail ⊆ token :: rest :=
        fun _ mem => List.mem_cons_of_mem _ (List.mem_of_mem_tail mem)
      unfold transcribeWithin at run
      split at run
      · rcases except_bind_eq_error_iff.mp run with grouped | ⟨⟨group, separator, after⟩,
          grouped, run⟩
        · exact blamed_of_group?
            (blames.subset (List.cons_subset.mpr ⟨List.mem_cons_self, tail⟩)) grouped
        · rcases group?_subset grouped with ⟨groupSubset, -, afterSubset⟩
          have inGroup := List.Subset.trans groupSubset tail
          have inAfter := List.Subset.trans afterSubset tail
          rcases except_bind_eq_error_iff.mp run with counting | ⟨count, counted, run⟩
          · exact blamed_of_roundCount leveled blames List.mem_cons_self
              (reaches.subset inGroup) counting
          · rcases except_bind_eq_error_iff.mp run with roundsRun | ⟨rounds, -, run⟩
            · rcases mapM_eq_error_iff.mp roundsRun with ⟨_, round, _, split, -, roundRun⟩
              have roundMem : round ∈ List.range count := split ▸ by simp
              exact ih (blames.subset inGroup)
                (Reaches.round counted (List.mem_range.mp roundMem)) roundRun
            · rcases except_bind_eq_error_iff.mp run with later | ⟨_, -, impossible⟩
              · exact ih (blames.subset inAfter) (reaches.subset inAfter) later
              · cases impossible
      · have inRest := List.subset_cons_self token rest
        have afterwards : ∀ here : List Placed,
            (do
              let later ← transcribeWithin setting bound rest path
              .ok (here ++ later) : Except Fault (List Placed)) = .error fault →
                blamed fault := by
          intro here afterRun
          rcases except_bind_eq_error_iff.mp afterRun with later | ⟨_, -, impossible⟩
          · exact ih (blames.subset inRest) (reaches.subset inRest) later
          · cases impossible
        cases named : token.captureName? with
        | none =>
          simp only [named] at run
          exact afterwards _ run
        | some name =>
          simp only [named] at run
          have mem : name ∈ (token :: rest).filterMap Token.captureName? :=
            List.mem_filterMap.mpr ⟨token, List.mem_cons_self, named⟩
          rcases except_bind_eq_error_iff.mp run with here | ⟨here, -, run⟩
          · exact blamed_of_substitute leveled blames List.mem_cons_self
              (reaches name mem) here
          · exact afterwards here run

end Setting

/-- No variable misses its fragment: a transcript that fails does so because of the macro. -/
theorem blamed_of_transcribe (blames : Blames macroName template blamed) {fault : Fault}
    (leveled : bindings.Leveled 0) (run : transcribe macroName bindings template = .error fault) :
    blamed fault := by
  apply blamed_of_transcribeWithin _ _ Reaches.nil run
  · exact leveled
  · exact blames

end MacroScript.Transcript
