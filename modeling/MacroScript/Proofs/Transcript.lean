import MacroScript.Proofs.Matching
import MacroScript.Transcript

/-!
# Where the tokens of a transcript come from

A token that is marked as part of the body is a token of the template, and a token that
is marked as part of the arguments was captured from them.
-/

namespace MacroScript

namespace Transcript

open MacroScript.Matching MacroScript.Outcome

variable {template tokens : List Token} {placed : Placed} {path : List Nat} {setting : Setting}
  {transcript : List Placed} {separator : Token}

/-- A token of the body belongs to the template; any other was captured, and at most its line
mark was changed. -/
def PlacedFrom (call : Invocation) (template : List Token) (placed : Placed) : Prop :=
  match placed.2 with
  | .body => placed.1 ∈ template
  | .invocation =>
    ∃ token newline, FromCall call token ∧ placed.1 = { token with newlineBefore := newline }

variable {call : Invocation}

theorem PlacedFrom.subset {larger : List Token} (subset : template ⊆ larger)
    (known : PlacedFrom call template placed) : PlacedFrom call larger placed := by
  rcases placed with ⟨token, origin⟩
  cases origin with
  | body => exact subset known
  | invocation => exact known

/-! ## Captures -/

theorem fragmentFrom_follow? {fragment part : Fragment} (known : FragmentFrom call fragment)
    (found : fragment.follow? path = some part) : FragmentFrom call part := by
  induction path generalizing fragment with
  | nil =>
    simp only [Fragment.follow?, Option.some.injEq] at found
    exact found ▸ known
  | cons number rest ih =>
    cases known with
    | tokens each => cases found
    | repeated each =>
      simp only [Fragment.follow?, Option.bind_eq_some_iff] at found
      obtain ⟨occurrence, occurrenceAt, found⟩ := found
      exact ih (each occurrence (List.mem_of_getElem? occurrenceAt)) found

theorem placedFrom_inPlace (placeholder : Token) (each : ∀ token ∈ tokens, FromCall call token) :
    ∀ placed ∈ inPlace placeholder tokens, PlacedFrom call template placed := by
  cases tokens with
  | nil => simp [inPlace]
  | cons first rest =>
    obtain ⟨firstKnown, restKnown⟩ := List.forall_mem_cons.mp each
    intro placed mem
    rcases List.mem_cons.mp mem with rfl | later
    · exact ⟨first, placeholder.newlineBefore, firstKnown, rfl⟩
    · obtain ⟨token, tokenMem, rfl⟩ := List.mem_map.mp later
      exact ⟨token, token.newlineBefore, restKnown token tokenMem, rfl⟩

theorem placedFrom_substitute {name : String} {placeholder : Token}
    (known : BindingsFrom call setting.bindings)
    (run : substitute setting name placeholder path = .ok transcript) :
    ∀ placed ∈ transcript, PlacedFrom call template placed := by
  unfold substitute at run
  split at run
  · cases run
  · rename_i binding bound
    split at run
    · split at run
      · rename_i tokens found
        obtain rfl := Except.ok.inj run
        obtain ⟨part, followed, partTokens⟩ := Option.bind_eq_some_iff.mp found
        cases fragmentFrom_follow? (known.get? bound) followed with
        | tokens each =>
          obtain rfl := Option.some.inj partTokens
          exact placedFrom_inPlace placeholder each
        | repeated each => cases partTokens
      · cases run
    · cases run

/-! ## Groups -/

theorem mem_joinRounds {rounds : List (List Placed)} (mem : placed ∈ joinRounds separator rounds) :
    placed = (separator, .body) ∨ ∃ round ∈ rounds, placed ∈ round := by
  induction rounds with
  | nil => cases mem
  | cons round rest ih =>
    cases rest with
    | nil => exact .inr ⟨round, List.mem_singleton_self _, mem⟩
    | cons next others =>
      simp only [joinRounds, List.mem_append, List.mem_cons] at mem
      rcases mem with here | rfl | later
      · exact .inr ⟨round, List.mem_cons_self, here⟩
      · exact .inl rfl
      · rcases ih later with rfl | ⟨found, foundMem, inFound⟩
        · exact .inl rfl
        · exact .inr ⟨found, List.mem_cons_of_mem _ foundMem, inFound⟩

theorem group?_subset {dollar : Token} {group rest : List Token}
    (run : group? dollar tokens = .ok (group, separator, rest)) :
    group ⊆ tokens ∧ separator ∈ tokens ∧ rest ⊆ tokens := by
  have divides := Balanced.divides_takeWithin ")" [] tokens
  unfold group? Balanced.take at run
  split at run
  · cases run
  · cases run
  · cases run
  · rename_i taken found left outcome
    simp only [Except.ok.injEq, Prod.mk.injEq] at run
    obtain ⟨rfl, rfl, rfl⟩ := run
    rw [outcome] at divides
    obtain ⟨closer, split⟩ := divides
    rw [split]
    refine ⟨List.subset_append_left _ _, by simp, ?_⟩
    intro token mem
    simp [mem]

/-- Every result of a successful traversal is the result of one of its runs. -/
theorem exists_of_mem_mapM {α β ε : Type} {action : α → Except ε β} {inputs : List α}
    {results : List β} (run : inputs.mapM action = .ok results) {result : β}
    (mem : result ∈ results) : ∃ input ∈ inputs, action input = .ok result := by
  induction inputs generalizing results with
  | nil =>
    simp only [List.mapM_nil, pure, Except.pure, Except.ok.injEq] at run
    subst run
    cases mem
  | cons input rest ih =>
    simp only [List.mapM_cons, bind, Except.bind] at run
    cases first : action input with
    | error fault => simp [first] at run
    | ok value =>
      cases later : rest.mapM action with
      | error fault => simp [first, later] at run
      | ok others =>
        simp only [first, later, pure, Except.pure, Except.ok.injEq] at run
        subst run
        rcases List.mem_cons.mp mem with rfl | old
        · exact ⟨input, List.mem_cons_self, first⟩
        · obtain ⟨found, foundMem, ran⟩ := ih later old
          exact ⟨found, List.mem_cons_of_mem _ foundMem, ran⟩

/-! ## Templates -/

theorem placedFrom_transcribeWithin (known : BindingsFrom call setting.bindings) {bound : Nat}
    (run : transcribeWithin setting bound template path = .ok transcript) :
    ∀ placed ∈ transcript, PlacedFrom call template placed := by
  induction bound generalizing template path transcript with
  | zero =>
    obtain rfl := Except.ok.inj run
    simp
  | succ bound ih =>
    cases template with
    | nil =>
      obtain rfl := Except.ok.inj run
      simp
    | cons token rest =>
      unfold transcribeWithin at run
      split at run
      · simp only [except_bind_eq_ok_iff] at run
        obtain ⟨⟨group, separator, after⟩, grouped, count, -, rounds, roundsRun, later,
          laterRun, same⟩ := run
        obtain rfl := Except.ok.inj same
        obtain ⟨groupSubset, separatorMem, afterSubset⟩ := group?_subset grouped
        have tail : rest.tail ⊆ token :: rest :=
          fun _ mem => List.mem_cons_of_mem _ (List.mem_of_mem_tail mem)
        intro placed mem
        rcases List.mem_append.mp mem with inGroup | inLater
        · rcases mem_joinRounds inGroup with rfl | ⟨round, roundMem, inRound⟩
          · exact tail separatorMem
          · obtain ⟨number, -, roundRun⟩ := exists_of_mem_mapM roundsRun roundMem
            exact (ih roundRun placed inRound).subset (List.Subset.trans groupSubset tail)
        · exact (ih laterRun placed inLater).subset (List.Subset.trans afterSubset tail)
      · split at run
        · simp only [except_bind_eq_ok_iff] at run
          obtain ⟨here, hereRun, later, laterRun, same⟩ := run
          obtain rfl := Except.ok.inj same
          intro placed mem
          rcases List.mem_append.mp mem with inHere | inLater
          · exact placedFrom_substitute known hereRun placed inHere
          · exact (ih laterRun placed inLater).subset (List.subset_cons_self token rest)
        · simp only [except_bind_eq_ok_iff, Except.ok.injEq] at run
          obtain ⟨here, rfl, later, laterRun, rfl⟩ := run
          intro placed mem
          rcases List.mem_cons.mp mem with rfl | inLater
          · exact List.mem_cons_self
          · exact (ih laterRun placed inLater).subset (List.subset_cons_self token rest)

/-- Every token of a transcript comes from the template or from the arguments. -/
theorem placedFrom_transcribe {macroName : String} {bindings : Bindings}
    (known : BindingsFrom call bindings)
    (run : transcribe macroName bindings template = .ok transcript) :
    ∀ placed ∈ transcript, PlacedFrom call template placed :=
  placedFrom_transcribeWithin known run

end Transcript

end MacroScript
