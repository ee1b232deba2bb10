import MacroScript.Proofs.Tandem.Matching
import MacroScript.Proofs.Transcript

/-!
# Transcripts under new numbers

Transcribing a template compares and counts, and looks at the texts and positions of
tokens.  It never looks at a number, so renumbering the template and the bindings
renumbers the transcript.
-/

namespace MacroScript

open MacroScript.Matching

namespace Renumbering

variable (r : Renumbering)

/-- A token of a transcript under the new numbers. -/
def placed (placed : Transcript.Placed) : Transcript.Placed :=
  (r.token placed.1, placed.2)

/-- The settings of a transcript under the new numbers. -/
def setting (setting : Transcript.Setting) : Transcript.Setting :=
  { setting with bindings := r.bindings setting.bindings }

/-! ## Fragments -/

theorem follow?_fragment (path : List Nat) (fragment : Fragment) :
    (r.fragment fragment).follow? path = (fragment.follow? path).map r.fragment := by
  induction path generalizing fragment with
  | nil => rfl
  | cons number rest ih =>
    cases fragment with
    | tokens tokens => rfl
    | repeated occurrences =>
      simp only [fragment, Fragment.follow?, r.fragments_eq_map, List.getElem?_map]
      cases occurrences[number]? with
      | none => rfl
      | some occurrence => exact ih occurrence

theorem tokens?_fragment (fragment : Fragment) :
    (r.fragment fragment).tokens? = fragment.tokens?.map (List.map r.token) := by
  cases fragment <;> rfl

theorem occurrences?_fragment (fragment : Fragment) :
    (r.fragment fragment).occurrences? = fragment.occurrences? := by
  cases fragment with
  | tokens tokens => rfl
  | repeated occurrences =>
    simp only [fragment, Fragment.occurrences?, r.fragments_eq_map, List.length_map]

end Renumbering

namespace Transcript

variable (r : Renumbering)

theorem inPlace_renumbered (placeholder : Token) (tokens : List Token) :
    inPlace (r.token placeholder) (tokens.map r.token) =
      (inPlace placeholder tokens).map r.placed := by
  cases tokens with
  | nil => rfl
  | cons first rest =>
    simp only [inPlace, List.map_cons, List.map_map]
    rfl

variable (setting : Setting)

theorem substitute_renumbered (name : String) (placeholder : Token) (path : List Nat) :
    substitute (r.setting setting) name (r.token placeholder) path =
      (substitute setting name placeholder path).map (List.map r.placed) := by
  unfold substitute Renumbering.setting
  simp only [r.get?_bindings]
  cases setting.bindings.get? name with
  | none => rfl
  | some binding =>
    simp only [Option.map_some, Renumbering.binding, r.follow?_fragment]
    by_cases fits : binding.depth = path.length
    · simp only [fits, if_true]
      cases binding.fragment.follow? path with
      | none => rfl
      | some part =>
        simp only [Option.map_some, Option.bind_some, r.tokens?_fragment]
        cases part.tokens? with
        | none => rfl
        | some tokens =>
          simp only [Option.map_some, inPlace_renumbered]
          rfl
    · simp only [fits, if_false]
      rfl

/-! ## Groups -/

theorem sharedCount_renumbered (dollar : Token) (path : List Nat) (found : Option (String × Nat))
    (names : List String) :
    sharedCount (r.setting setting) (r.token dollar) path found names =
      sharedCount setting dollar path found names := by
  induction names generalizing found with
  | nil => rfl
  | cons name rest ih =>
    have deeper : ((r.setting setting).bindings.get? name).filter (path.length < ·.depth) =
        ((setting.bindings.get? name).filter (path.length < ·.depth)).map r.binding := by
      rw [Renumbering.setting, r.get?_bindings, Option.filter_map]
      rfl
    rw [sharedCount, sharedCount, deeper]
    cases (setting.bindings.get? name).filter (path.length < ·.depth) with
    | none => exact ih found
    | some binding =>
      have occurrences : ((r.binding binding).fragment.follow? path).bind Fragment.occurrences? =
          (binding.fragment.follow? path).bind Fragment.occurrences? := by
        rw [Renumbering.binding, r.follow?_fragment]
        cases binding.fragment.follow? path with
        | none => rfl
        | some part => exact r.occurrences?_fragment part
      simp only [Option.map_some, occurrences, ih]
      rfl

theorem render_renumbered (tokens : List Token) :
    Token.render (tokens.map r.token) = Token.render tokens := by
  rw [Token.render, List.foldl_map]
  rfl

theorem roundCount_renumbered (dollar : Token) (group : List Token) (path : List Nat) :
    roundCount (r.setting setting) (r.token dollar) (group.map r.token) path =
      roundCount setting dollar group path := by
  have names : (group.map r.token).filterMap Token.captureName? =
      group.filterMap Token.captureName? := by
    rw [List.filterMap_map]
    rfl
  rw [roundCount, names, sharedCount_renumbered, render_renumbered]
  rfl

theorem joinRounds_renumbered (separator : Token) (rounds : List (List Placed)) :
    joinRounds (r.token separator) (rounds.map (List.map r.placed)) =
      (joinRounds separator rounds).map r.placed := by
  induction rounds with
  | nil => rfl
  | cons round rest ih =>
    cases rest with
    | nil => rfl
    | cons next others =>
      simp only [List.map_cons, joinRounds, List.map_append] at ih ⊢
      rw [ih]
      rfl

theorem group?_renumbered (dollar : Token) (tokens : List Token) :
    group? (r.token dollar) (tokens.map r.token) =
      (group? dollar tokens).map
        (Prod.map (List.map r.token) (Prod.map r.token (List.map r.token))) := by
  rw [group?, group?, r.take_map]
  cases Balanced.take ")" tokens with
  | mismatched found rest
  | unfinished rest => rfl
  | closed group rest => cases rest <;> rfl

theorem mapM_except_map {α β ε : Type} {action other : α → Except ε β} {change : β → β}
    (same : ∀ input, other input = (action input).map change) (inputs : List α) :
    inputs.mapM other = (inputs.mapM action).map (List.map change) := by
  induction inputs with
  | nil => rfl
  | cons input rest ih =>
    rw [List.mapM_cons, List.mapM_cons, same, ih]
    cases action input with
    | error fault => rfl
    | ok value => cases rest.mapM action <;> rfl

/-! ## Templates -/

theorem transcribeWithin_renumbered (bound : Nat) (template : List Token) (path : List Nat) :
    transcribeWithin (r.setting setting) bound (template.map r.token) path =
      (transcribeWithin setting bound template path).map (List.map r.placed) := by
  induction bound generalizing template path with
  | zero => rfl
  | succ bound ih =>
    cases template with
    | nil => rfl
    | cons token rest =>
      have opens : ((r.token token).isWord "$" &&
          (rest.map r.token).head?.any (·.isPunct "(")) =
            (token.isWord "$" && rest.head?.any (·.isPunct "(")) := by
        cases rest <;> rfl
      have captured : (r.token token).captureName? = token.captureName? := rfl
      rw [List.map_cons, transcribeWithin, transcribeWithin, opens, captured]
      split
      · rw [← List.map_tail, group?_renumbered]
        cases group? token rest.tail with
        | error fault => rfl
        | ok group =>
          rcases group with ⟨tokens, separator, after⟩
          have rounds (count : Nat) := mapM_except_map
            (fun round => ih tokens (path ++ [round])) (List.range count)
          simp only [Except.map, bind, Except.bind, Prod.map, roundCount_renumbered, ih after]
          cases roundCount setting token tokens path with
          | error fault => rfl
          | ok count =>
            simp only [rounds]
            cases (List.range count).mapM
                (fun round => transcribeWithin setting bound tokens (path ++ [round])) with
            | error fault => rfl
            | ok rounds =>
              simp only [Except.map]
              cases transcribeWithin setting bound after path with
              | error fault => rfl
              | ok later => simp [joinRounds_renumbered]
      · simp only [ih rest]
        cases token.captureName? with
        | none =>
          cases transcribeWithin setting bound rest path with
          | error fault
          | ok later => rfl
        | some name =>
          simp only [substitute_renumbered]
          cases substitute setting name token path with
          | error fault => rfl
          | ok here =>
            cases transcribeWithin setting bound rest path with
            | error fault => rfl
            | ok later => simp [Except.map, bind, Except.bind]

theorem transcribe_renumbered (macroName : String) (bindings : Bindings) (template : List Token) :
    transcribe macroName (r.bindings bindings) (template.map r.token) =
      (transcribe macroName bindings template).map (List.map r.placed) := by
  rw [transcribe, transcribe, List.length_map]
  exact transcribeWithin_renumbered r ⟨macroName, bindings⟩ _ template []

/-! ## The vocabulary of transcripts -/

/-- A transcript of a template and of arguments of the vocabulary is of the vocabulary. -/
theorem covers_transcribe {v : Vocabulary} {call : Invocation} {macroName : String}
    {bindings : Bindings} (known : BindingsFrom call bindings) {template : List Token}
    (callCovered : v.Covers call.tokens) (templateCovered : v.Covers template)
    {transcript : List Placed} (run : transcribe macroName bindings template = .ok transcript) :
    v.Covers (transcript.map Prod.fst) := by
  intro token mem
  obtain ⟨⟨placed, origin⟩, placedMem, rfl⟩ := List.mem_map.mp mem
  have source := placedFrom_transcribe known run _ placedMem
  cases origin with
  | body => exact templateCovered placed source
  | invocation =>
    obtain ⟨token, newline, fromCall, rfl⟩ := source
    apply v.replaced
    rcases fromCall with inCall | ⟨text, place, -, rfl⟩
    · exact callCovered token inCall
    · exact v.synthetic text place

end Transcript

end MacroScript
