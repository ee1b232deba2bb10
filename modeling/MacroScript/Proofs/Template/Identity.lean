import MacroScript.Proofs.Template.Evaluation
import MacroScript.Proofs.Template.Pattern

/-!
# Identity templates

The identity template of a pattern is the pattern itself, with `$name` for every variable.
Its parts follow the elements of the pattern, if the pattern is one that can be read from a
source.

Matching loses and duplicates nothing.  The transcript of the identity template, with the
bindings of a match, spells the arguments of the call, with parentheses around captured
expressions.
-/

namespace MacroScript

open MacroScript.Outcome MacroScript.Matching MacroScript.Transcript

/-! ## Patterns as templates -/

mutual

/-- The tokens of a pattern element, without the kinds of its variables. -/
def PatternElement.identity : PatternElement → List Token
  | .token token => [token]
  | .capture name _ span => [placeholderAt name span]
  | .repetition content separator span =>
    dollarAt span :: .synthetic "(" (dollarAt span) :: (Pattern.identity content ++
      [.synthetic ")" (dollarAt span), separator])

/-- The identity template of a pattern. -/
def Pattern.identity : List PatternElement → List Token
  | [] => []
  | element :: rest => element.identity ++ Pattern.identity rest

end

mutual

/-- A pattern element as a part of a template. -/
def PatternElement.node : PatternElement → Template.Node
  | .token token => .plain token
  | .capture name _ span => .reference name (placeholderAt name span)
  | .repetition content separator span =>
    .group (dollarAt span) (Pattern.nodes content) separator

/-- A pattern as the parts of a template. -/
def Pattern.nodes : List PatternElement → List Template.Node
  | [] => []
  | element :: rest => element.node :: Pattern.nodes rest

end

/-! ## Identity templates can be read -/

/-- A separator that is neither a bracket nor a variable. -/
def Token.Separates (token : Token) : Prop :=
  token.Flat ∧ token.captureName? = none

namespace Pattern

variable {depth : Nat} {inner : List String} {elements : List PatternElement}

theorem forall_mem_groups_repetition {property : PatternGroup → Prop}
    {content rest : List PatternElement} {separator : Token} {span : Span} :
    (∀ group ∈ groups depth (.repetition content separator span :: rest), property group) ↔
      property ⟨depth, content, separator⟩ ∧
        (∀ group ∈ groups (depth + 1) content, property group) ∧
          ∀ group ∈ groups depth rest, property group := by
  simp only [groups, PatternElement.groups, List.cons_append, List.forall_mem_cons,
    List.forall_mem_append]

/-- A token that starts no group does not start one in the identity template either. -/
theorem startsGroup_identity {token : Token}
    (alone : token.isWord "$" = true → (flatten elements).head? ≠ some (.punct, "(")) :
    Template.startsGroup token (identity elements) = false := by
  rw [Bool.eq_false_iff]
  intro starts
  rw [Template.startsGroup, Bool.and_eq_true] at starts
  apply alone starts.1
  cases elements with
  | nil => simp [identity] at starts
  | cons element rest =>
    cases element with
    | token other =>
      simpa [flatten, PatternElement.flatten, identity, PatternElement.identity,
        Token.isPunct_iff_spelling] using starts.2
    | capture name kind span
    | repetition content separator span =>
      simp [identity, PatternElement.identity, placeholderAt, dollarAt, Token.isPunct] at starts

theorem Written.within (written : Written inner elements)
    (separates : ∀ group ∈ groups depth elements, group.separator.Separates) :
    Balanced.Within inner (identity elements) := by
  induction written generalizing depth with
  | nil => exact .nil
  | token step _ _ _ ih =>
    have later := Balanced.within_iff_passes.mp (ih separates)
    exact Balanced.within_iff_passes.mpr (.cons step later)
  | capture _ _ ih => exact .plain rfl (Token.flat_of_isName rfl) (ih separates)
  | repetition inside notEnd _ insideIh ih =>
    obtain ⟨own, insideSeparates, restSeparates⟩ := forall_mem_groups_repetition.mp separates
    rw [identity, PatternElement.identity]
    simp only [List.cons_append, List.append_assoc, List.nil_append]
    refine .plain rfl (Token.flat_of_isName rfl) (.opening rfl ?_)
    exact (insideIh insideSeparates).append
      (.closing (by decide) rfl (.plain notEnd own.1 (ih restSeparates)))

theorem Written.reads (written : Written inner elements)
    (separates : ∀ group ∈ groups depth elements, group.separator.Separates) :
    Template.Reads (identity elements) (nodes elements) := by
  induction written generalizing depth with
  | nil => exact .nil
  | token _ ordinary alone _ ih => exact .plain (startsGroup_identity alone) ordinary (ih separates)
  | capture named _ ih => exact .reference named (ih separates)
  | repetition inside notEnd _ insideIh ih =>
    obtain ⟨own, insideSeparates, restSeparates⟩ := forall_mem_groups_repetition.mp separates
    rw [identity, PatternElement.identity]
    simp only [List.cons_append, List.append_assoc, List.nil_append]
    exact .group rfl rfl (inside.within insideSeparates) rfl (insideIh insideSeparates)
      (ih restSeparates)

/-- The identity template mentions the variables of the pattern. -/
theorem Written.mentioned (written : Written inner elements)
    (separates : ∀ group ∈ groups depth elements, group.separator.Separates) :
    Template.mentioned (nodes elements) = names elements := by
  have same := Token.filterMap_captureName?_congr (written.reads separates).map_spelling
  rw [Template.mentioned, same]
  clear same
  induction written generalizing depth with
  | nil => rfl
  | token _ ordinary _ _ ih =>
    simp [identity, PatternElement.identity, names_cons, PatternElement.captures, ordinary,
      ih separates]
  | capture named _ ih =>
    simp [identity, PatternElement.identity, names_cons, PatternElement.captures, named,
      ih separates]
  | @repetition inner content rest separator span inside notEnd _ insideIh ih =>
    obtain ⟨own, insideSeparates, restSeparates⟩ := forall_mem_groups_repetition.mp separates
    have dollar := Template.captureName?_of_isDollar
      (show (dollarAt span).isWord "$" = true by rfl)
    have mark : ∀ text, (Token.synthetic text (dollarAt span)).captureName? = none := fun _ => rfl
    simp [identity, PatternElement.identity, names_cons, PatternElement.captures, map_captures,
      dollar, mark, own.2, insideIh insideSeparates, ih restSeparates]

end Pattern

/-! ## Evaluating identity templates -/

namespace Matching

/-- The classes and texts of pieces as they are bound. -/
def spelled (pieces : List Piece) : List (TokenKind × String) :=
  (pieces.flatMap Piece.bound).map Token.spelling

theorem spelled_append (first second : List Piece) :
    spelled (first ++ second) = spelled first ++ spelled second := by
  simp [spelled]

end Matching

namespace Transcript

/-- The classes and texts of a transcript. -/
def spelled (transcript : List Placed) : List (TokenKind × String) :=
  transcript.map (·.1.spelling)

theorem spelled_append (first second : List Placed) :
    spelled (first ++ second) = spelled first ++ spelled second := by
  simp [spelled]

/-- Captured tokens keep their classes and texts. -/
theorem spelled_inPlace (placeholder : Token) (tokens : List Token) :
    spelled (inPlace placeholder tokens) = tokens.map Token.spelling := by
  cases tokens with
  | nil => rfl
  | cons first rest => simp [spelled, inPlace, Token.spelling]

/-- Copies of the rounds of a group, with separators in between, spell the pieces of the group. -/
theorem spelled_intercalate {separator : Token} {rounds : List (List Piece)}
    {pieces : List Piece} (joined : Joined separator rounds pieces) {copies : List (List Placed)}
    (copied : copies.map spelled = rounds.map Matching.spelled) :
    spelled (List.intercalate [(separator, .body)] copies) = Matching.spelled pieces := by
  induction joined generalizing copies with
  | nil =>
    rw [List.map_nil, List.map_eq_nil_iff] at copied
    rw [copied]
    rfl
  | last round =>
    obtain ⟨copy, rfl, same⟩ := List.map_eq_singleton_iff.mp copied
    rw [List.intercalate_singleton, same]
  | @cons round pieces rounds token another same later ih =>
    obtain ⟨copy, others, rfl, copy_eq, others_eq⟩ := List.map_eq_cons_iff.mp copied
    cases others with
    | nil => exact absurd (List.map_eq_nil_iff.mp others_eq.symm) another
    | cons next following =>
      rw [List.intercalate_cons_cons, spelled_append, spelled_append, ih others_eq, copy_eq,
        Matching.spelled_append, List.append_assoc]
      simp [spelled, Matching.spelled, Piece.bound, Token.sameAs_iff.mp same]

end Transcript

namespace Template

variable {setting : Setting} {path : List Nat}

theorem exists_mapM_eq_ok {α β ε : Type} {action : α → Except ε β} {related : α → β → Prop}
    {inputs : List α}
    (each : ∀ input ∈ inputs, ∃ value, action input = .ok value ∧ related input value) :
    ∃ values, inputs.mapM action = .ok values ∧ List.Forall₂ related inputs values := by
  induction inputs with
  | nil => exact ⟨[], rfl, .nil⟩
  | cons input rest ih =>
    obtain ⟨⟨value, run, known⟩, later⟩ := List.forall_mem_cons.mp each
    obtain ⟨values, restRun, allKnown⟩ := ih later
    refine ⟨value :: values, ?_, .cons known allKnown⟩
    rw [List.mapM_cons, run, restRun]
    rfl

/-- Parts of a template evaluate to a copy of pieces, up to the places of the tokens. -/
def Copies (setting : Setting) (path : List Nat) (nodes : List Node) (pieces : List Piece) : Prop :=
  ∃ transcript, evaluate setting path nodes = .ok transcript ∧
    Transcript.spelled transcript = Matching.spelled pieces

theorem Copies.cons {node : Node} {rest : List Node} {here : List Placed}
    {first second : List Piece} (evaluated : evaluateNode setting path node = .ok here)
    (same : Transcript.spelled here = Matching.spelled first)
    (later : Copies setting path rest second) :
    Copies setting path (node :: rest) (first ++ second) := by
  obtain ⟨transcript, restEvaluated, restSame⟩ := later
  refine ⟨here ++ transcript, ?_, ?_⟩
  · rw [evaluate, evaluated, restEvaluated]
    rfl
  · rw [Transcript.spelled_append, Matching.spelled_append, same, restSame]

/-- Rounds that are copied one by one are copied together. -/
theorem exists_copies {nodes : List Node} {rounds : List (List Piece)}
    (each : ∀ number round, rounds[number]? = some round →
      Copies setting (path ++ [number]) nodes round) :
    ∃ copies, (List.range rounds.length).mapM
        (fun number => evaluate setting (path ++ [number]) nodes) = .ok copies ∧
      copies.map Transcript.spelled = rounds.map Matching.spelled := by
  have single : ∀ number ∈ List.range rounds.length, ∃ copy,
      evaluate setting (path ++ [number]) nodes = .ok copy ∧
        some (Transcript.spelled copy) = rounds[number]?.map Matching.spelled := by
    intro number mem
    have found := List.getElem?_eq_getElem (List.mem_range.mp mem)
    obtain ⟨copy, evaluated, same⟩ := each number _ found
    exact ⟨copy, evaluated, by rw [found, Option.map_some, same]⟩
  obtain ⟨copies, run, related⟩ := exists_mapM_eq_ok single
  refine ⟨copies, run, ?_⟩
  have length := related.length_eq
  rw [List.length_range] at length
  apply List.ext_getElem?
  intro number
  by_cases inside : number < rounds.length
  · have inCopies : number < copies.length := length ▸ inside
    have same := related.get (by simpa using inside) inCopies
    simp only [List.get_eq_getElem, List.getElem_range] at same
    rw [List.getElem?_map, List.getElem?_map, ← same, List.getElem?_eq_getElem inCopies,
      Option.map_some]
  · rw [List.getElem?_eq_none (by simp; omega), List.getElem?_eq_none (by simp; omega)]

end Template

namespace Pattern

open Template

/-- The path leads from the fragments of the bindings to those of an instance. -/
def Leads (setting : Setting) (path : List Nat) (fragments : String → Option Fragment)
    (captures : List (String × Nat)) : Prop :=
  ∀ capture ∈ captures, ∃ binding, setting.bindings.get? capture.1 = some binding ∧
    binding.depth = capture.2 ∧ binding.fragment.follow? path = fragments capture.1

section Leads

variable {setting : Setting} {path : List Nat} {fragments : String → Option Fragment}

theorem Leads.cons {element : PatternElement} {rest : List PatternElement} {depth : Nat}
    (leads : Leads setting path fragments (captures depth (element :: rest))) :
    Leads setting path fragments (element.captures depth) ∧
      Leads setting path fragments (captures depth rest) := by
  rw [captures] at leads
  exact List.forall_mem_append.mp leads

/-- The path of a round leads to one occurrence of every variable of the group. -/
theorem Leads.round {captures : List (String × Nat)} (leads : Leads setting path fragments captures)
    (number : Nat) :
    Leads setting (path ++ [number]) (fun name => (fragments name).bind (Fragment.follow? [number]))
      captures := by
  intro capture mem
  obtain ⟨binding, bound, depth, followed⟩ := leads capture mem
  exact ⟨binding, bound, depth, by rw [Fragment.follow?_append, followed]⟩

/-- The variables of a group have as many occurrences as there are rounds. -/
theorem Leads.commonCount_eq {content : List PatternElement} {dollar : Token} {count : Nat}
    (leads : Leads setting path fragments (captures (path.length + 1) content))
    (mentioned : Template.mentioned (nodes content) = names content) (repeats : names content ≠ [])
    (counted : ∀ name ∈ names content, ∃ occurrences,
      fragments name = some (.repeated occurrences) ∧ occurrences.length = count) :
    commonCount setting path dollar (nodes content) = .ok count := by
  have each : ∀ name ∈ names content,
      ((setting.bindings.get? name).filter (path.length < ·.depth)).map (fun binding =>
        (name, ((binding.fragment.follow? path).bind Fragment.occurrences?).getD 0)) =
          some (name, count) := by
    intro name mem
    rw [← map_captures content (path.length + 1)] at mem
    obtain ⟨capture, captureMem, rfl⟩ := List.mem_map.mp mem
    obtain ⟨binding, bound, depth, followed⟩ := leads capture captureMem
    obtain ⟨occurrences, found, length⟩ := counted capture.1 (by
      rw [← map_captures content (path.length + 1)]
      exact mem)
    have deeper : path.length < binding.depth := by
      rw [depth]
      exact le_of_mem_captures captureMem
    simp [bound, deeper, followed, found, Fragment.occurrences?, length]
  have all : counts setting.bindings path (names content) =
      (names content).map fun name => (name, count) := by
    rw [counts, ← List.filterMap_eq_map]
    exact List.filterMap_congr each
  rw [commonCount_eq_ok_iff, mentioned, all]
  exact ⟨by simpa using repeats, by simp⟩

/-- What a variable captured is copied in its place. -/
theorem Leads.evaluateNode_capture {name : String} {kind : CaptureKind} {span : Span}
    {tokens : List Token}
    (leads : Leads setting path fragments ((PatternElement.capture name kind span).captures
      path.length))
    (found : fragments name = some (.tokens tokens)) :
    evaluateNode setting path (.reference name (placeholderAt name span)) =
      .ok (inPlace (placeholderAt name span) tokens) := by
  obtain ⟨binding, bound, depth, followed⟩ := leads (name, path.length) (by
    simp [PatternElement.captures])
  rw [evaluateNode, bound]
  simp [depth, captured, followed, found, Fragment.tokens?]

end Leads

/-- The identity template of a pattern copies every instance of the pattern. -/
theorem Written.copies {setting : Setting} {inner : List String} {elements : List PatternElement}
    (written : Written inner elements) {depth : Nat}
    (separates : ∀ group ∈ groups depth elements, group.separator.Separates)
    (repeats : ∀ group ∈ groups depth elements, names group.content ≠ [])
    {path : List Nat} {fragments : String → Option Fragment} {pieces : List Piece}
    (made : Instance fragments elements pieces)
    (leads : Leads setting path fragments (captures path.length elements)) :
    Copies setting path (nodes elements) pieces := by
  induction written generalizing depth path fragments pieces with
  | nil =>
    obtain rfl : pieces = [] := made
    exact ⟨[], rfl, rfl⟩
  | token _ _ _ _ ih =>
    simp only [Instance, PatternElement.Instance] at made
    obtain ⟨_, others, ⟨read, same, rfl⟩, restMade, rfl⟩ := made
    refine Copies.cons rfl ?_ (ih separates repeats restMade leads.cons.2)
    simp [Transcript.spelled, Matching.spelled, Piece.bound, Token.sameAs_iff.mp same]
  | @capture inner name kind span rest named _ ih =>
    simp only [Instance, PatternElement.Instance] at made
    obtain ⟨_, others, ⟨first, tokens, found, rfl⟩, restMade, rfl⟩ := made
    refine Copies.cons (leads.cons.1.evaluateNode_capture found) ?_
      (ih separates repeats restMade leads.cons.2)
    simp [Transcript.spelled_inPlace, Matching.spelled, Piece.bound]
  | @repetition inner content rest separator span inside notEnd _ insideIh ih =>
    obtain ⟨own, insideSeparates, restSeparates⟩ := forall_mem_groups_repetition.mp separates
    obtain ⟨ownRepeats, insideRepeats, restRepeats⟩ := forall_mem_groups_repetition.mp repeats
    obtain ⟨insideLeads, restLeads⟩ := leads.cons
    simp only [Instance, PatternElement.Instance] at made
    obtain ⟨_, others, ⟨rounds, joined, counted, each⟩, restMade, rfl⟩ := made
    rw [PatternElement.captures] at insideLeads
    have count : commonCount setting path (dollarAt span) (nodes content) = .ok rounds.length :=
      insideLeads.commonCount_eq (inside.mentioned insideSeparates) ownRepeats counted
    have roundCopies : ∀ number round, rounds[number]? = some round →
        Copies setting (path ++ [number]) (nodes content) round := by
      intro number round found
      apply insideIh insideSeparates insideRepeats (each number round found)
      rw [List.length_append, List.length_singleton]
      exact insideLeads.round number
    obtain ⟨copies, run, copied⟩ := exists_copies roundCopies
    refine Copies.cons ?_ (spelled_intercalate joined copied)
      (ih restSeparates restRepeats restMade restLeads)
    rw [PatternElement.node, evaluateNode, count]
    simp only [bind, Except.bind, run]

end Pattern

namespace Matching

/-- Entries with a key, an expression and any number of flags. -/
def entries : String :=
  "$( $key:ident = $value:expr, $( $flag:literal ) & ); done)"

end Matching

end MacroScript
