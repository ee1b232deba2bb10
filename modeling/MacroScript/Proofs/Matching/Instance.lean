import MacroScript.Proofs.Matching.Levels
import Mathlib.Data.List.Nodup

/-!
# Instances of patterns

A match cuts the arguments of a call into pieces: tokens that the pattern asks for, and runs
of tokens that its variables capture.  The pieces are an instance of the pattern, with the
bindings of the match as the meaning of the variables.  A group has a round of pieces for
every occurrence of its variables, and the pieces of a round are an instance of its content
with one occurrence of every variable.

A match of pattern elements adds exactly the variables of the elements, in order, and cuts
exactly the tokens that it reads.
-/

namespace MacroScript

open MacroScript.Outcome

namespace Matching

/-! ## Pieces -/

/-- A part of the arguments of a call, as a pattern sees it. -/
inductive Piece where
  /-- A token that the pattern asks for. -/
  | plain (token : Token)
  /-- The tokens that a variable of the given kind captures. -/
  | capture (kind : CaptureKind) (first : Token) (rest : List Token)
deriving Repr

namespace Piece

/-- The argument tokens of a piece. -/
def tokens : Piece → List Token
  | .plain token => [token]
  | .capture _ first rest => first :: rest

/-- The tokens of a piece as they are bound. -/
def bound : Piece → List Token
  | .plain token => [token]
  | .capture kind first rest => wrap kind first (first :: rest)

end Piece

/-- Rounds of pieces with a separator between any two of them. -/
inductive Joined (separator : Token) : List (List Piece) → List Piece → Prop
  | nil : Joined separator [] []
  | last (round : List Piece) : Joined separator [round] round
  | cons {round pieces : List Piece} {rounds : List (List Piece)} {token : Token}
      (another : rounds ≠ []) (same : token.sameAs separator = true)
      (later : Joined separator rounds pieces) :
      Joined separator (round :: rounds) (round ++ .plain token :: pieces)

end Matching

open Matching

/-! ## Variables -/

/-- The variables of a pattern. -/
def Pattern.names (elements : List PatternElement) : List String :=
  (Pattern.captures 0 elements).map Prod.fst

mutual

theorem PatternElement.map_fst_captures (element : PatternElement) (first second : Nat) :
    (element.captures first).map Prod.fst = (element.captures second).map Prod.fst := by
  cases element with
  | token token
  | capture name kind span => rfl
  | repetition content separator span =>
    exact Pattern.map_fst_captures content (first + 1) (second + 1)

/-- The depth of a pattern does not change its variables. -/
theorem Pattern.map_fst_captures (elements : List PatternElement) (first second : Nat) :
    (Pattern.captures first elements).map Prod.fst =
      (Pattern.captures second elements).map Prod.fst := by
  cases elements with
  | nil => rfl
  | cons element rest =>
    rw [Pattern.captures, Pattern.captures, List.map_append, List.map_append,
      PatternElement.map_fst_captures element first second,
      Pattern.map_fst_captures rest first second]

end

theorem Pattern.map_captures (elements : List PatternElement) (depth : Nat) :
    (Pattern.captures depth elements).map Prod.fst = Pattern.names elements :=
  Pattern.map_fst_captures elements depth 0

theorem Pattern.names_cons (element : PatternElement) (rest : List PatternElement) :
    Pattern.names (element :: rest) =
      (element.captures 0).map Prod.fst ++ Pattern.names rest := by
  rw [names, Pattern.captures, List.map_append, names]

/-! ## Instances -/

mutual

/-- The pieces are an instance of the element, with fragments for its variables. -/
def PatternElement.Instance (fragments : String → Option Fragment) :
    PatternElement → List Piece → Prop
  | .token expected, pieces =>
    ∃ token, token.sameAs expected = true ∧ pieces = [.plain token]
  | .capture name kind _, pieces =>
    ∃ first rest, fragments name = some (.tokens (wrap kind first (first :: rest))) ∧
      pieces = [.capture kind first rest]
  | .repetition content separator _, pieces =>
    ∃ rounds, Joined separator rounds pieces ∧
      (∀ name ∈ Pattern.names content, ∃ occurrences,
        fragments name = some (.repeated occurrences) ∧ occurrences.length = rounds.length) ∧
      ∀ number round, rounds[number]? = some round →
        Pattern.Instance (fun name => (fragments name).bind (Fragment.follow? [number]))
          content round

/-- The pieces are an instance of the pattern, with fragments for its variables. -/
def Pattern.Instance (fragments : String → Option Fragment) :
    List PatternElement → List Piece → Prop
  | [], pieces => pieces = []
  | element :: rest, pieces =>
    ∃ here later, element.Instance fragments here ∧ Pattern.Instance fragments rest later ∧
      pieces = here ++ later

end

mutual

theorem PatternElement.Instance.congr {fragments others : String → Option Fragment}
    {element : PatternElement} {pieces : List Piece} (made : element.Instance fragments pieces)
    (agree : ∀ name ∈ (element.captures 0).map Prod.fst, fragments name = others name) :
    element.Instance others pieces := by
  cases element with
  | token expected => simpa only [PatternElement.Instance] using made
  | capture name kind span =>
    simp only [PatternElement.Instance] at made ⊢
    rwa [← agree name (by simp [PatternElement.captures])]
  | repetition content separator span =>
    rw [PatternElement.captures, Pattern.map_captures] at agree
    simp only [PatternElement.Instance] at made ⊢
    obtain ⟨rounds, joined, counted, each⟩ := made
    refine ⟨rounds, joined, ?_, ?_⟩
    · intro name mem
      rw [← agree name mem]
      exact counted name mem
    · intro number round found
      apply Pattern.Instance.congr (each number round found)
      intro name mem
      rw [agree name mem]

/-- Only the fragments of the variables matter. -/
theorem Pattern.Instance.congr {fragments others : String → Option Fragment}
    {elements : List PatternElement} {pieces : List Piece}
    (made : Pattern.Instance fragments elements pieces)
    (agree : ∀ name ∈ Pattern.names elements, fragments name = others name) :
    Pattern.Instance others elements pieces := by
  cases elements with
  | nil => simpa only [Pattern.Instance] using made
  | cons element rest =>
    rw [Pattern.names_cons] at agree
    simp only [Pattern.Instance] at made ⊢
    obtain ⟨here, later, first, second, rfl⟩ := made
    refine ⟨here, later, ?_, ?_, rfl⟩
    · exact PatternElement.Instance.congr first fun name mem =>
        agree name (List.mem_append_left _ mem)
    · exact Pattern.Instance.congr second fun name mem =>
        agree name (List.mem_append_right _ mem)

end

/-! ## Bindings in order -/

namespace Bindings

variable {first second bindings : Bindings} {name : String} {binding : Binding}
  {iterations : List Bindings}

/-- The fragment of a variable. -/
def fragment? (bindings : Bindings) (name : String) : Option Fragment :=
  (bindings.get? name).map Binding.fragment

/-- The variables that are bound, each with its depth. -/
def signature (bindings : Bindings) : List (String × Nat) :=
  bindings.map fun entry => (entry.1, entry.2.depth)

theorem map_fst_signature (bindings : Bindings) :
    bindings.signature.map Prod.fst = bindings.map Prod.fst := by
  simp [signature]

theorem get?_append_left (mem : name ∈ first.map Prod.fst) :
    (first ++ second).get? name = first.get? name := by
  unfold get?
  rw [List.lookup_append]
  have present : first.lookup name ≠ none := by
    rw [ne_eq, List.lookup_eq_none_iff]
    intro absent
    obtain ⟨entry, entryMem, rfl⟩ := List.mem_map.mp mem
    simpa using absent entry entryMem
  obtain ⟨binding, found⟩ := Option.ne_none_iff_exists'.mp present
  rw [found, Option.some_or]

theorem get?_eq_none (absent : name ∉ bindings.map Prod.fst) : bindings.get? name = none := by
  rw [get?, List.lookup_eq_none_iff]
  intro entry mem
  rw [bne_iff_ne]
  rintro rfl
  exact absent (List.mem_map_of_mem mem)

theorem get?_append_right (absent : name ∉ first.map Prod.fst) :
    (first ++ second).get? name = second.get? name := by
  have missing := get?_eq_none absent
  unfold get? at *
  rw [List.lookup_append, missing, Option.none_or]

theorem exists_get?_of_mem (mem : name ∈ bindings.map Prod.fst) :
    ∃ binding, bindings.get? name = some binding := by
  apply Option.ne_none_iff_exists'.mp
  rw [get?, ne_eq, List.lookup_eq_none_iff]
  intro absent
  obtain ⟨entry, entryMem, rfl⟩ := List.mem_map.mp mem
  simpa using absent entry entryMem

theorem get?_of_mem (distinct : (bindings.map Prod.fst).Nodup) (mem : (name, binding) ∈ bindings) :
    bindings.get? name = some binding := by
  induction bindings with
  | nil => cases mem
  | cons entry rest ih =>
    rw [List.map_cons, List.nodup_cons] at distinct
    rcases List.mem_cons.mp mem with rfl | later
    · simp [get?]
    · have other : name ≠ entry.1 := by
        rintro rfl
        exact distinct.1 (List.mem_map.mpr ⟨_, later, rfl⟩)
      rw [get?, List.lookup_cons, beq_eq_false_iff_ne.mpr other]
      exact ih distinct.2 later

theorem bind?_eq_some_iff {extended : Bindings} :
    bindings.bind? name binding = some extended ↔
      name ∉ bindings.map Prod.fst ∧ extended = bindings ++ [(name, binding)] := by
  unfold bind?
  by_cases known : name ∈ bindings.map Prod.fst
  · obtain ⟨former, found⟩ := exists_get?_of_mem known
    simp [found, known]
  · rw [get?_eq_none known]
    simp only [Option.isSome_none, Bool.false_eq_true, if_false, Option.some.injEq, known,
      not_false_eq_true, true_and, eq_comm]

theorem nodup_append_singleton (fresh : name ∉ bindings.map Prod.fst)
    (distinct : (bindings.map Prod.fst).Nodup) :
    ((bindings ++ [(name, binding)]).map Prod.fst).Nodup := by
  rw [List.map_append, List.map_singleton, ← List.concat_eq_append]
  exact List.Nodup.concat fresh distinct

/-- Every variable of a group gets the occurrences that its rounds captured. -/
def ofRounds (iterations : List Bindings) (captures : List (String × Nat)) : Bindings :=
  captures.map fun capture => (capture.1, ⟨capture.2, .repeated (rounds iterations capture.1)⟩)

@[simp]
theorem signature_ofRounds (iterations : List Bindings) (captures : List (String × Nat)) :
    (ofRounds iterations captures).signature = captures := by
  simp [signature, ofRounds, Function.comp_def]

theorem fragment?_ofRounds {captures : List (String × Nat)} (mem : name ∈ captures.map Prod.fst) :
    (ofRounds iterations captures).fragment? name =
      some (.repeated (rounds iterations name)) := by
  induction captures with
  | nil => cases mem
  | cons capture rest ih =>
    obtain ⟨first, depth⟩ := capture
    unfold fragment? get? at *
    rw [ofRounds, List.map_cons, List.lookup_cons]
    by_cases same : name = first
    · simp [same]
    · rw [beq_eq_false_iff_ne.mpr same]
      apply ih
      rw [List.map_cons, List.mem_cons] at mem
      exact mem.resolve_left same

/-- A round of a group holds one occurrence of every variable. -/
theorem follow?_rounds {iteration : Bindings} {number : Nat}
    (found : iterations[number]? = some iteration) (mem : name ∈ iteration.map Prod.fst) :
    (Fragment.repeated (rounds iterations name)).follow? [number] = iteration.fragment? name := by
  obtain ⟨binding, bound⟩ := exists_get?_of_mem mem
  simp [Fragment.follow?, rounds, found, bound, fragment?]

end Bindings

/-! ## Matches -/

namespace Matching

open Bindings

variable {call : Invocation} {session after : Session} {iterations : List Bindings}
  {macroName : String} {bindings : Bindings}

/-- What a match of a pattern does: it cuts tokens into an instance of the pattern and binds the
variables of the pattern. -/
structure Matched (depth : Nat) (elements : List PatternElement) (before after : Progress)
    (pieces : List Piece) (own : Bindings) : Prop where
  tokens : before.1 = pieces.flatMap Piece.tokens ++ after.1
  bindings : after.2 = before.2 ++ own
  signature : own.signature = Pattern.captures depth elements
  distinct : (before.2.map Prod.fst).Nodup → (after.2.map Prod.fst).Nodup
  instantiated : Pattern.Instance own.fragment? elements pieces

namespace Matched

variable {depth : Nat} {before after : Progress} {pieces : List Piece} {span : Span}
  {rest : List Token} {extended : Bindings}

theorem nil (depth : Nat) (progress : Progress) : Matched depth [] progress progress [] [] where
  tokens := rfl
  bindings := (List.append_nil _).symm
  signature := rfl
  distinct := id
  instantiated := rfl

theorem map_fst {elements : List PatternElement} {own : Bindings}
    (matched : Matched depth elements before after pieces own) :
    own.map Prod.fst = Pattern.names elements := by
  rw [← map_fst_signature, matched.signature, Pattern.map_captures]

/-- Matches of the first element and of those behind it are a match of the pattern. -/
theorem cons {element : PatternElement} {rest : List PatternElement} {middle : Progress}
    {here later : List Piece} {first second : Bindings}
    (one : Matched depth [element] before middle here first)
    (two : Matched depth rest middle after later second) (distinct :
    (before.2.map Prod.fst).Nodup) :
    Matched depth (element :: rest) before after (here ++ later) (first ++ second) where
  tokens := by rw [one.tokens, two.tokens, List.flatMap_append, List.append_assoc]
  bindings := by rw [two.bindings, one.bindings, List.append_assoc]
  signature := by
    have own := one.signature
    rw [Pattern.captures, Pattern.captures, List.append_nil] at own
    have others := two.signature
    rw [Bindings.signature, List.map_append, Pattern.captures, ← own, ← others]
    rfl
  distinct := two.distinct ∘ one.distinct
  instantiated := by
    have apart : (first.map Prod.fst).Disjoint (second.map Prod.fst) := by
      have all := two.distinct (one.distinct distinct)
      rw [two.bindings, one.bindings, List.append_assoc, List.map_append, List.map_append] at all
      exact List.disjoint_of_nodup_append (List.Nodup.of_append_right all)
    have own := one.instantiated
    simp only [Pattern.Instance] at own ⊢
    obtain ⟨pieces, _, made, rfl, rfl⟩ := own
    rw [List.append_nil]
    refine ⟨pieces, later, ?_, ?_, rfl⟩
    · apply made.congr
      intro name mem
      have known : name ∈ first.map Prod.fst := by
        rw [one.map_fst, Pattern.names_cons]
        exact List.mem_append_left _ mem
      rw [fragment?, fragment?, get?_append_left known]
    · apply two.instantiated.congr
      intro name mem
      have known : name ∈ second.map Prod.fst := by rwa [two.map_fst]
      rw [fragment?, fragment?, get?_append_right fun both => apart both known]

/-- A token that the pattern asks for. -/
theorem token {depth : Nat} {token expected : Token} {rest : List Token} {bindings : Bindings}
    (same : token.sameAs expected = true) :
    Matched depth [.token expected] (token :: rest, bindings) (rest, bindings) [.plain token] []
    where
  tokens := rfl
  bindings := (List.append_nil _).symm
  signature := rfl
  distinct := id
  instantiated := by
    simp only [Pattern.Instance, PatternElement.Instance]
    exact ⟨_, [], ⟨token, same, rfl⟩, rfl, rfl⟩

/-- A variable that is bound to captured tokens. -/
theorem capture {name : String} {kind : CaptureKind} {first : Token} {others : List Token}
    (bound : bindings.bind? name ⟨depth, .tokens (wrap kind first (first :: others))⟩ =
      some extended) :
    Matched depth [.capture name kind span] (first :: others ++ rest, bindings) (rest, extended)
      [.capture kind first others]
      [(name, ⟨depth, .tokens (wrap kind first (first :: others))⟩)] := by
  obtain ⟨fresh, rfl⟩ := bind?_eq_some_iff.mp bound
  refine ⟨by simp [Piece.tokens], rfl, rfl, nodup_append_singleton fresh, ?_⟩
  simp only [Pattern.Instance, PatternElement.Instance]
  exact ⟨_, [], ⟨first, others, by simp [fragment?, get?], rfl⟩, rfl, rfl⟩

/-- The rounds of a group, each matched on its own. -/
theorem repetition {content : List PatternElement} {separator : Token} {tokens : List Token}
    {iterations : List Bindings} {rounds : List (List Piece)}
    (joined : Joined separator rounds pieces) (split : tokens = pieces.flatMap Piece.tokens ++ rest)
    (cuts : List.Forall₂
      (fun iteration round => iteration.map Prod.fst = Pattern.names content ∧
        Pattern.Instance iteration.fragment? content round) iterations rounds)
    (extension : extended = bindings ++ ofRounds iterations (Pattern.captures (depth + 1) content))
    (distinct : (bindings.map Prod.fst).Nodup → (extended.map Prod.fst).Nodup) :
    Matched depth [.repetition content separator span] (tokens, bindings) (rest, extended) pieces
      (ofRounds iterations (Pattern.captures (depth + 1) content)) := by
  refine ⟨split, extension, ?_, distinct, ?_⟩
  · rw [signature_ofRounds, Pattern.captures, Pattern.captures, PatternElement.captures,
      List.append_nil]
  have bound : ∀ name ∈ Pattern.names content,
      (ofRounds iterations (Pattern.captures (depth + 1) content)).fragment? name =
        some (.repeated (Bindings.rounds iterations name)) := by
    intro name mem
    apply fragment?_ofRounds
    rwa [Pattern.map_captures]
  simp only [Pattern.Instance, PatternElement.Instance]
  refine ⟨pieces, [], ⟨rounds, joined, ?_, ?_⟩, rfl, (List.append_nil _).symm⟩
  · intro name mem
    refine ⟨_, bound name mem, ?_⟩
    rw [Bindings.rounds, List.length_map, cuts.length_eq]
  · intro number round found
    obtain ⟨inside, rfl⟩ := List.getElem?_eq_some_iff.mp found
    have iterationInside : number < iterations.length := cuts.length_eq ▸ inside
    obtain ⟨names, made⟩ := cuts.get iterationInside inside
    apply made.congr
    intro name mem
    rw [bound name mem, Option.bind_some,
      follow?_rounds (List.getElem?_eq_getElem iterationInside) (names ▸ mem)]
    rfl

end Matched

/-! ### Captures -/

theorem capture_eq_ok {kind : CaptureKind} {tokens captured rest : List Token}
    (run : capture call kind tokens session = .ok (some (captured, rest)) after) :
    ∃ first others, tokens = first :: others ++ rest ∧
      captured = wrap kind first (first :: others) := by
  cases tokens with
  | nil => cases run
  | cons first others =>
    have single : ∀ {test : Bool}, (pure (if test then some ([first], others) else none) :
        SessionM (Option (List Token × List Token))) session =
          .ok (some (captured, rest)) after → captured = [first] ∧ others = rest := by
      intro test answer
      rw [pure_eq_ok_iff] at answer
      cases test with
      | false => simp at answer
      | true =>
        simp only [if_true, Option.some.injEq, Prod.mk.injEq] at answer
        exact ⟨answer.1.1.symm, answer.1.2⟩
    have parsed : ∀ {kind : CaptureKind},
        captureParsed call kind first (first :: others) session =
          .ok (some (captured, rest)) after →
        ∃ first' others', first :: others = first' :: others' ++ rest ∧
          captured = wrap kind first' (first' :: others') := by
      intro kind answer
      unfold captureParsed at answer
      split at answer
      · cases answer
      · rename_i state after' read
        cases consumed : state.cursor.index with
        | zero => simp [consumed] at answer
        | succ count =>
          simp only [consumed, Nat.succ_ne_zero, if_false, EStateM.Result.ok.injEq,
            Option.some.injEq, Prod.mk.injEq] at answer
          obtain ⟨⟨rfl, rfl⟩, -⟩ := answer
          refine ⟨first, others.take count, ?_, by rw [List.take_succ_cons]⟩
          rw [List.drop_succ_cons, List.cons_append, List.take_append_drop]
    unfold capture at run
    cases kind with
    | literal
    | ident =>
      obtain ⟨rfl, rfl⟩ := single run
      exact ⟨first, [], rfl, rfl⟩
    | expr
    | stmt => exact parsed run

/-! ### Groups -/

/-- The rounds of a group are cut one after the other. -/
theorem iterate_eq_ok {matchRound : List Token → SessionM (Option Progress)} {separator : Token}
    {cut : Bindings → List Piece → Prop} (round : ∀ {tokens rest bindings session after},
      matchRound tokens session = .ok (some (rest, bindings)) after →
        ∃ pieces, tokens = pieces.flatMap Piece.tokens ++ rest ∧ cut bindings pieces) {bound : Nat}
    {tokens left : List Token}
    (run : iterate matchRound separator bound tokens session = .ok (iterations, left) after) :
    ∃ rounds pieces, Joined separator rounds pieces ∧
      tokens = pieces.flatMap Piece.tokens ++ left ∧ List.Forall₂ cut iterations rounds := by
  induction bound generalizing tokens left iterations session after with
  | zero =>
    rw [iterate, pure_eq_ok_iff] at run
    cases run.1
    exact ⟨[], [], .nil, rfl, .nil⟩
  | succ bound ih =>
    simp only [iterate, bind_eq_ok_iff] at run
    obtain ⟨found, middle, matchRun, run⟩ := run
    match found, matchRun with
    | none, _ =>
      rw [pure_eq_ok_iff] at run
      cases run.1
      exact ⟨[], [], .nil, rfl, .nil⟩
    | some ([], bindings), matchRun =>
      rw [pure_eq_ok_iff] at run
      cases run.1
      obtain ⟨pieces, split, made⟩ := round matchRun
      exact ⟨[pieces], pieces, .last pieces, split, .cons made .nil⟩
    | some (next :: rest, bindings), matchRun =>
      obtain ⟨pieces, split, made⟩ := round matchRun
      have alone : ∃ rounds pieces, Joined separator rounds pieces ∧
          tokens = pieces.flatMap Piece.tokens ++ next :: rest ∧
            List.Forall₂ cut [bindings] rounds :=
        ⟨[pieces], pieces, .last pieces, split, .cons made .nil⟩
      simp only at run
      split at run
      · rename_i same
        rw [bind_eq_ok_iff] at run
        obtain ⟨⟨later, unread⟩, last, laterRun, run⟩ := run
        obtain ⟨rounds, others, joined, laterSplit, cuts⟩ := ih laterRun
        cases later with
        | nil =>
          rw [pure_eq_ok_iff] at run
          cases run.1
          exact alone
        | cons second following =>
          rw [pure_eq_ok_iff] at run
          cases run.1
          refine ⟨pieces :: rounds, pieces ++ .plain next :: others, .cons ?_ same joined, ?_,
            .cons made cuts⟩
          · rintro rfl
            cases cuts
          · rw [split, laterSplit]
            simp [Piece.tokens]
      · rw [pure_eq_ok_iff] at run
        cases run.1
        exact alone

variable {span : Span} {captures : List (String × Nat)} {extended : Bindings}

/-- The variables of a group are bound exactly if they are new and differ from each other. -/
theorem bindRounds_eq_ok_iff :
    bindRounds macroName span iterations captures bindings = .ok extended ↔
      (captures.map Prod.fst).Nodup ∧
        (∀ name ∈ captures.map Prod.fst, name ∉ bindings.map Prod.fst) ∧
          extended = bindings ++ ofRounds iterations captures := by
  induction captures generalizing bindings with
  | nil => simp [bindRounds, ofRounds, eq_comm]
  | cons capture rest ih =>
    obtain ⟨name, depth⟩ := capture
    rw [bindRounds]
    cases bound : bindings.bind? name ⟨depth, .repeated (rounds iterations name)⟩ with
    | none =>
      have known : name ∈ bindings.map Prod.fst := by
        by_contra fresh
        rw [bind?_eq_some_iff.mpr ⟨fresh, rfl⟩] at bound
        cases bound
      simp only [reduceCtorEq, List.map_cons, List.forall_mem_cons, false_iff]
      exact fun all => all.2.1.1 known
    | some middle =>
      obtain ⟨fresh, rfl⟩ := bind?_eq_some_iff.mp bound
      simp only [ih, List.map_append, List.map_cons, List.map_nil, List.mem_append,
        List.mem_singleton, not_or, imp_and, forall_and, List.forall_mem_ne',
        List.nodup_cons, List.forall_mem_cons, fresh, not_false_eq_true, true_and, ofRounds,
        List.append_assoc, List.singleton_append]
      tauto

theorem bindRounds_eq_ok
    (run : bindRounds macroName span iterations captures bindings = .ok extended) :
    extended = bindings ++ ofRounds iterations captures ∧
      ((bindings.map Prod.fst).Nodup → (extended.map Prod.fst).Nodup) := by
  obtain ⟨distinct, fresh, rfl⟩ := bindRounds_eq_ok_iff.mp run
  refine ⟨rfl, fun before => ?_⟩
  have names : (ofRounds iterations captures).map Prod.fst = captures.map Prod.fst := by
    simp [ofRounds]
  rw [List.map_append, names]
  exact before.append distinct fun name old new => fresh name new old

/-! ### Patterns -/

mutual

theorem matched_matchElement {call : Invocation} {macroName : String} {depth : Nat}
    {element : PatternElement} {before after : Progress} {session last : Session}
    (run : matchElement call macroName depth element before session = .ok (some after) last) :
    ∃ pieces own, Matched depth [element] before after pieces own := by
  obtain ⟨tokens, bindings⟩ := before
  cases element with
  | token expected =>
    unfold matchElement at run
    cases tokens with
    | nil => cases run
    | cons token rest =>
      simp only [pure_eq_ok_iff] at run
      split at run
      · rename_i same
        cases run.1
        exact ⟨_, _, .token same⟩
      · cases run.1
  | capture name kind span =>
    simp only [matchElement, bind_eq_ok_iff] at run
    obtain ⟨found, middle, captureRun, run⟩ := run
    match found, captureRun with
    | none, _ => cases run
    | some (captured, rest), captureRun =>
      obtain ⟨first, others, rfl, rfl⟩ := capture_eq_ok captureRun
      cases bound : bindings.bind? name
          ⟨depth, .tokens (wrap kind first (first :: others))⟩ with
      | none =>
        simp only [bound] at run
        cases run
      | some extended =>
        simp only [bound] at run
        cases run
        exact ⟨_, _, .capture bound⟩
  | repetition content separator span =>
    simp only [matchElement, bind_eq_ok_iff] at run
    obtain ⟨⟨iterations, rest⟩, middle, iterateRun, run⟩ := run
    have round : ∀ {left rest bindings start stop},
        matchElements call macroName (depth + 1) content (left, []) start =
          .ok (some (rest, bindings)) stop →
        ∃ pieces, left = pieces.flatMap Piece.tokens ++ rest ∧
          bindings.map Prod.fst = Pattern.names content ∧
            Pattern.Instance bindings.fragment? content pieces := by
      intro left rest bindings start stop roundRun
      obtain ⟨pieces, own, matched⟩ := matched_matchElements roundRun List.nodup_nil
      obtain rfl : bindings = own := matched.bindings
      exact ⟨pieces, matched.tokens, matched.map_fst, matched.instantiated⟩
    obtain ⟨rounds, pieces, joined, split, cuts⟩ := iterate_eq_ok round iterateRun
    cases bound : bindRounds macroName span iterations (Pattern.captures (depth + 1) content)
        bindings with
    | error fault =>
      simp only [bound] at run
      cases run
    | ok extended =>
      simp only [bound] at run
      cases run
      obtain ⟨same, distinct⟩ := bindRounds_eq_ok bound
      exact ⟨pieces, _, .repetition joined split cuts same distinct⟩

/-- A match of pattern elements cuts what it reads into an instance of them. -/
theorem matched_matchElements {call : Invocation} {macroName : String} {depth : Nat}
    {elements : List PatternElement} {before after : Progress} {session last : Session}
    (run : matchElements call macroName depth elements before session = .ok (some after) last)
    (distinct : (before.2.map Prod.fst).Nodup) :
    ∃ pieces own, Matched depth elements before after pieces own := by
  cases elements with
  | nil =>
    rw [matchElements, pure_eq_ok_iff] at run
    cases run.1
    exact ⟨[], [], .nil depth before⟩
  | cons element rest =>
    simp only [matchElements, bind_eq_ok_iff] at run
    obtain ⟨found, middle, elementRun, run⟩ := run
    cases found with
    | none => cases run
    | some next =>
      obtain ⟨here, first, one⟩ := matched_matchElement elementRun
      obtain ⟨later, second, two⟩ := matched_matchElements run (one.distinct distinct)
      exact ⟨here ++ later, first ++ second, one.cons two distinct⟩

end

/-- A match of a whole pattern cuts all arguments of the call into an instance of the pattern, and
binds exactly the variables of the pattern, each of them once. -/
theorem matchPattern_eq_ok {pattern : Pattern}
    (run : matchPattern call macroName pattern session = .ok (some bindings) after) :
    bindings.signature = Pattern.captures 0 pattern ∧ (bindings.map Prod.fst).Nodup ∧
      ∃ pieces, call.tokens = pieces.flatMap Piece.tokens ∧
        Pattern.Instance bindings.fragment? pattern pieces := by
  simp only [matchPattern, bind_eq_ok_iff] at run
  obtain ⟨found, middle, elementsRun, run⟩ := run
  match found, elementsRun with
  | none, _ => cases run
  | some (next :: rest, _), _ => cases run
  | some ([], extended), elementsRun =>
    cases run
    obtain ⟨pieces, own, matched⟩ := matched_matchElements elementsRun List.nodup_nil
    obtain rfl : bindings = own := matched.bindings
    refine ⟨matched.signature, matched.distinct List.nodup_nil, pieces, ?_,
      matched.instantiated⟩
    exact matched.tokens.trans (List.append_nil _)

end Matching

end MacroScript
