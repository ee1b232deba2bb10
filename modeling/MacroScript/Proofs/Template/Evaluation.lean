import MacroScript.Proofs.Blame.Transcript
import MacroScript.Proofs.Matching.Shape
import MacroScript.Proofs.Template.Node

/-!
# Evaluating templates

The parts of a template are evaluated from left to right at a path of round numbers.  A
group is evaluated once for every occurrence, at the path, of the variables that it mentions
and that are bound deeper than the path, and its separator stands between two rounds.  These
variables must exist and agree.  A reference is replaced by what its variable captured, and
must be used at the depth of the variable.

With the bindings of a match, the transcript of a template is what its parts evaluate to.
When it fails, it does so at the first part, in the order of evaluation, that is at fault.
-/

namespace MacroScript

namespace Template

open MacroScript.Outcome MacroScript.Transcript

/-! ## Evaluation -/

/-- The variables that parts of a template mention, those of inner groups included. -/
def mentioned (nodes : List Node) : List String :=
  (tokens nodes).filterMap Token.captureName?

/-- The variables among the names that are bound deeper than the path, each with the number of
its occurrences there. -/
def counts (bindings : Bindings) (path : List Nat) (names : List String) : List (String × Nat) :=
  names.filterMap fun name =>
    ((bindings.get? name).filter (path.length < ·.depth)).map fun binding =>
      (name, ((binding.fragment.follow? path).bind Fragment.occurrences?).getD 0)

/-- The number of occurrences that all variables of a group have in common. -/
def commonCount (setting : Setting) (path : List Nat) (dollar : Token) (content : List Node) :
    Except Fault Nat :=
  match counts setting.bindings path (mentioned content) with
  | [] =>
    .error
      (.expansion setting.macroName dollar.span
        (.noRepeatedCapture (Token.render (tokens content))))
  | (first, count) :: others =>
    match others.find? (·.2 != count) with
    | none => .ok count
    | some (other, different) =>
      .error
        (.expansion setting.macroName dollar.span
          (.countMismatch first count other different))

/-- What a variable captured at a path. -/
def captured (binding : Binding) (path : List Nat) : List Token :=
  ((binding.fragment.follow? path).bind Fragment.tokens?).getD []

mutual

/-- What a part of a template becomes at a path. -/
def evaluateNode (setting : Setting) (path : List Nat) : Node → Except Fault (List Placed)
  | .plain token => .ok [(token, .body)]
  | .reference name placeholder =>
    match setting.bindings.get? name with
    | none => .error (.expansion setting.macroName placeholder.span (.unboundCapture name))
    | some binding =>
      if binding.depth = path.length then
        .ok (inPlace placeholder (captured binding path))
      else
        .error
          (.expansion setting.macroName placeholder.span
            (.depthMismatch name binding.depth path.length))
  | .group dollar content separator => do
    let count ← commonCount setting path dollar content
    let rounds ← (List.range count).mapM fun round =>
      evaluate setting (path ++ [round]) content
    .ok (List.intercalate [(separator, .body)] rounds)

/-- What the parts of a template become at a path. -/
def evaluate (setting : Setting) (path : List Nat) : List Node → Except Fault (List Placed)
  | [] => .ok []
  | node :: rest => do
    let here ← evaluateNode setting path node
    let later ← evaluate setting path rest
    .ok (here ++ later)

end

/-- Evaluating parts at a path comes to a part at a place: what stands before it has a value. -/
inductive Reached (setting : Setting) :
    (path : List Nat) → List Node → (place : List Nat) → Node → Prop
  | here {path : List Nat} {node : Node} {rest : List Node} :
      Reached setting path (node :: rest) path node
  | later {path place : List Nat} {first node : Node} {rest : List Node} {value : List Placed}
      (evaluated : evaluateNode setting path first = .ok value)
      (reached : Reached setting path rest place node) :
      Reached setting path (first :: rest) place node
  | inside {path place : List Nat} {node : Node} {content rest : List Node}
      {dollar separator : Token} {count round : Nat}
      (counted : commonCount setting path dollar content = .ok count) (inCount : round < count)
      (earlier : ∀ other < round, ∃ value, evaluate setting (path ++ [other]) content = .ok value)
      (reached : Reached setting (path ++ [round]) content place node) :
      Reached setting path (.group dollar content separator :: rest) place node

/-- A part that is at fault at a path. -/
inductive Faults (setting : Setting) (path : List Nat) : Node → Fault → Prop
  | unbound {name : String} {placeholder : Token} (free : setting.bindings.get? name = none) :
      Faults setting path (.reference name placeholder)
        (.expansion setting.macroName placeholder.span (.unboundCapture name))
  | misplaced {name : String} {placeholder : Token} {binding : Binding}
      (bound : setting.bindings.get? name = some binding)
      (elsewhere : binding.depth ≠ path.length) :
      Faults setting path (.reference name placeholder)
        (.expansion setting.macroName placeholder.span
          (.depthMismatch name binding.depth path.length))
  | uncounted {dollar separator : Token} {content : List Node}
      (none : counts setting.bindings path (mentioned content) = []) :
      Faults setting path (.group dollar content separator)
        (.expansion setting.macroName dollar.span
          (.noRepeatedCapture (Token.render (tokens content))))
  | disagreeing {dollar separator : Token} {content : List Node} {first other : String}
      {count different : Nat} {others : List (String × Nat)}
      (counted : counts setting.bindings path (mentioned content) = (first, count) :: others)
      (found : others.find? (·.2 != count) = some (other, different)) :
      Faults setting path (.group dollar content separator)
        (.expansion setting.macroName dollar.span
          (.countMismatch first count other different))

section Setting

variable {setting : Setting} {path : List Nat} {node : Node} {fault : Fault}
  {dollar separator : Token} {content nodes : List Node} {count : Nat} {name : String}
  {names : List String}

theorem Faults.kind (faults : Faults setting path node fault) : fault.cause.kind = .expansion := by
  cases faults <;> rfl

/-- A group has a number of rounds when its variables exist and agree. -/
theorem commonCount_eq_ok_iff :
    commonCount setting path dollar content = .ok count ↔
      counts setting.bindings path (mentioned content) ≠ [] ∧
        ∀ counted ∈ counts setting.bindings path (mentioned content), counted.2 = count := by
  unfold commonCount
  cases counts setting.bindings path (mentioned content) with
  | nil => simp
  | cons first others =>
    obtain ⟨name, number⟩ := first
    simp only [ne_eq, reduceCtorEq, not_false_eq_true, true_and, List.forall_mem_cons]
    cases found : others.find? (·.2 != number) with
    | none =>
      rw [List.find?_eq_none] at found
      simp only [Except.ok.injEq]
      constructor
      · rintro rfl
        exact ⟨rfl, fun counted mem => by simpa using found counted mem⟩
      · exact And.left
    | some different =>
      have differs := List.find?_some found
      have mem := List.mem_of_find?_eq_some found
      simp only [reduceCtorEq, false_iff, not_and]
      rintro rfl agree
      simp [agree different mem] at differs

theorem commonCount_eq_error_iff :
    commonCount setting path dollar content = .error fault ↔
      Faults setting path (.group dollar content separator) fault := by
  constructor
  · intro failed
    unfold commonCount at failed
    split at failed
    · cases failed
      exact .uncounted ‹_›
    · split at failed
      · cases failed
      · cases failed
        exact .disagreeing ‹_› ‹_›
  · intro faults
    cases faults with
    | uncounted none => simp [commonCount, none]
    | disagreeing counted found => simp [commonCount, counted, found]

/-! ## Rounds -/

theorem mapM_range_eq_error_iff {β ε : Type} {action : Nat → Except ε β} {fault : ε} :
    (List.range count).mapM action = .error fault ↔
      ∃ round < count, (∀ other < round, ∃ value, action other = .ok value) ∧
        action round = .error fault := by
  rw [mapM_eq_error_iff]
  constructor
  · rintro ⟨before, round, after, split, earlier, failed⟩
    have inCount : round < count := List.mem_range.mp (split ▸ by simp)
    refine ⟨round, inCount, ?_, failed⟩
    intro other smaller
    apply earlier
    have mem : other ∈ List.range count := List.mem_range.mpr (Nat.lt_trans smaller inCount)
    have ordered : (List.range count).Pairwise (· < ·) := List.pairwise_lt_range
    rw [split] at mem ordered
    rcases List.mem_append.mp mem with early | late
    · exact early
    · have behind := (List.pairwise_append.mp ordered).2.1
      rcases List.mem_cons.mp late with rfl | later
      · exact absurd smaller (Nat.lt_irrefl _)
      · exact absurd (List.rel_of_pairwise_cons behind later) (Nat.lt_asymm smaller)
  · rintro ⟨round, inCount, earlier, failed⟩
    obtain ⟨before, after, split⟩ := List.append_of_mem (List.mem_range.mpr inCount)
    refine ⟨before, round, after, split, ?_, failed⟩
    intro other mem
    have ordered : (List.range count).Pairwise (· < ·) := List.pairwise_lt_range
    rw [split, List.pairwise_append] at ordered
    exact earlier other (ordered.2.2 other mem round List.mem_cons_self)

/-! ## Where evaluation fails -/

/-- Evaluation fails at a part that is at fault or in a round of a group. -/
theorem evaluateNode_eq_error_iff :
    evaluateNode setting path node = .error fault ↔
      Faults setting path node fault ∨
        ∃ dollar content separator count round, node = .group dollar content separator ∧
          commonCount setting path dollar content = .ok count ∧ round < count ∧
          (∀ other < round, ∃ value, evaluate setting (path ++ [other]) content = .ok value) ∧
          evaluate setting (path ++ [round]) content = .error fault := by
  cases node with
  | plain token =>
    rw [evaluateNode]
    constructor
    · intro failed
      cases failed
    · rintro (faults | ⟨_, _, _, _, _, impossible, -⟩)
      · cases faults
      · cases impossible
  | reference name placeholder =>
    rw [evaluateNode]
    constructor
    · intro failed
      left
      split at failed
      · cases failed
        exact .unbound ‹_›
      · split at failed
        · cases failed
        · cases failed
          exact .misplaced ‹_› ‹_›
    · rintro (faults | ⟨_, _, _, _, _, impossible, -⟩)
      · cases faults with
        | unbound free => rw [free]
        | misplaced bound elsewhere => simp [bound, elsewhere]
      · cases impossible
  | group dollar content separator =>
    rw [evaluateNode, except_bind_eq_error_iff, commonCount_eq_error_iff]
    apply or_congr Iff.rfl
    constructor
    · rintro ⟨count, counted, failed⟩
      rcases except_bind_eq_error_iff.mp failed with roundFailed | ⟨_, -, impossible⟩
      · obtain ⟨round, inCount, earlier, failed⟩ := mapM_range_eq_error_iff.mp roundFailed
        exact ⟨dollar, content, separator, count, round, rfl, counted, inCount, earlier, failed⟩
      · cases impossible
    · rintro ⟨_, _, _, count, round, same, counted, inCount, earlier, failed⟩
      cases same
      have roundFailed := mapM_range_eq_error_iff.mpr ⟨round, inCount, earlier, failed⟩
      exact ⟨count, counted, except_bind_eq_error_iff.mpr (.inl roundFailed)⟩

theorem evaluate_cons_eq_error_iff {rest : List Node} :
    evaluate setting path (node :: rest) = .error fault ↔
      evaluateNode setting path node = .error fault ∨
        (∃ value, evaluateNode setting path node = .ok value) ∧
          evaluate setting path rest = .error fault := by
  rw [evaluate, except_bind_eq_error_iff]
  apply or_congr Iff.rfl
  constructor
  · rintro ⟨value, evaluated, failed⟩
    rcases except_bind_eq_error_iff.mp failed with restFailed | ⟨_, -, impossible⟩
    · exact ⟨⟨value, evaluated⟩, restFailed⟩
    · cases impossible
  · rintro ⟨⟨value, evaluated⟩, restFailed⟩
    exact ⟨value, evaluated, except_bind_eq_error_iff.mpr (.inl restFailed)⟩

/-- A part that is reached and at fault makes the evaluation fail. -/
theorem Reached.evaluate_eq_error {place : List Nat}
    (reached : Reached setting path nodes place node) (faults : Faults setting place node fault) :
    evaluate setting path nodes = .error fault := by
  induction reached with
  | here =>
    exact evaluate_cons_eq_error_iff.mpr (.inl (evaluateNode_eq_error_iff.mpr (.inl faults)))
  | later evaluated _ ih =>
    exact evaluate_cons_eq_error_iff.mpr (.inr ⟨⟨_, evaluated⟩, ih faults⟩)
  | inside counted inCount earlier _ ih =>
    exact evaluate_cons_eq_error_iff.mpr (.inl (evaluateNode_eq_error_iff.mpr
      (.inr ⟨_, _, _, _, _, rfl, counted, inCount, earlier, ih faults⟩)))

mutual

theorem exists_reached_of_node {path : List Nat} {node : Node} {fault : Fault}
    (failed : evaluateNode setting path node = .error fault) (rest : List Node) :
    ∃ place part, Reached setting path (node :: rest) place part ∧
      Faults setting place part fault := by
  rcases evaluateNode_eq_error_iff.mp failed with
    faults | ⟨dollar, content, separator, count, round, same, counted, inCount, earlier, fails⟩
  · exact ⟨path, node, .here, faults⟩
  · subst same
    obtain ⟨place, part, reached, faults⟩ := exists_reached fails
    exact ⟨place, part, .inside counted inCount earlier reached, faults⟩

/-- An evaluation that fails comes to a part that is at fault. -/
theorem exists_reached {path : List Nat} {nodes : List Node} {fault : Fault}
    (failed : evaluate setting path nodes = .error fault) :
    ∃ place part, Reached setting path nodes place part ∧ Faults setting place part fault := by
  cases nodes with
  | nil => cases failed
  | cons node rest =>
    rcases evaluate_cons_eq_error_iff.mp failed with nodeFailed | ⟨⟨value, evaluated⟩, failed⟩
    · exact exists_reached_of_node nodeFailed rest
    · obtain ⟨place, part, reached, faults⟩ := exists_reached failed
      exact ⟨place, part, .later evaluated reached, faults⟩

end

/-- Evaluation fails exactly where it comes to a part that is at fault. -/
theorem evaluate_eq_error_iff :
    evaluate setting path nodes = .error fault ↔
      ∃ place part, Reached setting path nodes place part ∧ Faults setting place part fault := by
  constructor
  · exact exists_reached
  · rintro ⟨place, part, reached, faults⟩
    exact reached.evaluate_eq_error faults

/-! ## Transcripts -/

theorem joinRounds_eq_intercalate (separator : Token) (rounds : List (List Placed)) :
    joinRounds separator rounds = List.intercalate [(separator, .body)] rounds := by
  induction rounds with
  | nil => rfl
  | cons round rest ih =>
    cases rest with
    | nil => simp [joinRounds]
    | cons next others =>
      rw [joinRounds, ih]
      · simp [List.intercalate]
      · simp

section

variable (leveled : setting.bindings.Leveled 0)
include leveled

/-- What stands for a `$name` token, where the path leads into the fragment of the variable. -/
theorem substitute_eq_evaluateNode {placeholder : Token} (reached : Follows setting path name) :
    substitute setting name placeholder path =
      evaluateNode setting path (.reference name placeholder) := by
  unfold substitute
  rw [evaluateNode]
  cases bound : setting.bindings.get? name with
  | none => rfl
  | some binding =>
    by_cases deep : binding.depth = path.length
    · obtain ⟨part, followed⟩ := reached binding bound (Nat.le_of_eq deep.symm)
      obtain ⟨left, depth_eq, uniform⟩ := (uniform_of_get? leveled bound).follow? followed
      obtain rfl : left = 0 := by omega
      obtain ⟨tokens, tokens_eq⟩ := uniform.exists_tokens
      simp [deep, followed, tokens_eq, captured]
    · simp [deep]

section

variable (reached : ∀ name ∈ names, Follows setting path name)
include reached

/-- The variables of a group are compared with the first of them. -/
theorem sharedCount_some_eq {first : String} :
    sharedCount setting dollar path (some (first, count)) names =
      ((counts setting.bindings path names).find? (·.2 != count)).elim (.ok (some (first, count)))
        fun other => .error (.expansion setting.macroName dollar.span
          (.countMismatch first count other.1 other.2)) := by
  induction names with
  | nil => rfl
  | cons name rest ih =>
    obtain ⟨here, later⟩ := List.forall_mem_cons.mp reached
    unfold sharedCount
    rcases deeper_cases leveled here with deep | ⟨binding, found, deep, counted⟩
    · simp only [deep, ih later, counts, List.filterMap_cons, Option.map_none]
    · simp only [deep, counted, ih later, counts, List.filterMap_cons, Option.map_some,
        Option.getD_some]
      by_cases same : count = found
      · simp [same]
      · simp [same, Ne.symm same]

theorem sharedCount_none_eq :
    (counts setting.bindings path names = [] ∧
        sharedCount setting dollar path none names = .ok none) ∨
      ∃ first count others, counts setting.bindings path names = (first, count) :: others ∧
        sharedCount setting dollar path none names =
          (others.find? (·.2 != count)).elim (.ok (some (first, count))) fun other =>
            .error (.expansion setting.macroName dollar.span
              (.countMismatch first count other.1 other.2)) := by
  induction names with
  | nil => exact .inl ⟨rfl, rfl⟩
  | cons name rest ih =>
    obtain ⟨here, later⟩ := List.forall_mem_cons.mp reached
    unfold sharedCount
    rcases deeper_cases leveled here with deep | ⟨binding, found, deep, counted⟩
    · simp only [deep, counts, List.filterMap_cons, Option.map_none]
      exact ih later
    · right
      simp only [deep, counted, counts, List.filterMap_cons, Option.map_some, Option.getD_some]
      exact ⟨name, found, _, rfl, sharedCount_some_eq leveled later⟩

end

/-- The rounds of a group are counted as in its parts. -/
theorem roundCount_eq_commonCount {group : List Token} (reads : Reads group content)
    (reaches : Reaches setting group path) :
    roundCount setting dollar group path = commonCount setting path dollar content := by
  have names : group.filterMap Token.captureName? = mentioned content :=
    (Token.filterMap_captureName?_congr reads.map_spelling).symm
  unfold roundCount commonCount
  rw [names, ← Token.render_congr reads.map_spelling]
  unfold Reaches at reaches
  rw [names] at reaches
  rcases sharedCount_none_eq leveled reaches with
    ⟨none, shared⟩ | ⟨first, count, others, counted, shared⟩
  · rw [none, shared]
    rfl
  · rw [counted, shared]
    cases found : others.find? (·.2 != count) with
    | none
    | some other =>
      simp only [found]
      rfl

end

theorem group?_eq_ok {closing : Token} {inside rest : List Token} (closed : Balanced.Closed inside)
    (closes : closing.isPunct ")" = true) :
    group? dollar (inside ++ closing :: separator :: rest) = .ok (inside, separator, rest) := by
  rw [group?, (Balanced.take_eq_closed_iff (by decide)).mpr ⟨closing, closes, closed, rfl⟩]

theorem mapM_congr {α β ε : Type} {one two : α → Except ε β} {inputs : List α}
    (same : ∀ input ∈ inputs, one input = two input) : inputs.mapM one = inputs.mapM two := by
  induction inputs with
  | nil => rfl
  | cons input rest ih =>
    obtain ⟨here, later⟩ := List.forall_mem_cons.mp same
    rw [List.mapM_cons, List.mapM_cons, here, ih later]

/-- The transcript of a template is what its parts evaluate to. -/
theorem transcribeWithin_eq_evaluate (leveled : setting.bindings.Leveled 0) {bound : Nat}
    {template : List Token} (reads : Reads template nodes) (reaches : Reaches setting template path)
    (enough : template.length ≤ bound) :
    transcribeWithin setting bound template path = evaluate setting path nodes := by
  induction reads generalizing bound path with
  | nil =>
    cases bound with
    | zero
    | succ bound => rfl
  | @plain token rest nodes alone ordinary later ih =>
    cases bound with
    | zero => simp at enough
    | succ bound =>
      have restReaches := reaches.subset (List.subset_cons_self token rest)
      have single : ¬(token.isWord "$" && rest.head?.any (·.isPunct "(")) = true := by
        rw [← startsGroup, alone]
        exact Bool.false_ne_true
      rw [transcribeWithin, if_neg single, evaluate, evaluateNode,
        ih restReaches (Nat.le_of_succ_le_succ enough), ordinary]
  | @reference token rest nodes name named later ih =>
    cases bound with
    | zero => simp at enough
    | succ bound =>
      have restReaches := reaches.subset (List.subset_cons_self token rest)
      have single : ¬(token.isWord "$" && rest.head?.any (·.isPunct "(")) = true := by
        rw [Bool.and_eq_true]
        rintro ⟨isDollar, -⟩
        rw [captureName?_of_isDollar isDollar] at named
        cases named
      have known : name ∈ (token :: rest).filterMap Token.captureName? :=
        List.mem_filterMap.mpr ⟨token, List.mem_cons_self, named⟩
      rw [transcribeWithin, if_neg single, evaluate,
        ← substitute_eq_evaluateNode leveled (reaches name known),
        ih restReaches (Nat.le_of_succ_le_succ enough), named]
  | @group dollar opening closing separator inside rest content nodes isDollar opens closed closes
      inner later innerIh ih =>
      simp only [List.length_cons, List.length_append] at enough
      cases bound with
      | zero => omega
      | succ bound =>
        have starts : (dollar.isWord "$" && (opening ::
            (inside ++ closing :: separator :: rest)).head?.any (·.isPunct "(")) = true :=
          startsGroup_cons.mpr ⟨isDollar, opens⟩
        have insideReaches : Reaches setting inside path :=
          reaches.subset fun token mem => by simp [mem]
        have restReaches : Reaches setting rest path :=
          reaches.subset fun token mem => by simp [mem]
        have behind : transcribeWithin setting bound rest path = evaluate setting path nodes :=
          ih restReaches (by omega)
        rw [transcribeWithin, if_pos starts, List.tail_cons, group?_eq_ok closed closes, evaluate,
          evaluateNode, ← roundCount_eq_commonCount leveled inner insideReaches]
        cases counted : roundCount setting dollar inside path with
        | error fault =>
          simp only [bind, Except.bind, counted]
        | ok count =>
          have rounds : (List.range count).mapM (fun round =>
              transcribeWithin setting bound inside (path ++ [round])) =
                (List.range count).mapM fun round =>
                  evaluate setting (path ++ [round]) content := by
            apply mapM_congr
            intro round mem
            exact innerIh (Reaches.round counted (List.mem_range.mp mem)) (by omega)
          simp only [bind, Except.bind, counted, rounds, behind, joinRounds_eq_intercalate]
          cases (List.range count).mapM fun round =>
            evaluate setting (path ++ [round]) content <;> rfl

end Setting

/-- With the bindings of a match, and for a template with balanced brackets in which every group
has its separator, the transcript is what the parts of the template evaluate to.  It fails
exactly where evaluation comes to a part that is at fault, and then the expansion is to
blame. -/
theorem transcribe_eq_evaluate {call : Invocation} {calledName macroName : String}
    {rules : List Rule} {session after : Session} {index : Nat} {rule : Rule} {bindings : Bindings}
    {template : List Token}
    (run : Matching.firstMatch call calledName 0 rules session =
      .ok (index, rule, bindings) after)
    (closed : Balanced.Closed template) (separated : ¬MissesSeparator template) :
    (∃ nodes, Reads template nodes) ∧
      ∀ nodes, Reads template nodes →
        transcribe macroName bindings template = evaluate ⟨macroName, bindings⟩ [] nodes ∧
        ∀ fault, transcribe macroName bindings template = .error fault ↔
          fault.cause.kind = .expansion ∧
            ∃ path node, Reached ⟨macroName, bindings⟩ [] nodes path node ∧
              Faults ⟨macroName, bindings⟩ path node fault := by
  obtain ⟨-, before, matched⟩ := Matching.firstMatch_eq_ok run
  have leveled := Matching.leveled_of_matchPattern matched
  refine ⟨(exists_reads_iff closed).mpr separated, ?_⟩
  intro nodes reads
  have same : transcribe macroName bindings template = evaluate ⟨macroName, bindings⟩ [] nodes := by
    apply transcribeWithin_eq_evaluate _ reads Reaches.nil (Nat.le_refl _)
    exact leveled
  refine ⟨same, ?_⟩
  intro fault
  rw [same, evaluate_eq_error_iff]
  constructor
  · rintro ⟨path, node, reached, faults⟩
    exact ⟨faults.kind, path, node, reached, faults⟩
  · exact And.right

/-- A name of a template. -/
def word (text : String) : Token :=
  { kind := .name, text, span := .nowhere }

/-- A punctuator of a template. -/
def mark (text : String) : Token :=
  .synthetic text default

/-- The template `$( $section $( $name = $value ) , ) ;`. -/
def listing : List Token :=
  [word "$", mark "(", word "$section", word "$", mark "(", word "$name", mark "=", word "$value",
    mark ")", mark ",", mark ")", mark ";"]

/-- The parts of the template. -/
def listingNodes : List Node :=
  [.group (word "$")
    [.reference "section" (word "$section"),
      .group (word "$")
        [.reference "name" (word "$name"), .plain (mark "="), .reference "value" (word "$value")]
        (mark ",")]
    (mark ";")]

theorem closed_of_take {tokens : List Token}
    (taken : Balanced.take ")" (tokens ++ [mark ")"]) = .closed tokens []) :
    Balanced.Closed tokens := by
  obtain ⟨close, -, closed, -⟩ := (Balanced.take_eq_closed_iff (by decide)).mp taken
  exact closed

theorem reads_listing : Reads listing listingNodes := by
  have inner : Reads [word "$name", mark "=", word "$value"]
      [.reference "name" (word "$name"), .plain (mark "="), .reference "value" (word "$value")] :=
    .reference rfl (.plain rfl rfl (.reference rfl .nil))
  have group : Reads (word "$" :: mark "(" :: ([word "$name", mark "=", word "$value"] ++
      mark ")" :: mark "," :: [])) _ :=
    .group rfl rfl (closed_of_take (by cbv)) rfl inner .nil
  exact .group rfl rfl (closed_of_take (by cbv)) rfl (.reference rfl group) .nil

theorem listing_evaluates :
    ∃ call macroName rules session index rule bindings after transcript,
      Matching.firstMatch call macroName 0 rules session = .ok (index, rule, bindings) after ∧
        evaluate ⟨"settings", bindings⟩ [] listingNodes = .ok transcript ∧
          Token.render (transcript.map Prod.fst) = "a x = 1 , y = 2 ; b" := by
  have evaluated : endsWith (fun program session => (session.macros.get? 0).any fun definition =>
      firstEndsWith (fun _ chosen _ =>
        (transcribe "settings" chosen.2.2 listing).toOption.any fun transcript =>
          Token.render (transcript.map Prod.fst) == "a x = 1 , y = 2 ; b")
        (Matching.firstMatch · definition.name 0 definition.rules)
        (Leaf.calls (Leaf.ofProgram program)) session)
      (Session.readProgram Matching.settings {}) = true := by
    decide +kernel
  obtain ⟨program, session, -, inner⟩ := exists_ok_of_endsWith evaluated
  obtain ⟨definition, -, matched⟩ := (Option.any_eq_true _ _).mp inner
  obtain ⟨call, -, ⟨index, rule, bindings⟩, after, -, run, passed⟩ :=
    exists_ok_of_firstEndsWith matched
  rw [Option.any_eq_true] at passed
  obtain ⟨transcript, found, rendered⟩ := passed
  have closed : Balanced.Closed listing := closed_of_take (by cbv)
  have separated := (exists_reads_iff closed).mp ⟨_, reads_listing⟩
  have same : transcribe "settings" bindings listing =
      evaluate ⟨"settings", bindings⟩ [] listingNodes :=
    ((transcribe_eq_evaluate run closed separated).2 _ reads_listing).1
  rw [toOption_eq_some_iff, same] at found
  exact ⟨call, _, _, session, index, rule, bindings, after, transcript, run, found,
    beq_iff_eq.mp rendered⟩

end Template

end MacroScript
