import MacroScript.Proofs.Matching.Instance

/-!
# The shape of bindings

When a rule applies, its bindings have the shape of its pattern.  Exactly the variables of
the pattern are bound, each once and at its depth.  The fragment of a variable has one level
for every group around the variable, also where a group has no rounds.  All variables of a
group have the same number of occurrences at the level of the group, wherever one looks.
-/

namespace MacroScript

open MacroScript.Outcome

/-! ## Groups -/

/-- A group of a pattern, with the number of groups around it. -/
structure PatternGroup where
  depth : Nat
  content : List PatternElement
  separator : Token

mutual

/-- The groups of an element that stands inside `depth` groups. -/
def PatternElement.groups (depth : Nat) : PatternElement → List PatternGroup
  | .token _ => []
  | .capture _ _ _ => []
  | .repetition content separator _ =>
    ⟨depth, content, separator⟩ :: Pattern.groups (depth + 1) content

/-- The groups of a pattern that stands inside `depth` groups, inner ones included. -/
def Pattern.groups (depth : Nat) : List PatternElement → List PatternGroup
  | [] => []
  | element :: rest => element.groups depth ++ Pattern.groups depth rest

end

mutual

variable {group : PatternGroup}

theorem PatternElement.names_subset_of_mem_groups {depth : Nat} {element : PatternElement}
    (mem : group ∈ element.groups depth) :
    Pattern.names group.content ⊆ (element.captures 0).map Prod.fst := by
  cases element with
  | token token
  | capture name kind span => cases mem
  | repetition content separator span =>
    rw [PatternElement.captures, Pattern.map_captures]
    rcases List.mem_cons.mp mem with rfl | inside
    · exact List.Subset.refl _
    · exact Pattern.names_subset_of_mem_groups inside

/-- The variables of a group are variables of the pattern. -/
theorem Pattern.names_subset_of_mem_groups {depth : Nat} {elements : List PatternElement}
    (mem : group ∈ Pattern.groups depth elements) :
    Pattern.names group.content ⊆ Pattern.names elements := by
  cases elements with
  | nil => cases mem
  | cons element rest =>
    rw [Pattern.names_cons]
    rcases List.mem_append.mp mem with first | later
    · exact List.subset_append_of_subset_left _
        (PatternElement.names_subset_of_mem_groups first)
    · exact List.subset_append_of_subset_right _ (Pattern.names_subset_of_mem_groups later)

end

mutual

theorem PatternElement.le_depth_of_mem_groups {depth : Nat} {element : PatternElement}
    (mem : group ∈ element.groups depth) : depth ≤ group.depth := by
  cases element with
  | token token
  | capture name kind span => cases mem
  | repetition content separator span =>
    rcases List.mem_cons.mp mem with rfl | inside
    · exact Nat.le_refl depth
    · exact Nat.le_of_succ_le (Pattern.le_depth_of_mem_groups inside)

/-- The groups of a pattern are at least as deep as the pattern. -/
theorem Pattern.le_depth_of_mem_groups {depth : Nat} {elements : List PatternElement}
    (mem : group ∈ Pattern.groups depth elements) : depth ≤ group.depth := by
  cases elements with
  | nil => cases mem
  | cons element rest =>
    rcases List.mem_append.mp mem with first | later
    · exact PatternElement.le_depth_of_mem_groups first
    · exact Pattern.le_depth_of_mem_groups later

end

/-! ## Levels -/

namespace Fragment

theorem follow?_singleton (number : Nat) (occurrences : List Fragment) :
    (Fragment.repeated occurrences).follow? [number] = occurrences[number]? := by
  rw [follow?]
  cases occurrences[number]? <;> rfl

end Fragment

mutual

theorem PatternElement.Instance.uniform {fragments : String → Option Fragment}
    {element : PatternElement} {pieces : List Matching.Piece}
    (made : element.Instance fragments pieces) {depth levels : Nat} {name : String}
    (mem : (name, depth + levels) ∈ element.captures depth) :
    ∃ fragment, fragments name = some fragment ∧ fragment.Uniform levels := by
  cases element with
  | token expected => cases mem
  | capture variableName kind span =>
    simp only [PatternElement.Instance] at made
    obtain ⟨first, rest, bound, -⟩ := made
    simp only [PatternElement.captures, List.mem_singleton, Prod.mk.injEq] at mem
    obtain ⟨rfl, same⟩ := mem
    obtain rfl : levels = 0 := by omega
    exact ⟨_, bound, .tokens _⟩
  | repetition content separator span =>
    simp only [PatternElement.Instance] at made
    obtain ⟨rounds, -, counted, each⟩ := made
    rw [PatternElement.captures] at mem
    obtain ⟨lower, rfl⟩ : ∃ lower, levels = lower + 1 :=
      Nat.exists_eq_add_one.mpr (by have := Pattern.le_of_mem_captures mem; simp at this; omega)
    have deeper : (name, depth + 1 + lower) ∈ Pattern.captures (depth + 1) content := by
      rwa [Nat.add_assoc, Nat.add_comm 1 lower]
    have known : name ∈ Pattern.names content := by
      rw [← Pattern.map_captures content (depth + 1)]
      exact List.mem_map_of_mem mem
    obtain ⟨occurrences, bound, same⟩ := counted name known
    refine ⟨_, bound, .repeated ?_⟩
    intro occurrence occurrenceMem
    obtain ⟨number, found⟩ := List.mem_iff_getElem?.mp occurrenceMem
    have inside : number < rounds.length := same ▸ (List.getElem?_eq_some_iff.mp found).1
    obtain ⟨part, partBound, uniform⟩ :=
      Pattern.Instance.uniform (each number _ (List.getElem?_eq_getElem inside)) deeper
    rw [bound, Option.bind_some, Fragment.follow?_singleton, found, Option.some.injEq]
      at partBound
    exact partBound ▸ uniform

/-- In an instance, a variable has a level for every group around it. -/
theorem Pattern.Instance.uniform {fragments : String → Option Fragment}
    {elements : List PatternElement} {pieces : List Matching.Piece}
    (made : Pattern.Instance fragments elements pieces) {depth levels : Nat} {name : String}
    (mem : (name, depth + levels) ∈ Pattern.captures depth elements) :
    ∃ fragment, fragments name = some fragment ∧ fragment.Uniform levels := by
  cases elements with
  | nil => cases mem
  | cons element rest =>
    simp only [Pattern.Instance] at made
    obtain ⟨here, later, first, second, -⟩ := made
    rw [Pattern.captures, List.mem_append] at mem
    rcases mem with early | late
    · exact PatternElement.Instance.uniform first early
    · exact Pattern.Instance.uniform second late

end

/-! ## Occurrences -/

/-- The number of occurrences of a variable at the end of a path. -/
def occurrencesAt (fragments : String → Option Fragment) (name : String) (path : List Nat) :
    Option Nat :=
  ((fragments name).bind (Fragment.follow? path)).bind Fragment.occurrences?

theorem occurrencesAt_cons (fragments : String → Option Fragment) (name : String) (number : Nat)
    (path : List Nat) :
    occurrencesAt fragments name (number :: path) =
      occurrencesAt (fun name => (fragments name).bind (Fragment.follow? [number])) name path := by
  have divided : Fragment.follow? (number :: path) = fun fragment =>
      (Fragment.follow? [number] fragment).bind (Fragment.follow? path) :=
    funext (Fragment.follow?_append [number] path)
  simp only [occurrencesAt, divided, Option.bind_assoc]

mutual

theorem PatternElement.Instance.aligned {fragments : String → Option Fragment}
    {element : PatternElement} {pieces : List Matching.Piece}
    (made : element.Instance fragments pieces) {depth : Nat} (mem : group ∈ element.groups depth)
    {path : List Nat} (reached : depth + path.length = group.depth) {one two : String}
    (oneMem : one ∈ Pattern.names group.content) (twoMem : two ∈ Pattern.names group.content) :
    occurrencesAt fragments one path = occurrencesAt fragments two path := by
  cases element with
  | token expected
  | capture variableName kind span => cases mem
  | repetition content separator span =>
    simp only [PatternElement.Instance] at made
    obtain ⟨rounds, -, counted, each⟩ := made
    rcases List.mem_cons.mp mem with rfl | inside
    · obtain rfl : path = [] := List.length_eq_zero_iff.mp (by simpa using reached)
      obtain ⟨ones, oneBound, oneCount⟩ := counted one oneMem
      obtain ⟨twos, twoBound, twoCount⟩ := counted two twoMem
      simp [occurrencesAt, oneBound, twoBound, Fragment.follow?, Fragment.occurrences?, oneCount,
        twoCount]
    · have deeper := Pattern.le_depth_of_mem_groups inside
      obtain ⟨number, rest, rfl⟩ : ∃ number rest, path = number :: rest :=
        List.exists_cons_of_length_pos (by omega)
      rw [List.length_cons] at reached
      have contained := Pattern.names_subset_of_mem_groups inside
      obtain ⟨ones, oneBound, oneCount⟩ := counted one (contained oneMem)
      obtain ⟨twos, twoBound, twoCount⟩ := counted two (contained twoMem)
      rw [occurrencesAt_cons, occurrencesAt_cons]
      by_cases present : number < rounds.length
      · exact Pattern.Instance.aligned (each number _ (List.getElem?_eq_getElem present)) inside
          (by omega) oneMem twoMem
      · -- Neither variable has an occurrence with this number.
        simp only [occurrencesAt, oneBound, twoBound, Option.bind_some,
          Fragment.follow?_singleton]
        rw [List.getElem?_eq_none (by omega), List.getElem?_eq_none (by omega)]

/-- In an instance, the variables of a group have the same number of occurrences. -/
theorem Pattern.Instance.aligned {fragments : String → Option Fragment}
    {elements : List PatternElement} {pieces : List Matching.Piece}
    (made : Pattern.Instance fragments elements pieces) {depth : Nat}
    (mem : group ∈ Pattern.groups depth elements) {path : List Nat}
    (reached : depth + path.length = group.depth) {one two : String}
    (oneMem : one ∈ Pattern.names group.content) (twoMem : two ∈ Pattern.names group.content) :
    occurrencesAt fragments one path = occurrencesAt fragments two path := by
  cases elements with
  | nil => cases mem
  | cons element rest =>
    simp only [Pattern.Instance] at made
    obtain ⟨here, later, first, second, -⟩ := made
    rcases List.mem_append.mp mem with early | late
    · exact PatternElement.Instance.aligned first early reached oneMem twoMem
    · exact Pattern.Instance.aligned second late reached oneMem twoMem

end

/-! ## Rules -/

namespace Matching

variable {call : Invocation} {macroName : String} {bindings : Bindings} {session after : Session}

/-- The rule that is chosen is one of the rules, and its pattern matched. -/
theorem firstMatch_eq_ok {number index : Nat} {rules : List Rule} {rule : Rule}
    (run : firstMatch call macroName number rules session = .ok (index, rule, bindings) after) :
    (∃ offset, index = number + offset ∧ rules[offset]? = some rule) ∧
      ∃ before, matchPattern call macroName rule.pattern before = .ok (some bindings) after := by
  induction rules generalizing number session with
  | nil => cases run
  | cons first rest ih =>
    simp only [firstMatch, bind_eq_ok_iff] at run
    obtain ⟨found, middle, matchRun, run⟩ := run
    cases found with
    | some bound =>
      cases run
      exact ⟨⟨0, rfl, rfl⟩, session, matchRun⟩
    | none =>
      obtain ⟨⟨offset, rfl, found⟩, matched⟩ := ih run
      exact ⟨⟨offset + 1, by omega, found⟩, matched⟩

/-- A match binds its variables to fragments with as many levels as there are groups around them. -/
theorem leveled_of_matchPattern {pattern : Pattern}
    (run : matchPattern call macroName pattern session = .ok (some bindings) after) :
    bindings.Leveled 0 := by
  obtain ⟨signature, distinct, pieces, -, made⟩ := matchPattern_eq_ok run
  intro name binding mem
  have listed : (name, 0 + binding.depth) ∈ Pattern.captures 0 pattern := by
    rw [Nat.zero_add, ← signature]
    exact List.mem_map.mpr ⟨_, mem, rfl⟩
  obtain ⟨fragment, bound, uniform⟩ := made.uniform listed
  rw [Bindings.fragment?, Bindings.get?_of_mem distinct mem, Option.map_some,
    Option.some.injEq] at bound
  exact ⟨binding.depth, (Nat.zero_add _).symm, bound ▸ uniform⟩

/-- The bindings of the rule that is chosen have the shape of its pattern: its variables are bound,
each once and at its depth, to fragments with as many levels, and the variables of a group
have the same number of occurrences at its level. -/
theorem firstMatch_shape {call : Invocation} {macroName : String} {rules : List Rule}
    {index : Nat} {rule : Rule} {bindings : Bindings} {session after : Session}
    (run : firstMatch call macroName 0 rules session = .ok (index, rule, bindings) after) :
    rules[index]? = some rule ∧
      bindings.signature = Pattern.captures 0 rule.pattern ∧ (bindings.map Prod.fst).Nodup ∧
      (∀ name binding, (name, binding) ∈ bindings → binding.fragment.Uniform binding.depth) ∧
      ∀ group ∈ Pattern.groups 0 rule.pattern, ∀ path, path.length = group.depth →
        ∀ one ∈ Pattern.names group.content, ∀ two ∈ Pattern.names group.content,
          occurrencesAt bindings.fragment? one path =
            occurrencesAt bindings.fragment? two path := by
  obtain ⟨⟨offset, rfl, found⟩, before, matchRun⟩ := firstMatch_eq_ok run
  obtain ⟨signature, distinct, pieces, -, made⟩ := matchPattern_eq_ok matchRun
  refine ⟨by rwa [Nat.zero_add], signature, distinct, ?_, ?_⟩
  · intro name binding mem
    obtain ⟨levels, depth_eq, uniform⟩ := leveled_of_matchPattern matchRun name binding mem
    rw [depth_eq, Nat.zero_add]
    exact uniform
  · intro group groupMem path reached one oneMem two twoMem
    exact made.aligned groupMem (by omega) oneMem twoMem

/-- Sections of settings: the group of settings stands inside the group of sections, and the last
section has no settings. -/
def settings : String :=
  "macro settings \x7b
    ($( $section:ident $( $name:ident = $value:literal ), );) => \x7b \x7d
  \x7d
  settings(a x = 1, y = 2; b);"

theorem settings_shape :
    ∃ call macroName rules session index rule bindings after,
      firstMatch call macroName 0 rules session = .ok (index, rule, bindings) after ∧
        bindings.signature = [("section", 1), ("name", 2), ("value", 2)] ∧
        (∀ name binding, (name, binding) ∈ bindings → binding.fragment.Uniform binding.depth) ∧
        ∀ number, occurrencesAt bindings.fragment? "name" [number] =
          occurrencesAt bindings.fragment? "value" [number] := by
  have evaluated : endsWith (fun program session => (session.macros.get? 0).any fun definition =>
      firstEndsWith (fun _ chosen _ =>
        chosen.2.2.signature == [("section", 1), ("name", 2), ("value", 2)] &&
          (Pattern.groups 0 chosen.2.1.pattern).any fun group =>
            group.depth == 1 && Pattern.names group.content == ["name", "value"])
        (firstMatch · definition.name 0 definition.rules) (Leaf.calls (Leaf.ofProgram program))
        session) (Session.readProgram settings {}) = true := by
    decide +kernel
  obtain ⟨program, session, -, inner⟩ := exists_ok_of_endsWith evaluated
  obtain ⟨definition, -, matched⟩ := (Option.any_eq_true _ _).mp inner
  obtain ⟨call, -, ⟨index, rule, bindings⟩, after, -, run, passed⟩ :=
    exists_ok_of_firstEndsWith matched
  simp only [Bool.and_eq_true, beq_iff_eq, List.any_eq_true] at passed
  obtain ⟨signature, group, groupMem, depth, names⟩ := passed
  obtain ⟨-, -, -, uniform, aligned⟩ := firstMatch_shape run
  refine ⟨call, _, _, session, index, rule, bindings, after, run, signature, uniform,
    ?_⟩
  intro number
  exact aligned group groupMem [number] depth.symm "name" (by simp [names]) "value"
    (by simp [names])

end Matching

end MacroScript
