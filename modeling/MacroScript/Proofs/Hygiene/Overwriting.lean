import MacroScript.Proofs.Hygiene.Performed

/-!
# Names of a body within one expansion

When the body of a macro binds a name, later mentions of the name in the body should be
renamed with the binding.  They are looked up in the innermost scope of the macro's
declaration, where the binding was recorded.

The bindings of the arguments are recorded in the innermost scope of the call.  Where
this is the same scope, a later binding from the arguments overwrites the color of the
expansion, and the names of the body that follow get the color of the argument.  This
is the only way in which a name of the body loses its binding.
-/

namespace MacroScript

open MacroScript.Grammar MacroScript.Outcome

namespace Performed

variable (performed : Performed) {scope : ScopeId} {name : String} {outer : ScopeStack}

/-- The expansion binds a name at an index. -/
def BindsAt (index : Nat) (name : String) : Prop :=
  (∃ identifier, (index, Leaf.binding identifier) ∈ performed.places) ∧
    (performed.tokens index).text = name

/-- The last binding of a name up to an index comes from the arguments with another color than
that of the expansion, and it is recorded in the scope where bindings of the body are. -/
def Overwrites (name : String) (limit : Nat) : Prop :=
  ∃ last ≤ limit, performed.BindsAt last name ∧
    (∀ other ≤ limit, performed.BindsAt other name → other ≤ last) ∧
      performed.origin? last = some .invocation ∧
        (performed.tokens last).color ≠ performed.color ∧
          performed.call.scopes.head? = performed.definition.scopes.head?

/-- The place records a decision on a name in a scope. -/
def Writes (scope : ScopeId) (name : String) (place : Place) : Prop :=
  ∃ color, decision? performed.hygiene performed.tokens place = some ⟨scope, name, color⟩

/-! ## The last decision -/

/-- Among places with a writer there is a last one. -/
theorem exists_last_writer {places : List Place}
    (writer : ∃ place ∈ places, performed.Writes scope name place) :
    ∃ front last back, places = front ++ last :: back ∧ performed.Writes scope name last ∧
      ∀ other ∈ back, ¬performed.Writes scope name other := by
  induction places with
  | nil => simp at writer
  | cons place rest ih =>
    by_cases later : ∃ other ∈ rest, performed.Writes scope name other
    · rcases ih later with ⟨front, last, back, rfl, writes, silent⟩
      exact ⟨place :: front, last, back, rfl, writes, silent⟩
    · rcases writer with ⟨other, mem, writes⟩
      have here : other = place := by
        rcases List.mem_cons.mp mem with same | inRest
        · exact same
        · exact absurd ⟨other, inRest, writes⟩ later
      subst here
      exact ⟨[], other, rest, rfl, writes, fun third mem writes => later ⟨third, mem, writes⟩⟩

/-- The last decision on a name is the one that is found. -/
theorem findColor?_of_last_writer {color : Option Color} {front back : List Place} {last : Place}
    (inside : scope < performed.before.scopes.size)
    (recorded : decision? performed.hygiene performed.tokens last = some ⟨scope, name, color⟩)
    (silent : ∀ other ∈ back, ¬performed.Writes scope name other) :
    (performed.before.scopes.replay
        (Grammar.decisions performed.hygiene performed.tokens (front ++ last :: back))).findColor?
      (scope :: outer) name = color := by
  have decided : Grammar.decisions performed.hygiene performed.tokens (front ++ last :: back) =
      Grammar.decisions performed.hygiene performed.tokens front ++
        ⟨scope, name, color⟩ ::
          Grammar.decisions performed.hygiene performed.tokens back := by
    rw [decisions_append]
    simp only [Grammar.decisions, List.filterMap_cons, recorded]
  have unchanged : ∀ other ∈ Grammar.decisions performed.hygiene performed.tokens back,
      ¬(other.scope = scope ∧ other.name = name) := by
    rintro ⟨otherScope, otherName, otherColor⟩ mem ⟨rfl, rfl⟩
    rcases List.mem_filterMap.mp mem with ⟨place, placeMem, decision⟩
    exact silent place placeMem ⟨otherColor, decision⟩
  rw [decided]
  exact ScopeStore.findColor?_replay_last inside _ unchanged outer

/-! ## Bindings and their places -/

section Bindings

variable {performed} {limit index : Nat} {front back : List Place} {last : Place}
  {identifier : Identifier}

/-- A place that is not behind another one has no larger index. -/
theorem index_le_of_mem {other : Place} (parts : performed.placesUpTo limit = front ++ last :: back)
    (mem : other ∈ performed.placesUpTo limit) (notBehind : other ∉ back) : other.1 ≤ last.1 := by
  have ordered : (performed.placesUpTo limit).Pairwise fun first second => first.1 < second.1 :=
    performed.pairwise_places.filter _
  rw [parts] at ordered mem
  rcases List.mem_append.mp mem with early | late
  · exact Nat.le_of_lt ((List.pairwise_append.mp ordered).2.2 other early last (by simp))
  · rcases List.mem_cons.mp late with rfl | behind
    · exact Nat.le_refl _
    · exact absurd behind notBehind

section

variable (inside : ∀ id ∈ performed.definition.scopes, id < performed.before.scopes.size)
include inside

/-- A bound name belongs to the body or to the arguments. -/
theorem origin_of_binding (mem : (index, Leaf.binding identifier) ∈ performed.places) :
    performed.origin? index = some .body ∨ performed.origin? index = some .invocation := by
  obtain ⟨color, uses⟩ := (performed.madeOf _ mem).exists_uses (.binding index identifier)
  rcases performed.resolves inside mem uses with ⟨body, -⟩ | ⟨invocation, -⟩
  · exact .inl body
  · exact .inr invocation

omit inside in
theorem writes_of_body (declared : performed.definition.scopes.head? = some scope)
    (identifier : Identifier) (body : performed.origin? index = some .body) :
    performed.Writes scope (performed.tokens index).text (index, .binding identifier) := by
  have origin : performed.hygiene.origins[index]? = some .body := body
  have head : performed.hygiene.declarationScopes.head? = some scope := declared
  refine ⟨performed.color, ?_⟩
  rw [decision?, origin, head]
  rfl

/-- Where the call and the declaration share their innermost scope, all bindings of a name are
recorded there. -/
theorem writes_of_shared (declared : performed.definition.scopes.head? = some scope)
    (shared : performed.call.scopes.head? = performed.definition.scopes.head?)
    (mem : (index, Leaf.binding identifier) ∈ performed.places) :
    performed.Writes scope (performed.tokens index).text (index, .binding identifier) := by
  rcases origin_of_binding inside mem with body | invocation
  · exact writes_of_body declared identifier body
  · have origin : performed.hygiene.origins[index]? = some .invocation := invocation
    have head : performed.hygiene.invocationScopes.head? = some scope := shared.trans declared
    refine ⟨(performed.tokens index).color, ?_⟩
    rw [decision?, origin, head]
    rfl

/-- Where the innermost scope is shared, no binding of a name lies behind the last writer. -/
theorem index_le_of_shared (declared : performed.definition.scopes.head? = some scope)
    (shared : performed.call.scopes.head? = performed.definition.scopes.head?) {name : String}
    (parts : performed.placesUpTo limit = front ++ last :: back)
    (silent : ∀ other ∈ back, ¬performed.Writes scope name other) :
    ∀ other ≤ limit, performed.BindsAt other name → other ≤ last.1 := by
  rintro other other_le ⟨⟨identifier, mem⟩, rfl⟩
  have writes := writes_of_shared inside declared shared mem
  exact index_le_of_mem parts (performed.mem_placesUpTo.mpr ⟨mem, other_le⟩)
    fun behind => silent _ behind writes

end

end Bindings

/-! ## What the scopes of the declaration show -/

/-- Behind a binding of the body, the scopes of the declaration show the color of the expansion
unless it was overwritten. -/
theorem findColor?_eq_color_iff
    (inside : ∀ id ∈ performed.definition.scopes, id < performed.before.scopes.size)
    (stack : performed.definition.scopes = scope :: outer) {bound limit : Nat}
    {identifier : Identifier} (mem : (bound, Leaf.binding identifier) ∈ performed.places)
    (body : performed.origin? bound = some .body) (le : bound ≤ limit) :
    (performed.before.scopes.replay (performed.decisionsUpTo limit)).findColor?
        performed.definition.scopes (performed.tokens bound).text = performed.color ↔
      ¬performed.Overwrites (performed.tokens bound).text limit := by
  have declared : performed.definition.scopes.head? = some scope := by rw [stack]; rfl
  have scopeInside : scope < performed.before.scopes.size := inside scope (by simp [stack])
  have boundRead := performed.mem_placesUpTo.mpr ⟨mem, le⟩
  rcases performed.exists_last_writer
    ⟨_, boundRead, writes_of_body declared identifier body⟩ with
    ⟨front, last, back, parts, ⟨color, recorded⟩, silent⟩
  rw [decisionsUpTo, parts, stack, performed.findColor?_of_last_writer scopeInside recorded silent]
  rcases decision?_eq_some recorded with ⟨index, lastName, rfl, name_eq, origin⟩
  obtain ⟨lastMem, lastLe⟩ : (index, Leaf.binding lastName) ∈ performed.places ∧ index ≤ limit :=
    performed.mem_placesUpTo.mp (by simp [parts])
  have lastBinds : performed.BindsAt index (performed.tokens bound).text :=
    ⟨⟨lastName, lastMem⟩, name_eq.symm⟩
  -- With a shared scope every binding writes, so the last writer is the last binding.
  have isLast (shared : performed.call.scopes.head? = performed.definition.scopes.head?) :
      ∀ other ≤ limit, performed.BindsAt other (performed.tokens bound).text → other ≤ index :=
    index_le_of_shared inside declared shared parts silent
  rcases origin with ⟨lastBody, -, color_eq⟩ | ⟨lastInvocation, head, color_eq⟩
  · constructor
    · rintro - ⟨other, other_le, binds, maximal, invocation, -, shared⟩
      have same : other = index :=
        Nat.le_antisymm (isLast shared other other_le binds) (maximal index lastLe lastBinds)
      rw [same] at invocation
      cases lastBody.symm.trans invocation
    · exact fun _ => color_eq
  · have shared : performed.call.scopes.head? = performed.definition.scopes.head? :=
      head.trans declared.symm
    constructor
    · rintro shown ⟨other, other_le, binds, maximal, -, different, -⟩
      have same : other = index :=
        Nat.le_antisymm (isLast shared other other_le binds) (maximal index lastLe lastBinds)
      rw [same] at different
      exact different (color_eq.symm.trans shown)
    · intro kept
      by_contra different
      apply kept
      refine ⟨index, lastLe, lastBinds, isLast shared, lastInvocation, ?_, shared⟩
      exact fun same => different (color_eq.trans same)

end Performed

/-- In an expansion that binds a name of its body, a later mention of the name in the body is
used with the color of the expansion, unless a binding from the arguments has overwritten the
color of the name. -/
theorem expand_uses_color_iff {call : Invocation} {session after : Session}
    {expansion : Expansion} (sound : session.Sound)
    (run : expand call session = .ok expansion after) :
    (∃ performed : Performed, performed.Expands call session expansion after) ∧
      ∀ performed : Performed, performed.Expands call session expansion after →
        ∀ bound identifier, (bound, Leaf.binding identifier) ∈ performed.places →
          performed.origin? bound = some .body →
            (∃ color, expansion.color = some color) ∧
              ∀ place ∈ performed.places, bound < place.1 →
                ∀ index, Mentions place index → performed.origin? index = some .body →
                  (performed.tokens index).text = (performed.tokens bound).text →
                    (Uses performed.tokens place index expansion.color ↔
                      ¬performed.Overwrites (performed.tokens bound).text place.1) := by
  refine ⟨exists_performed run, ?_⟩
  rintro performed ⟨rfl, rfl, -, color_eq, -⟩ bound identifier mem body
  have inside := Performed.scopes_inside sound
  obtain ⟨scope, outer, stack⟩ :=
    List.exists_cons_of_ne_nil (sound.scopes performed.known).nonempty
  rw [← color_eq]
  refine ⟨performed.exists_color mem body, ?_⟩
  intro place placeMem before index mentions indexBody text
  have resolved {color : Option Color} (uses : Uses performed.tokens place index color) :
      color = (performed.before.scopes.replay (performed.decisionsUpTo place.1)).findColor?
        performed.definition.scopes (performed.tokens bound).text := by
    rcases performed.resolves inside placeMem uses with ⟨-, shown⟩ | ⟨invocation, -⟩
    · rw [shown, text]
      rfl
    · cases indexBody.symm.trans invocation
  rw [← performed.findColor?_eq_color_iff inside stack mem body (Nat.le_of_lt before)]
  constructor
  · intro uses
    exact (resolved uses).symm
  · intro shown
    obtain ⟨color, uses⟩ := (performed.madeOf place placeMem).exists_uses mentions
    rwa [resolved uses, shown] at uses

/-! ## A macro with two bindings -/

/-- A macro that binds a name of its own and one of its arguments, and then uses its own. -/
def twoBindings (argument : String) : String :=
  "macro m \x7b ($x:ident) => \x7b let t = 1; let $x = 2; f(t); \x7d \x7d m(" ++ argument ++ ");"

/-- With another name as its argument, the reference follows the binding of the body. -/
theorem expand_twoBindings :
    ∃ call session expansion after, session.Sound ∧
      expand call session = .ok expansion after ∧
        ∃ performed : Performed, performed.Expands call session expansion after ∧
          ∃ bound identifier place index,
            (bound, Leaf.binding identifier) ∈ performed.places ∧
              performed.origin? bound = some .body ∧ (performed.tokens bound).text = "t" ∧
                place ∈ performed.places ∧ bound < place.1 ∧ Mentions place index ∧
                  performed.origin? index = some .body ∧
                    (performed.tokens index).text = "t" ∧
                      Uses performed.tokens place index (some 1) ∧
                        ¬performed.Overwrites "t" place.1 := by
  let own : Identifier := { name := "t", span := ⟨30, 31, 1, 30⟩ }
  let again : Identifier := { name := "t", span := ⟨51, 52, 1, 51⟩ }
  let captured : Identifier := { name := "y", span := ⟨61, 62, 1, 61⟩ }
  let callee : Identifier := { name := "f", span := ⟨49, 50, 1, 49⟩ }
  have passed : endsWith (fun program => firstEndsWith (fun call expansion _ =>
      call.tokens.all (·.color.isNone) && expansion.color == some 1 &&
        Leaf.ofProgram expansion.program ==
          [.binding (own.applyColor 1), .binding captured, .reference callee,
            .reference (again.applyColor 1)]) expand (Leaf.calls (Leaf.ofProgram program)))
      (Session.readProgram (twoBindings "y") {}) = true := by
    decide +kernel
  obtain ⟨program, session, readRun, inner⟩ := exists_ok_of_endsWith passed
  obtain ⟨call, -, expansion, after, -, run, holds⟩ := exists_ok_of_firstEndsWith inner
  have sound := (Session.sound_readProgram .empty readRun).1
  simp only [Bool.and_eq_true, List.all_eq_true, Option.isNone_iff_eq_none, beq_iff_eq] at holds
  obtain ⟨⟨plain, color_eq⟩, leaves⟩ := holds
  obtain ⟨⟨performed, expands⟩, renamed⟩ := expand_uses_color_iff sound run
  refine ⟨call, session, expansion, after, sound, run, performed, expands, ?_⟩
  have inside := Performed.scopes_inside (expands.before ▸ sound)
  have plainCall : ∀ token ∈ performed.call.tokens, token.color = none := by
    rw [expands.call]
    exact plain
  have seen := performed.leaves
  rw [expands.program, leaves] at seen
  obtain ⟨⟨bound, _⟩, _, places_eq, rfl, rest⟩ := List.map_eq_cons_iff.mp seen.symm
  simp only [List.map_eq_cons_iff, List.map_eq_nil_iff] at rest
  obtain ⟨second, _, rfl, -, third, _, rfl, -, ⟨index, _⟩, _, rfl, rfl, rfl⟩ := rest
  have boundMem : (bound, Leaf.binding (own.applyColor 1)) ∈ performed.places := by
    simp [places_eq]
  have indexMem : (index, Leaf.reference (again.applyColor 1)) ∈ performed.places := by
    simp [places_eq]
  have before : bound < index := by
    have ordered := performed.pairwise_places
    rw [places_eq, List.pairwise_cons] at ordered
    exact ordered.1 (index, .reference (again.applyColor 1)) (by simp)
  obtain ⟨-, -, boundBody, boundToken⟩ :=
    performed.of_colored_leaf inside plainCall (.inl rfl) rfl boundMem
  obtain ⟨mentions, uses, indexBody, indexToken⟩ :=
    performed.of_colored_leaf inside plainCall (.inr rfl) rfl indexMem
  have boundText : (performed.tokens bound).text = "t" := congrArg Identifier.name boundToken
  have indexText : (performed.tokens index).text = "t" := congrArg Identifier.name indexToken
  have kept := ((renamed performed expands bound _ boundMem boundBody).2 _ indexMem before index
    mentions indexBody (indexText.trans boundText.symm)).mp
  rw [color_eq, boundText] at kept
  exact ⟨bound, _, _, index, boundMem, boundBody, boundText, indexMem, before, mentions, indexBody,
    indexText, uses, kept uses⟩

/-- With its own name as its argument, the reference follows the binding of the argument. -/
theorem expand_twoBindings_overwritten :
    ∃ call session expansion after, session.Sound ∧
      expand call session = .ok expansion after ∧ expansion.color = some 1 ∧
        Leaf.ofProgram expansion.program =
          [.binding { name := "t_1", span := ⟨30, 31, 1, 30⟩, sourceName := some "t" },
            .binding { name := "t", span := ⟨61, 62, 1, 61⟩ },
            .reference { name := "f", span := ⟨49, 50, 1, 49⟩ },
            .reference { name := "t", span := ⟨51, 52, 1, 51⟩ }] := by
  have passed : endsWith (fun program => firstEndsWith (fun _ expansion _ =>
      expansion.color == some 1 &&
        Leaf.ofProgram expansion.program ==
          [.binding { name := "t_1", span := ⟨30, 31, 1, 30⟩, sourceName := some "t" },
            .binding { name := "t", span := ⟨61, 62, 1, 61⟩ },
            .reference { name := "f", span := ⟨49, 50, 1, 49⟩ },
            .reference { name := "t", span := ⟨51, 52, 1, 51⟩ }])
        expand (Leaf.calls (Leaf.ofProgram program)))
      (Session.readProgram (twoBindings "t") {}) = true := by
    decide +kernel
  obtain ⟨program, session, readRun, inner⟩ := exists_ok_of_endsWith passed
  obtain ⟨call, -, expansion, after, -, run, holds⟩ := exists_ok_of_firstEndsWith inner
  have sound := (Session.sound_readProgram .empty readRun).1
  simp only [Bool.and_eq_true, beq_iff_eq] at holds
  exact ⟨call, session, expansion, after, sound, run, holds⟩

end MacroScript
