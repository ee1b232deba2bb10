import MacroScript.Proofs.Hygiene.Progress
import MacroScript.Proofs.Reading.MacroNode

/-!
# How names are resolved while an expansion is read

Every binding that is read records a decision: a name of the body in the innermost
scope of the macro's declaration, with the color of the expansion; a name of the
arguments in the innermost scope of the call, with the color it carries.  A name of
the body gets the color that the declaration's scopes show when it is read, and a name
of the arguments keeps its own.

The walk of an expansion is determined by that: below the scopes it allocates, the
store at its end is the store at its beginning with the decisions replayed, and every
name on the way is resolved in the store with the decisions made so far.
-/

namespace MacroScript

/-! ## Colored names -/

namespace Identifier

/-- A name that was not colored and its color can be told from the result. -/
theorem applyColor?_injective {one two : Identifier} (onePlain : one.sourceName = none)
    (twoPlain : two.sourceName = none) {first second : Option Color}
    (same : one.applyColor? first = two.applyColor? second) : one = two ∧ first = second := by
  rcases one with ⟨name, span, sourceName⟩
  rcases two with ⟨otherName, otherSpan, otherSourceName⟩
  obtain rfl : sourceName = none := onePlain
  obtain rfl : otherSourceName = none := twoPlain
  cases first with
  | none =>
    cases second with
    | none => exact ⟨same, rfl⟩
    | some color => simp [applyColor?, applyColor] at same
  | some color =>
    cases second with
    | none => simp [applyColor?, applyColor] at same
    | some other =>
      simp only [applyColor?, applyColor, mk.injEq, Option.some.injEq] at same
      obtain ⟨spelled, rfl, rfl⟩ := same
      rw [String.append_right_inj] at spelled
      have digits : Nat.toDigits 10 color = Nat.toDigits 10 other := by
        have texts := congrArg String.toList spelled
        rwa [Nat.toString_eq_repr, Nat.toString_eq_repr, Nat.toList_repr,
          Nat.toList_repr] at texts
      have values := congrArg (Nat.ofDigitChars 10 · 0) digits
      simp only [Nat.ofDigitChars_toDigits (by decide : 1 < 10) (by decide : 10 ≤ 10)] at values
      exact ⟨rfl, congrArg some values⟩

end Identifier

namespace Grammar

variable {hygiene final : Hygiene} {tokens : Nat → Token} {context : Context} {cursor : Cursor}
  {index start offset floor : Nat} {token : Token} {rest fixed captured : List Token}
  {reader after : Reader} {places : List Place}

/-- The place uses the name token at an index with a color: it binds or refers to the name,
or hands it to a call. -/
inductive Uses (tokens : Nat → Token) : Place → Nat → Option Color → Prop
  | binding (index : Nat) (color : Option Color) :
      Uses tokens (index, .binding ((tokens index).identifier.applyColor? color)) index color
  | reference (index : Nat) (color : Option Color) :
      Uses tokens (index, .reference ((tokens index).identifier.applyColor? color)) index color
  | argument {index offset : Nat} {call : Invocation} {color : Option Color}
      (isName : (tokens (index + 2 + offset)).isName = true)
      (ordinary : (tokens (index + 2 + offset)).captureName? = none)
      (handed : call.tokens[offset]? = some { tokens (index + 2 + offset) with color }) :
      Uses tokens (index, .call call) (index + 2 + offset) color

namespace Uses

variable {used : Nat} {color shade : Option Color}

theorem of_binding
    (uses : Uses tokens (index, .binding ((tokens index).identifier.applyColor? color)) used
      shade) :
    used = index ∧ shade = color := by
  generalize read : (index, Leaf.binding ((tokens index).identifier.applyColor? color)) = place
    at uses
  cases uses with
  | binding place shade =>
    obtain ⟨rfl, leaf⟩ := Prod.mk.inj read
    exact ⟨rfl, (Identifier.applyColor?_injective rfl rfl (Leaf.binding.inj leaf)).2.symm⟩
  | reference place shade
  | argument isName ordinary handed => cases (Prod.mk.inj read).2

theorem of_reference
    (uses : Uses tokens (index, .reference ((tokens index).identifier.applyColor? color)) used
      shade) : used = index ∧ shade = color := by
  generalize read : (index, Leaf.reference ((tokens index).identifier.applyColor? color)) = place
    at uses
  cases uses with
  | binding place shade => cases (Prod.mk.inj read).2
  | reference place shade =>
    obtain ⟨rfl, leaf⟩ := Prod.mk.inj read
    exact ⟨rfl, (Identifier.applyColor?_injective rfl rfl (Leaf.reference.inj leaf)).2.symm⟩
  | argument isName ordinary handed => cases (Prod.mk.inj read).2

end Uses

/-! ## Decisions of an expansion -/

/-- The decision that is recorded when a place is read. -/
def decision? (hygiene : Hygiene) (tokens : Nat → Token) : Place → Option Decision
  | (index, .binding _) =>
    match hygiene.origins[index]? with
    | some .body =>
      hygiene.declarationScopes.head?.map (⟨·, (tokens index).text, hygiene.color⟩)
    | some .invocation =>
      hygiene.invocationScopes.head?.map (⟨·, (tokens index).text, (tokens index).color⟩)
    | none => none
  | _ => none

/-- A recorded decision is that of a binding, on its name. -/
theorem decision?_eq_some {place : Place} {decision : Decision}
    (recorded : decision? hygiene tokens place = some decision) :
    ∃ index identifier, place = (index, .binding identifier) ∧
      decision.name = (tokens index).text ∧
        ((hygiene.origins[index]? = some .body ∧
            hygiene.declarationScopes.head? = some decision.scope ∧
              decision.color = hygiene.color) ∨
          (hygiene.origins[index]? = some .invocation ∧
            hygiene.invocationScopes.head? = some decision.scope ∧
              decision.color = (tokens index).color)) := by
  unfold decision? at recorded
  split at recorded
  · rename_i index identifier
    refine ⟨index, identifier, rfl, ?_⟩
    split at recorded
    · rename_i origin
      obtain ⟨scope, head, rfl⟩ := Option.map_eq_some_iff.mp recorded
      exact ⟨rfl, .inl ⟨origin, head, rfl⟩⟩
    · rename_i origin
      obtain ⟨scope, head, rfl⟩ := Option.map_eq_some_iff.mp recorded
      exact ⟨rfl, .inr ⟨origin, head, rfl⟩⟩
    · cases recorded
  · cases recorded

/-- The decisions that are recorded when places are read. -/
def decisions (hygiene : Hygiene) (tokens : Nat → Token) (places : List Place) :
    List Decision :=
  places.filterMap (decision? hygiene tokens)

/-- A name token is resolved to a color: by the scopes of the declaration if it belongs to
the body, and to its own color if it belongs to the arguments. -/
def Resolves (hygiene : Hygiene) (tokens : Nat → Token) (store : ScopeStore) (index : Nat)
    (color : Option Color) : Prop :=
  (hygiene.origins[index]? = some .body ∧
      color = store.findColor? hygiene.declarationScopes (tokens index).text) ∨
    (hygiene.origins[index]? = some .invocation ∧ color = (tokens index).color)

/-- Every name of the places is resolved in the store with the decisions made so far, its own
included. -/
def Resolved (hygiene : Hygiene) (tokens : Nat → Token) : ScopeStore → List Place → Prop
  | _, [] => True
  | store, place :: rest =>
    (∀ index color, Uses tokens place index color →
      Resolves hygiene tokens (store.replay (decisions hygiene tokens [place])) index color) ∧
      Resolved hygiene tokens (store.replay (decisions hygiene tokens [place])) rest

section Places

theorem decisions_singleton (place : Place) :
    decisions hygiene tokens [place] = (decision? hygiene tokens place).toList := by
  unfold decisions
  cases found : decision? hygiene tokens place <;> simp [found]

theorem decisions_append (first second : List Place) :
    decisions hygiene tokens (first ++ second) =
      decisions hygiene tokens first ++ decisions hygiene tokens second := by
  simp [decisions]

theorem resolved_append {store : ScopeStore} {first second : List Place} :
    Resolved hygiene tokens store (first ++ second) ↔
      Resolved hygiene tokens store first ∧
        Resolved hygiene tokens (store.replay (decisions hygiene tokens first)) second := by
  induction first generalizing store with
  | nil => simp [Resolved, decisions]
  | cons place rest ih =>
    rw [List.cons_append, Resolved, Resolved, ih, and_assoc, ← ScopeStore.replay_append,
      ← decisions_append, List.singleton_append]

theorem resolved_singleton {store : ScopeStore} {place : Place} :
    Resolved hygiene tokens store [place] ↔
      ∀ index color, Uses tokens place index color →
        Resolves hygiene tokens (store.replay (decisions hygiene tokens [place])) index color := by
  simp [Resolved]

/-- Only the scopes of the declaration matter. -/
theorem Resolved.congr {floor : Nat} (below : ∀ id ∈ hygiene.declarationScopes, id < floor)
    {store other : ScopeStore} (agree : store.AgreeBelow floor other) {places : List Place}
    (resolved : Resolved hygiene tokens store places) : Resolved hygiene tokens other places := by
  induction places generalizing store other with
  | nil => trivial
  | cons place rest ih =>
    obtain ⟨here, later⟩ := resolved
    have agreeNext := agree.replay (decisions hygiene tokens [place])
    refine ⟨?_, ih agreeNext later⟩
    intro index color uses
    rcases here index color uses with ⟨body, shown⟩ | ⟨invocation, carried⟩
    · exact .inl ⟨body, by rw [shown, agreeNext.findColor? below]⟩
    · exact .inr ⟨invocation, carried⟩

end Places

/-! ## The colors of arguments -/

/-- How a captured token is handed on: a name with the color it has where it is captured,
anything else as it is. -/
inductive Handed (context : Context) (cursor : Cursor) (index : Nat) (token : Token) :
    Token → Prop
  | name {color : Option Color} (isName : token.isName = true)
      (ordinary : token.captureName? = none)
      (colored : context.tokenColor cursor index token.text = .ok color) :
      Handed context cursor index token { token with color }
  | other (other : (token.isName && token.captureName?.isNone) = false) :
      Handed context cursor index token token

theorem Context.fixColors_cons (run : context.fixColors cursor index (token :: rest) = .ok fixed) :
    ∃ first others, Handed context cursor index token first ∧
      context.fixColors cursor (index + 1) rest = .ok others ∧ fixed = first :: others := by
  unfold fixColors at run
  cases named : token.isName && token.captureName?.isNone with
  | false =>
    simp only [named, Bool.false_eq_true, if_false] at run
    cases later : context.fixColors cursor (index + 1) rest with
    | error fault => simp [later, bind, Except.bind] at run
    | ok others =>
      simp only [later, bind, Except.bind, Except.ok.injEq] at run
      exact ⟨token, others, .other named, rfl, run.symm⟩
  | true =>
    obtain ⟨isName, ordinary⟩ := Bool.and_eq_true_iff.mp named
    simp only [named, if_true] at run
    cases colored : context.tokenColor cursor index token.text with
    | error fault => simp [colored, bind, Except.bind] at run
    | ok color =>
      cases later : context.fixColors cursor (index + 1) rest with
      | error fault => simp [colored, later, bind, Except.bind] at run
      | ok others =>
        simp only [colored, later, bind, Except.bind, Except.ok.injEq] at run
        exact ⟨_, others, .name isName (Option.isNone_iff_eq_none.mp ordinary) colored,
          rfl, run.symm⟩

theorem Context.handed_of_fixColors (run : context.fixColors cursor start captured = .ok fixed)
    (found : fixed[offset]? = some token) :
    ∃ original, captured[offset]? = some original ∧
      Handed context cursor (start + offset) original token := by
  induction captured generalizing start fixed offset with
  | nil =>
    simp only [fixColors, Except.ok.injEq] at run
    subst run
    cases found
  | cons first rest ih =>
    obtain ⟨head, others, handed, later, rfl⟩ := fixColors_cons run
    cases offset with
    | zero =>
      obtain rfl : head = token := Option.some.inj found
      exact ⟨first, rfl, handed⟩
    | succ offset =>
      obtain ⟨original, original_eq, originalHanded⟩ := ih later found
      rw [Nat.add_assoc, Nat.add_comm 1] at originalHanded
      exact ⟨original, original_eq, originalHanded⟩

/-- A token that is handed to a call stems from a token of the list. -/
theorem Context.handed_of_captureColors (taken : cursor.tokens.toList.drop start = captured ++ rest)
    (run : context.captureColors cursor start captured = .ok fixed)
    (found : fixed[offset]? = some token) :
    (start + offset < cursor.tokens.size ∧ offset < captured.length) ∧
      (context.hygiene = none ∧ token = cursor.tokenAt (start + offset) ∨
        Handed context cursor (start + offset) (cursor.tokenAt (start + offset)) token) := by
  have position {original : Token} (originalAt : captured[offset]? = some original) :
      (start + offset < cursor.tokens.size ∧ offset < captured.length) ∧
        original = cursor.tokenAt (start + offset) := by
    have inside : offset < captured.length := (List.getElem?_eq_some_iff.mp originalAt).1
    have dropped : (cursor.tokens.toList.drop start)[offset]? = some original := by
      rw [taken, List.getElem?_append_left inside, originalAt]
    rw [List.getElem?_drop, Array.getElem?_toList] at dropped
    refine ⟨⟨(Array.getElem?_eq_some_iff.mp dropped).1, inside⟩, ?_⟩
    rw [Cursor.tokenAt, dropped, Option.getD_some]
  cases hygienic : context.hygiene with
  | none =>
    rw [captureColors, hygienic, Except.ok.injEq] at run
    exact (position (run ▸ found)).imp_right fun same => .inl ⟨rfl, same⟩
  | some hygiene =>
    rw [captureColors, hygienic] at run
    obtain ⟨original, originalAt, handed⟩ := handed_of_fixColors run found
    obtain ⟨inside, rfl⟩ := position originalAt
    exact ⟨inside, .inr handed⟩

/-! ## Hygiene on the way -/

/-- The hygiene of a parser on its way to a final one, which may have a color that is not
claimed yet. -/
structure Within (hygiene final : Hygiene) : Prop where
  origins : hygiene.origins = final.origins
  declarationScopes : hygiene.declarationScopes = final.declarationScopes
  invocationScopes : hygiene.invocationScopes = final.invocationScopes
  color {color : Color} (claimed : hygiene.color = some color) : final.color = some color

/-- A context whose hygiene is on its way to a final one. -/
def Context.Toward (context : Context) (final : Hygiene) : Prop :=
  ∃ hygiene, context.hygiene = some hygiene ∧ Within hygiene final

theorem Claims.within {start : Option Hygiene} {low high : Color}
    (claims : Claims start low (some hygiene) high) (within : Within hygiene final) :
    ∃ first, start = some first ∧ Within first final := by
  cases claims with
  | keep => exact ⟨hygiene, rfl, within⟩
  | claim free =>
    refine ⟨_, rfl, within.origins, within.declarationScopes, within.invocationScopes, ?_⟩
    intro color claimed
    rw [free] at claimed
    cases claimed

theorem Context.Advances.toward {before after : Context} (advances : before.Advances after)
    (toward : after.Toward final) : before.Toward final := by
  obtain ⟨hygiene, hygienic, within⟩ := toward
  have claims := advances.claims
  rw [hygienic] at claims
  exact claims.within within

/-! ## Scopes of the parser -/

/-- The innermost scope of a parser is not below the floor. -/
structure Context.Fresh (floor : Nat) (context : Context) : Prop where
  inside : floor ≤ context.session.scopes.size
  innermost : ∃ head outer, context.scopes = head :: outer ∧ floor ≤ head

namespace Context

section

variable (fresh : context.Fresh floor)
include fresh

theorem Fresh.nonempty : context.scopes ≠ [] := by
  obtain ⟨head, outer, stack, -⟩ := fresh.innermost
  rw [stack]
  exact List.cons_ne_nil _ _

theorem Fresh.advances {after : Context} (advances : context.Advances after) :
    after.Fresh floor where
  inside := Nat.le_trans fresh.inside advances.grows.scopes
  innermost := advances.scopes ▸ fresh.innermost

theorem Fresh.enterScope : context.enterScope.Fresh floor where
  inside := Nat.le_trans fresh.inside (Session.Grows.allocScope _).scopes
  innermost := ⟨_, _, rfl, fresh.inside⟩

/-- A decision in the parser's own scope is not seen below the floor. -/
theorem Fresh.mark (name : String) (color : Option Color) :
    (context.mark context.scopes name color).session.scopes.AgreeBelow floor
      context.session.scopes := by
  obtain ⟨head, outer, stack, above⟩ := fresh.innermost
  rw [stack]
  exact ScopeStore.AgreeBelow.modify_above above _ _

/-- A macro declared in the parser's own scope is not seen below the floor. -/
theorem Fresh.declare (name : String) (rules : List Rule) (span : Span) :
    (context.declare name rules span).session.scopes.AgreeBelow floor
      context.session.scopes := by
  obtain ⟨head, outer, stack, above⟩ := fresh.innermost
  unfold Context.declare
  rw [stack]
  exact ScopeStore.AgreeBelow.modify_above above _ _

end

/-- A mark is a decision in the innermost scope of the stack, if there is one. -/
theorem mark_store (context : Context) (stack : ScopeStack) (name : String)
    (color : Option Color) :
    (context.mark stack name color).session.scopes =
      context.session.scopes.replay (stack.head?.map (⟨·, name, color⟩)).toList := by
  cases stack with
  | nil
  | cons innermost outer => rfl

theorem bindBody_store (context : Context) (hygiene : Hygiene) (name : String) :
    (context.bindBody hygiene name).session.scopes =
      context.session.scopes.replay
        (hygiene.declarationScopes.head?.map
          (⟨·, name, some (context.session.claimColor hygiene).1⟩)).toList := by
  rw [bindBody, mark_store]
  congr 1
  unfold Session.claimColor
  split <;> rfl

end Context

/-! ## Plain reading -/

/-- Without hygiene, nothing is recorded below the floor. -/
theorem Step.plain (step : Step reader places after) (fresh : reader.context.Fresh floor)
    (plain : reader.context.hygiene = none) :
    after.context.session.scopes.AgreeBelow floor reader.context.session.scopes := by
  cases step with
  | move forward => exact .refl _
  | binding isName binds colored =>
    rw [Context.bindName_of_plain plain, Except.ok.injEq] at binds
    subst binds
    exact fresh.mark _ _
  | reference isName colored
  | call isName found taken fixed forward behind => exact .refl _
  | declaration forward inside templates written =>
    exact ((fresh.advances (.mark _ _ _ _)).declare _ _ _).trans (fresh.mark _ _)
  | abandoned forward => exact fresh.mark _ _

theorem Walk.plain (walk : Walk reader places after) (fresh : reader.context.Fresh floor)
    (plain : reader.context.hygiene = none) :
    after.context.session.scopes.AgreeBelow floor reader.context.session.scopes := by
  induction walk with
  | nil reader => exact .refl _
  | step step => exact step.plain fresh plain
  | append one two first second =>
    have advances := one.advances fresh.nonempty
    have claims := advances.claims
    rw [plain] at claims
    exact (second (fresh.advances advances) claims.of_none.1).trans (first fresh plain)
  | enclosed inner ih =>
    rw [Reader.exit, Context.exitScope_session]
    exact (ih fresh.enterScope plain).trans (.alloc fresh.inside)

/-! ## One step -/

section Steps

variable {bound : Context} {color : Option Color}

/-- Binding a name records the decision of its place. -/
theorem Context.Binds.store (identifier : Identifier)
    (binds : Context.Binds context (tokens index) index (tokens index).text bound)
    (toward : bound.Toward final) :
    bound.session.scopes =
      context.session.scopes.replay (decisions final tokens [(index, .binding identifier)]) := by
  obtain ⟨reached, hygienic', within⟩ := toward
  rw [decisions_singleton]
  cases binds with
  | plain plain =>
    rw [mark_hygiene, plain] at hygienic'
    cases hygienic'
  | body hygienic body =>
    rw [bindBody_hygiene, Option.some.injEq] at hygienic'
    subst hygienic'
    have origin : final.origins[index]? = some .body := within.origins ▸ body
    rw [bindBody_store, decision?, origin, within.color rfl, within.declarationScopes.symm]
  | invocation hygienic invocation =>
    rw [mark_hygiene, hygienic, Option.some.injEq] at hygienic'
    subst hygienic'
    have origin : final.origins[index]? = some .invocation := within.origins ▸ invocation
    rw [mark_store, decision?, origin, within.invocationScopes.symm]

/-- Looking up a name in a context resolves it in the store of the context. -/
theorem Context.resolves_of_tokenColor (same : cursor.tokenAt index = tokens index)
    (colored : context.tokenColor cursor index (tokens index).text = .ok color)
    (toward : context.Toward final) : Resolves final tokens context.session.scopes index color := by
  obtain ⟨hygiene, hygienic, within⟩ := toward
  cases colors_of_tokenColor colored with
  | plain plain => cases plain.symm.trans hygienic
  | body hygienicToo body =>
    obtain rfl := Option.some.inj (hygienicToo.symm.trans hygienic)
    exact .inl ⟨within.origins ▸ body, by rw [within.declarationScopes]⟩
  | invocation hygienicToo invocation =>
    obtain rfl := Option.some.inj (hygienicToo.symm.trans hygienic)
    exact .inr ⟨within.origins ▸ invocation, by rw [same]⟩

/-- A name of the arguments of a call is resolved where the call is read. -/
theorem Context.resolves_of_captureColors {offset : Nat} {captured fixed rest : List Token}
    (same : cursor.tokenAt = tokens) (taken : cursor.tokens.toList.drop index = captured ++ rest)
    (run : context.captureColors cursor index captured = .ok fixed) (toward : context.Toward final)
    (isName : (tokens (index + offset)).isName = true)
    (ordinary : (tokens (index + offset)).captureName? = none)
    (handed : fixed[offset]? = some { tokens (index + offset) with color }) :
    Resolves final tokens context.session.scopes (index + offset) color := by
  have direct := toward
  obtain ⟨hygiene, hygienic, -⟩ := toward
  rcases (handed_of_captureColors taken run handed).2 with ⟨plain, -⟩ | originalHanded
  · cases plain.symm.trans hygienic
  · rw [same] at originalHanded
    generalize given : { tokens (index + offset) with color } = token at originalHanded
    cases originalHanded with
    | @name shade isName ordinary colored =>
      obtain rfl : color = shade := congrArg Token.color given
      exact resolves_of_tokenColor (congrFun same _) colored direct
    | other other => simp [isName, ordinary] at other

/-- What one step records and resolves. -/
theorem Step.resolved {reader after : Reader} {places : List Place}
    (step : Step reader places after) (same : reader.cursor.tokenAt = tokens)
    (fresh : reader.context.Fresh floor) (toward : after.context.Toward final) :
    after.context.session.scopes.AgreeBelow floor
        (reader.context.session.scopes.replay (decisions final tokens places)) ∧
      Resolved final tokens reader.context.session.scopes places := by
  have before := step.advances.toward toward
  cases step with
  | move forward => exact ⟨.refl _, trivial⟩
  | @binding cursor context bound color isName binds colored =>
    have here : cursor.peek = tokens cursor.index := congrFun same cursor.index
    rw [here] at binds colored ⊢
    have bindsCases := Context.binds_of_bindName binds
    rw [congrFun same cursor.index] at bindsCases
    have store := bindsCases.store ((tokens cursor.index).identifier.applyColor? color) toward
    refine ⟨store ▸ .refl _, resolved_singleton.mpr ?_⟩
    intro index shade uses
    obtain ⟨rfl, rfl⟩ := uses.of_binding
    rw [← store]
    exact Context.resolves_of_tokenColor (congrFun same _) colored toward
  | @reference cursor context color isName colored =>
    have here : cursor.peek = tokens cursor.index := congrFun same cursor.index
    rw [here] at colored ⊢
    refine ⟨.refl _, resolved_singleton.mpr ?_⟩
    intro index shade uses
    obtain ⟨rfl, rfl⟩ := uses.of_reference
    exact Context.resolves_of_tokenColor (congrFun same _) colored before
  | call isName found taken fixed forward behind =>
    refine ⟨.refl _, resolved_singleton.mpr ?_⟩
    intro index shade uses
    cases uses with
    | argument isName ordinary handed =>
      exact Context.resolves_of_captureColors same taken fixed before isName ordinary handed
  | declaration forward inside templates written =>
    constructor
    · exact ((fresh.advances (.mark _ _ _ _)).declare _ _ _).trans (fresh.mark _ _)
    · apply resolved_singleton.mpr
      intro index shade uses
      cases uses
  | abandoned forward => exact ⟨fresh.mark _ _, trivial⟩

end Steps

/-! ## A whole walk -/

/-- What a walk records and resolves. -/
theorem Walk.resolved (walk : Walk reader places after) (ready : reader.cursor.Ready)
    (same : reader.cursor.tokenAt = tokens) (fresh : reader.context.Fresh floor)
    (below : ∀ id ∈ final.declarationScopes, id < floor) (toward : after.context.Toward final) :
    after.context.session.scopes.AgreeBelow floor
        (reader.context.session.scopes.replay (decisions final tokens places)) ∧
      Resolved final tokens reader.context.session.scopes places := by
  induction walk with
  | nil reader => exact ⟨.refl _, trivial⟩
  | step step => exact step.resolved same fresh toward
  | @append reader middle after firsts seconds one two first second =>
    have forward := one.forward ready
    have oneAdvances := one.advances fresh.nonempty
    have middleFresh := fresh.advances oneAdvances
    have middleToward := (two.advances middleFresh.nonempty).toward toward
    have middleSame : middle.cursor.tokenAt = tokens :=
      (funext forward.tokenAt).trans same
    obtain ⟨firstStore, firstResolved⟩ := first ready same fresh middleToward
    obtain ⟨secondStore, secondResolved⟩ :=
      second (forward.ready ready) middleSame middleFresh toward
    constructor
    · rw [decisions_append, ScopeStore.replay_append]
      exact secondStore.trans (firstStore.replay _)
    · exact resolved_append.mpr ⟨firstResolved, secondResolved.congr below firstStore⟩
  | @enclosed reader after places inner ih =>
    have allocated : reader.enter.context.session.scopes.AgreeBelow floor
        reader.context.session.scopes :=
      ScopeStore.AgreeBelow.alloc fresh.inside
    have innerToward : after.context.Toward final := by
      obtain ⟨hygiene, hygienic, within⟩ := toward
      exact ⟨hygiene, (Context.exitScope_hygiene _).symm.trans hygienic, within⟩
    obtain ⟨store, resolved⟩ := ih ready same fresh.enterScope innerToward
    constructor
    · rw [Reader.exit, Context.exitScope_session]
      exact store.trans (allocated.replay _)
    · exact resolved.congr below allocated

/-- A parser that has bound a name of the body has claimed the color. -/
theorem Walk.claimed (walk : Walk reader places after) (nonempty : reader.context.scopes ≠ [])
    (toward : after.context.Toward final) {identifier : Identifier}
    (mem : (index, Leaf.binding identifier) ∈ places) (body : final.origins[index]? = some .body) :
    ∃ color, final.color = some color := by
  induction walk with
  | nil reader => cases mem
  | step step =>
    cases step with
    | move forward => cases mem
    | @binding cursor context bound color isName binds colored =>
      obtain rfl : index = cursor.index := congrArg Prod.fst (List.mem_singleton.mp mem)
      obtain ⟨reached, hygienic', within⟩ := toward
      cases Context.binds_of_bindName binds with
      | plain plain =>
        rw [Context.mark_hygiene, plain] at hygienic'
        cases hygienic'
      | body hygienic _ =>
        rw [Context.bindBody_hygiene, Option.some.injEq] at hygienic'
        subst hygienic'
        exact ⟨_, within.color rfl⟩
      | invocation hygienic invocation =>
        rw [Context.mark_hygiene, hygienic, Option.some.injEq] at hygienic'
        subst hygienic'
        rw [← within.origins, invocation] at body
        cases body
    | reference isName colored
    | call isName found taken fixed forward behind
    | declaration forward inside templates written => cases List.mem_singleton.mp mem
    | abandoned forward => cases mem
  | append one two first second =>
    have oneAdvances := one.advances nonempty
    have middleNonempty := oneAdvances.scopes ▸ nonempty
    rcases List.mem_append.mp mem with early | late
    · exact first nonempty ((two.advances middleNonempty).toward toward) early
    · exact second middleNonempty toward late
  | enclosed inner ih =>
    obtain ⟨hygiene, hygienic, within⟩ := toward
    apply ih (List.cons_ne_nil _ _) _ mem
    exact ⟨hygiene, (Context.exitScope_hygiene _).symm.trans hygienic, within⟩

end Grammar

end MacroScript
