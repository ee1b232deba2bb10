import MacroScript.Proofs.Hygiene.Store
import MacroScript.Proofs.Reading.Naming

/-!
# What a walk leaves behind

A walk only adds to a session: scopes and macros are never removed, and colors are
given out in order.  The scopes that were open at its beginning are open again at its
end.  While an expansion is read, its color is claimed at most once.
-/

namespace MacroScript

/-! ## Growing sessions -/

/-- A macro after one was added was there before, or is the new one. -/
theorem Registry.known_of_add {registry : Registry} {added known : MacroDef} {id : MacroId}
    (found : (registry.add added).get? id = some known) :
    registry.get? id = some known ∨ known = added := by
  rw [add, get?, Array.getElem?_push] at found
  split at found
  · exact .inr (Option.some.inj found).symm
  · exact .inl found

/-- Scopes, macros and colors of a session are still there in a later one. -/
structure Session.Grows (before after : Session) : Prop where
  scopes : before.scopes.size ≤ after.scopes.size
  macros {id : MacroId} {definition : MacroDef}
    (found : before.macros.get? id = some definition) : after.macros.get? id = some definition
  colors : before.lastColor ≤ after.lastColor

namespace Session.Grows

variable (session : Session)

theorem refl : session.Grows session :=
  ⟨Nat.le_refl _, id, Nat.le_refl _⟩

theorem trans {first second third : Session} (one : first.Grows second)
    (two : second.Grows third) : first.Grows third where
  scopes := Nat.le_trans one.scopes two.scopes
  macros found := two.macros (one.macros found)
  colors := Nat.le_trans one.colors two.colors

theorem allocScope : session.Grows session.allocScope := by
  refine ⟨?_, id, Nat.le_refl _⟩
  rw [Session.allocScope, ScopeStore.size_alloc]
  exact Nat.le_succ _

theorem markColor (scope : ScopeId) (name : String) (color : Option Color) :
    session.Grows (session.markColor scope name color) :=
  ⟨Nat.le_of_eq (ScopeStore.size_markColor _ _ _ _).symm, id, Nat.le_refl _⟩

theorem declareMacro (scope : ScopeId) (definition : MacroDef) :
    session.Grows (session.declareMacro scope definition) where
  scopes := Nat.le_of_eq (ScopeStore.size_bindMacro _ _ _ _).symm
  macros {id known} found := by
    have inside : id < session.macros.size := (Array.getElem?_eq_some_iff.mp found).1
    rw [Session.declareMacro, Registry.get?_add, if_neg (Nat.ne_of_lt inside), found]
  colors := Nat.le_refl _

theorem claimColor (hygiene : Hygiene) : session.Grows (session.claimColor hygiene).2.2 := by
  unfold Session.claimColor
  split
  · exact refl session
  · exact ⟨Nat.le_refl _, id, Nat.le_succ _⟩

theorem macros_size_le {before after : Session} (grows : before.Grows after) :
    before.macros.size ≤ after.macros.size := by
  rcases Nat.eq_zero_or_pos before.macros.size with none | some
  · exact none ▸ Nat.zero_le _
  · have last := Nat.sub_one_lt_of_lt some
    have found := grows.macros (Array.getElem?_eq_getElem last)
    have inside : before.macros.size - 1 < after.macros.size :=
      (Array.getElem?_eq_some_iff.mp found).1
    exact Nat.le_of_pred_lt inside

end Session.Grows

namespace Grammar

variable {reader after : Reader} {places : List Place}

/-! ## Claims -/

/-- How the hygiene of a parser and the last color may change together: not at all, or by
giving the next color to an expansion that had none. -/
inductive Claims : Option Hygiene → Color → Option Hygiene → Color → Prop
  | keep {hygiene : Option Hygiene} {last : Color} : Claims hygiene last hygiene last
  | claim {hygiene : Hygiene} {last : Color} (free : hygiene.color = none) :
      Claims (some hygiene) last (some { hygiene with color := some (last + 1) }) (last + 1)

namespace Claims

variable {low high : Color}

theorem trans {first second third : Option Hygiene} {middle : Color}
    (one : Claims first low second middle) (two : Claims second middle third high) :
    Claims first low third high := by
  cases one with
  | keep => exact two
  | claim free =>
    cases two with
    | keep => exact .claim free
    | claim taken => cases taken

/-- Without hygiene nothing is claimed. -/
theorem of_none {hygiene : Option Hygiene} (claims : Claims none low hygiene high) :
    hygiene = none ∧ high = low := by
  cases claims
  exact ⟨rfl, rfl⟩

end Claims

/-! ## Steps and walks -/

/-- How a context changes while a parser works: its session grows, its scopes are the same
again, and at most one color is claimed. -/
structure Context.Advances (before after : Context) : Prop where
  grows : before.session.Grows after.session
  scopes : after.scopes = before.scopes
  claims : Claims before.hygiene before.session.lastColor after.hygiene after.session.lastColor

namespace Context.Advances

variable {context : Context}

theorem refl (context : Context) : context.Advances context :=
  ⟨.refl _, rfl, .keep⟩

theorem trans {first second third : Context} (one : first.Advances second)
    (two : second.Advances third) : first.Advances third :=
  ⟨one.grows.trans two.grows, two.scopes.trans one.scopes, one.claims.trans two.claims⟩

theorem mark (context : Context) (stack : ScopeStack) (name : String) (color : Option Color) :
    context.Advances (context.mark stack name color) := by
  cases stack with
  | nil => exact refl context
  | cons innermost outer => exact ⟨.markColor _ _ _ _, rfl, .keep⟩

theorem bindBody {hygiene : Hygiene} (hygienic : context.hygiene = some hygiene) (name : String) :
    context.Advances (context.bindBody hygiene name) := by
  have claimed : context.Advances
      { context with
        session := (context.session.claimColor hygiene).2.2
        hygiene := some (context.session.claimColor hygiene).2.1 } := by
    refine ⟨.claimColor _ _, rfl, ?_⟩
    unfold Session.claimColor
    cases free : hygiene.color with
    | none =>
      simp only [hygienic]
      exact .claim free
    | some color =>
      simp only [hygienic]
      exact .keep
  exact claimed.trans (mark _ _ _ _)

theorem declare (context : Context) (name : String) (rules : List Rule) (span : Span) :
    context.Advances (context.declare name rules span) :=
  ⟨.declareMacro _ _ _, rfl, .keep⟩

theorem of_binds {bound : Context} {token : Token} {index : Nat} {name : String}
    (binds : Binds context token index name bound) : context.Advances bound := by
  cases binds with
  | plain plain => exact mark _ _ _ _
  | body hygienic body => exact bindBody hygienic name
  | invocation hygienic invocation => exact mark _ _ _ _

end Context.Advances

theorem Step.advances (step : Step reader places after) :
    reader.context.Advances after.context := by
  cases step with
  | move forward => exact .refl _
  | binding isName binds colored => exact .of_binds (Context.binds_of_bindName binds)
  | reference isName colored
  | call isName found taken fixed forward behind => exact .refl _
  | declaration forward inside templates written =>
    exact (Context.Advances.mark _ _ _ _).trans (.declare _ _ _ _)
  | abandoned forward => exact .mark _ _ _ _

@[simp]
theorem Context.exitScope_session (context : Context) :
    context.exitScope.session = context.session := by
  unfold Context.exitScope
  split <;> rfl

/-- Closing a scope that was opened on top of others restores them. -/
theorem Context.Advances.exitScope {before after : Context} (nonempty : before.scopes ≠ [])
    (inner : before.enterScope.Advances after) : before.Advances after.exitScope := by
  obtain ⟨head, outer, stack⟩ := List.exists_cons_of_ne_nil nonempty
  have opened : after.scopes = before.session.scopes.size :: head :: outer := by
    rw [inner.scopes, Context.enterScope, stack]
  unfold Context.exitScope
  rw [opened]
  exact ⟨(Session.Grows.allocScope _).trans inner.grows, stack.symm, inner.claims⟩

theorem Walk.advances (walk : Walk reader places after) (nonempty : reader.context.scopes ≠ []) :
    reader.context.Advances after.context := by
  induction walk with
  | nil reader => exact .refl _
  | step step => exact step.advances
  | append one two first second =>
    have middle := first nonempty
    exact middle.trans (second (middle.scopes ▸ nonempty))
  | enclosed inner ih =>
    exact Context.Advances.exitScope nonempty (ih (List.cons_ne_nil _ _))

end Grammar

end MacroScript
