import MacroScript.Proofs.Extent.Tree
import MacroScript.Proofs.Hygiene.Source

/-!
# Names and macros within an extent

Reading a name or a macro call looks at the context of the parser, and reading a macro
declaration adds to it.  The macros that are added lie within the extent of the tokens they were
read from.
-/

namespace MacroScript.Extent

variable {e : Extent} {α β : Type} {good : α → Prop} {later : β → Prop} {first : Except Fault α}

/-- An answer that is `good`, or a fault within the extent. -/
def Answers (e : Extent) (good : α → Prop) : Except Fault α → Prop
  | .ok value => good value
  | .error fault => e.ContainsFault fault

protected theorem Answers.bind {next : α → Except Fault β} (one : e.Answers good first)
    (two : ∀ value, good value → e.Answers later (next value)) :
    e.Answers later (first >>= next) := by
  cases first with
  | error fault => exact one
  | ok value => exact two value one

theorem Answers.mono {weaker : α → Prop} {answer : Except Fault α} (one : e.Answers good answer)
    (implies : ∀ value, good value → weaker value) : e.Answers weaker answer := by
  cases answer with
  | error fault => exact one
  | ok value => exact implies value one

protected theorem Answers.map {change : α → β} (one : e.Answers good first)
    (holds : ∀ value, good value → later (change value)) : e.Answers later (first.map change) := by
  cases first with
  | error fault => exact one
  | ok value => exact holds value one

end MacroScript.Extent

namespace MacroScript.Grammar

open MacroScript.Extent MacroScript.Extent.Page MacroScript.Outcome

variable {e : Extent} {α : Type} {good : α → Prop} {tokens : List Token}

/-! ## Contexts -/

theorem answers_origin (hygiene : Hygiene) (index : Nat) :
    e.Answers (fun _ => True) (hygiene.origin index) := by
  unfold Hygiene.origin
  split
  · exact trivial
  · exact ⟨by simp, by simp, fun external => absurd rfl external⟩

variable (context : Context)

theorem answers_tokenColor (cursor : Cursor) (index : Nat) (name : String) :
    e.Answers (fun _ => True) (context.tokenColor cursor index name) := by
  unfold Context.tokenColor
  split
  · exact trivial
  · apply (answers_origin _ index).bind
    intro origin _
    cases origin <;> exact trivial

theorem answers_findMacro? (index : Nat) (name : String) :
    e.Answers (fun _ => True) (context.findMacro? index name) := by
  unfold Context.findMacro?
  split
  · exact trivial
  · exact (answers_origin _ index).bind fun _ _ => trivial

theorem mark_macros (stack : ScopeStack) (name : String) (color : Option Color) :
    (context.mark stack name color).session.macros = context.session.macros := by
  cases stack <;> rfl

theorem answers_bindName {context : Context} (known : e.ContainsSession context.session)
    (cursor : Cursor) (index : Nat) (name : String) :
    e.Answers (fun bound => e.ContainsSession bound.session)
      (context.bindName cursor index name) := by
  unfold Context.bindName
  split
  · exact known.of_macros (mark_macros _ _ _ _)
  · rename_i hygiene _
    apply (answers_origin hygiene index).bind
    intro origin _
    cases origin with
    | invocation => exact known.of_macros (mark_macros _ _ _ _)
    | body =>
      apply known.of_macros
      rw [mark_macros]
      cases hygiene.color <;> rfl

theorem answers_fixColors (cursor : Cursor) (index : Nat) (contains : e.ContainsTokens tokens) :
    e.Answers e.ContainsTokens (context.fixColors cursor index tokens) := by
  induction tokens generalizing index with
  | nil => exact contains
  | cons token rest ih =>
    rcases List.forall_mem_cons.mp contains with ⟨first, others⟩
    unfold Context.fixColors
    split
    · apply (answers_tokenColor context cursor index token.text).bind
      intro color _
      apply (ih (index + 1) others).bind
      intro fixed known
      exact List.forall_mem_cons.mpr ⟨first, known⟩
    · apply (ih (index + 1) others).bind
      intro fixed known
      exact List.forall_mem_cons.mpr ⟨first, known⟩

theorem answers_captureColors (cursor : Cursor) (index : Nat) (contains : e.ContainsTokens tokens) :
    e.Answers e.ContainsTokens (context.captureColors cursor index tokens) := by
  unfold Context.captureColors
  split
  · exact contains
  · exact answers_fixColors context cursor index contains

section Contexts

variable {page : Page e} {before : Nat → Prop}

theorem leads_withContext {otherwise : α} {ask : Context → Cursor → Except Fault α}
    (plain : good otherwise)
    (asked : ∀ context cursor, e.ContainsSession context.session →
      e.Answers good (ask context cursor)) :
    page.Leads before good (fun _ => before) (withContext otherwise ask) := by
  intro state holds known
  unfold withContext
  cases found : state.context with
  | none => exact ⟨holds, plain, known⟩
  | some context =>
    have answers := asked context state.cursor (holds.session context found)
    simp only
    cases asking : ask context state.cursor with
    | error fault =>
      rw [asking] at answers
      exact ⟨holds, answers⟩
    | ok value =>
      rw [asking] at answers
      exact ⟨holds, answers, known⟩

/-- Looking at the context. -/
theorem leads_lookContext (otherwise : α) (look : Context → α) :
    page.Leads before (fun _ => True) (fun _ => before)
      (withContext otherwise fun context _ => .ok (look context)) :=
  leads_withContext trivial fun _ _ _ => trivial

theorem leads_changeContext {change : Context → Context}
    (kept : ∀ context, e.ContainsSession context.session →
      e.ContainsSession (change context).session) :
    page.Leads before (fun _ => True) (fun _ => before) (changeContext change) :=
  fun _ holds known => ⟨holds.changed kept, trivial, known⟩

/-! ## Names -/

theorem leads_resolveName (identifier : Identifier) (index : Nat) :
    page.Leads before (·.span = identifier.span) (fun _ => before)
      (resolveName identifier index) := by
  apply (leads_withContext trivial fun context cursor _ =>
    answers_tokenColor context cursor index identifier.name).bind
  intro color _
  exact .pure (identifier.applyColor?_span color) fun _ => id

theorem leads_declareName (identifier : Identifier) (index : Nat) :
    page.Leads before (·.span = identifier.span) (fun _ => before)
      (declareName identifier index) := by
  have binds : page.Leads before (fun updated => ∀ context, updated = some context →
      e.ContainsSession context.session) (fun _ => before) (withContext none fun context cursor =>
        (context.bindName cursor index identifier.name).map some) := by
    apply leads_withContext (by simp)
    intro context cursor known
    refine (answers_bindName known cursor index identifier.name).map ?_
    rintro bound contains _ ⟨rfl⟩
    exact contains
  apply binds.bind
  intro updated known
  have updates : page.Leads before (fun _ => True) (fun _ => before)
      (modify fun state => { state with context := updated <|> state.context }) := by
    intro state holds place
    refine ⟨⟨holds.forward, ?_⟩, trivial, place⟩
    intro context found
    cases updated with
    | none => exact holds.session context found
    | some bound => exact known context found
  exact updates.bind fun _ _ => leads_resolveName identifier index

end Contexts

/-- The parser reads one token as a name. -/
def Names (page : Page e) (parser : Parser Identifier) : Prop :=
  ∀ first, page.Leads (· = first)
    (fun name => name.span = (page.tokenAt first).span ∧ first < page.size)
    (fun _ => (· = first + 1)) parser

variable {page : Page e}

theorem names_expectName : Names page expectName := by
  intro first
  apply first_peek.bind
  rintro _ rfl
  apply Leads.checked
  · intro isName
    apply (takes_advance (Token.isEnd_of_isName isName)).bind
    rintro _ rfl
    exact .pure ⟨rfl, page.ready.lt_of_isName isName⟩ fun _ => id
  · exact leads_unexpected

theorem names_bindingName : Names page bindingName := by
  intro first
  apply leads_index.bind fun place _ => (names_expectName first).bind fun name known => ?_
  exact (leads_declareName name place).mono (fun _ same => ⟨same.trans known.1, known.2⟩)
    fun _ _ _ => id

theorem names_referenceName : Names page referenceName := by
  intro first
  apply leads_index.bind fun place _ => (names_expectName first).bind fun name known => ?_
  exact (leads_resolveName name place).mono (fun _ same => ⟨same.trans known.1, known.2⟩)
    fun _ _ _ => id

/-- A name is a leaf at its token. -/
theorem Names.adds {parser : Parser Identifier} (names : Names page parser)
    {view : Identifier → Leaf} (placed : ∀ name, (view name).span = name.span)
    (ordinary : ∀ name, (view name).isMacro = false) :
    page.Adds 1 (fun name => [.leaf (view name)]) (fun _ => True) parser := by
  intro first
  refine (names first).mono (fun _ _ => trivial) ?_
  rintro name _ ⟨same, inside⟩ rfl
  refine ⟨Nat.le_refl _, .leaf (Nat.le_refl _) ?_ ?_ (.nil (Nat.le_refl _))⟩
  · rw [placed, same]
    exact .token inside
  · exact fun isMacro => Bool.noConfusion ((ordinary name).symm.trans isMacro)

theorem adds_bindingName :
    page.Adds 1 (fun name => [.ofName name]) (fun _ => True) bindingName :=
  names_bindingName.adds (fun _ => rfl) fun _ => rfl

theorem adds_referenceName :
    page.Adds 1 (fun name => [.leaf (.reference name)]) (fun _ => True) referenceName :=
  names_referenceName.adds (fun _ => rfl) fun _ => rfl

/-! ## Macro declarations -/

theorem adds_patternElement {content : Parser Pattern}
    (inner : page.Adds 0 (fun _ => []) e.ContainsPattern content) :
    page.Adds 0 (fun _ => []) e.ContainsElement (patternElement content) := by
  intro first
  apply Leads.opening
  apply leads_peek.bind
  intro token contains
  apply (leads_peekAt 1).bind
  intro following _
  apply Leads.ite
  · apply leads_advance.bind fun _ _ => leads_advance.bind fun _ _ => inner.more.bind fun elements
      known => (leads_expectPunct _).bind fun _ _ => leads_advance.bind fun separator placed => ?_
    apply Leads.ite (leads_malformed (fun _ _ => placed) _)
    exact (leads_finishSpan contains).bind fun _ whole => .list ⟨whole, known⟩ rfl
  · split
    · apply leads_advance.bind fun _ _ => (leads_expectPunct _).bind fun _ _ =>
        leads_advance.bind fun word placed => ?_
      split
      · exact .list contains rfl
      · exact leads_malformed (fun _ _ => placed) _
    · exact leads_advance.bind fun _ _ => .list trivial rfl

theorem adds_patternElements (bound : Nat) (closer : String) (inner : List String) :
    page.Adds 0 (fun _ => []) e.ContainsPattern (patternElements bound closer inner) := by
  induction bound generalizing closer inner with
  | zero => exact fun _ => leads_peek.bind fun _ contains => leads_malformed (fun _ _ => contains) _
  | succ bound ih =>
    intro first
    apply Leads.opening
    apply leads_peek.bind
    intro token contains
    apply Leads.ite (leads_malformed (fun _ _ => contains) _)
    refine Leads.ite (.list trivial rfl) ?_
    apply Leads.ite
    · exact leads_advance.bind fun _ _ => (ih _ _).more.bind fun _ rest =>
        .list ⟨trivial, rest⟩ rfl
    split
    · exact leads_advance.bind fun _ _ => (ih _ _).more.bind fun _ rest =>
        .list ⟨trivial, rest⟩ rfl
    · apply Leads.ite (leads_malformed (fun _ _ => contains) _)
      exact (adds_patternElement (ih _ _)).more.bind fun _ element => (ih _ _).more.bind
        fun _ rest => .list ⟨element, rest⟩ rfl

theorem adds_rule : page.Adds 0 (fun _ => []) e.ContainsRule rule :=
  fun _ => .opening <| (leads_expectPunct _).bind fun _ begins =>
    (leads_remaining.bind fun _ _ => (adds_patternElements _ _ _).more).bind fun _ elements =>
      (leads_expectPunct _).bind fun _ _ => (leads_expectPunct _).bind fun _ _ =>
        (leads_expectPunct _).bind fun _ _ => (leads_takeBalanced _).bind fun _ template =>
          (leads_finishSpan begins).bind fun _ _ => .list ⟨elements, template⟩ rfl

theorem adds_rulesOf (name : String) (bound : Nat) :
    page.Adds 0 (fun _ => []) (fun rules => ∀ rule ∈ rules, e.ContainsRule rule)
      (rulesOf name bound) := by
  induction bound with
  | zero => exact fun _ => .opening (.list (by simp) rfl)
  | succ bound ih =>
    intro first
    apply Leads.opening
    apply (leads_atPunct _).bind
    intro closed _
    refine Leads.ite (.list (by simp) rfl) ?_
    apply leads_peek.bind
    intro token contains
    apply Leads.ite (leads_malformed (fun _ _ => contains) _)
    exact adds_rule.more.bind fun _ first => ih.more.bind fun _ rest =>
      .list (List.forall_mem_cons.mpr ⟨first, rest⟩) rfl

theorem addsStmt_macroDeclaration (allowed : e.Macros) : page.AddsStmt True macroDeclaration := by
  intro first
  apply first_advance.bind
  rintro _ rfl
  apply leads_advance.bind
  intro nameToken _
  apply (leads_changeContext fun context known => known.of_macros (mark_macros _ _ _ _)).bind
    fun _ _ => (leads_expectPunct _).bind fun _ _ => leads_remaining.bind fun _ _ =>
      (adds_rulesOf _ _).more.bind fun rules known => leads_advance.bind fun _ _ =>
        (closes_finishSpan fun _ => rfl).bind fun span _ => ?_
  apply Leads.ite (leads_malformed (fun _ at' => at'.contains (List.mem_singleton.mpr rfl)) _)
  apply (leads_lookContext _ _).bind
  intro macroId _
  apply (leads_changeContext fun context contained => ?_).bind fun _ _ => ?_
  · exact contained.declareMacro _ known
  · refine Leads.pure (fun _ => trivial) fun index at' => ⟨?_, fun role _ => ?_⟩
    · exact (at'.leaf fun _ => allowed).weaken (Nat.le_add_left 1 _)
    · exact .of_slots rfl (by simp [Stmt.slots])

/-! ## Calls -/

theorem adds_macroCall (allowed : e.Macros) (macroId : MacroId) :
    page.Adds 1 (fun expr => [.ofExpr expr]) Expr.Respected (macroCall macroId) := by
  intro first
  apply first_advance.bind
  rintro _ rfl
  apply leads_advance.bind fun _ _ => leads_index.bind fun _ _ =>
    (leads_takeBalanced _).bind fun captured known => ?_
  apply (leads_withContext known fun context cursor _ =>
    answers_captureColors context cursor _ known).bind fun _ _ => ?_
  apply (closes_finishSpan fun _ => rfl).bind fun span _ => (leads_lookContext _ _).bind
    fun _ _ => ?_
  refine Leads.pure (.of_slots (by simp [Expr.slots])) fun index at' => ?_
  exact (at'.leaf fun _ => allowed).weaken (Nat.le_add_left 1 _)

/-- A macro is found only in a context. -/
theorem adds_nameExpression :
    page.Adds 1 (fun expr => [.ofExpr expr]) Expr.Respected nameExpression := by
  intro first
  apply leads_index.bind
  intro place _
  apply leads_peek.bind
  intro token _
  apply (leads_peekAt 1).bind
  intro following _
  have asked : page.Leads (· = first) (fun callee => callee.isSome = true → e.Macros)
      (fun _ => (· = first))
      (withContext none fun context _ => context.findMacro? place token.text) := by
    apply leads_withContext (by simp)
    intro context _ known
    exact (answers_findMacro? context place token.text).mono fun _ _ _ => known.allowed
  have notAsked : page.Leads (· = first) (· = none) (fun _ => (· = first))
      (pure none : Parser (Option MacroId)) := .pure rfl fun _ => id
  have named : page.Leads (· = first) Expr.Respected (fun expr => page.At first 1 [.ofExpr expr])
      (do return .identifier (← referenceName)) :=
    (adds_referenceName first).bind fun _ _ => .done (.of_slots (by simp [Expr.slots])) rfl
  apply Leads.ite
  · apply asked.bind
    intro callee known
    cases callee with
    | some macroId => exact adds_macroCall (known rfl) macroId first
    | none => exact named
  · apply notAsked.bind
    rintro _ rfl
    exact named

end MacroScript.Grammar
