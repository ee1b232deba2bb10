import MacroScript.Proofs.Extent.Page
import MacroScript.Proofs.Slots.Tree

/-!
# Good trees

Two things are known of a tree that was read.  Its outline is arranged on the page, and it respects
the restrictions on its slots, macro calls aside.

Which roles a statement may have depends on what follows it, so this is known of it at the index
where its parser stopped.
-/

namespace MacroScript

/-! ## Restrictions -/

/-- The slots respect every restriction, macro calls aside. -/
def Slot.AllRespected (slots : List Slot) : Prop :=
  ∀ restriction : Restriction, restriction.AllowsAll slots

/-- A statement with a role respects every restriction, macro calls aside. -/
def Stmt.Respected (role : Role) (stmt : Stmt) : Prop :=
  ∀ restriction : Restriction, restriction.Allows ⟨role, .stmt stmt⟩

/-- Where nothing is asked of an expression, it respects every restriction if its slots do. -/
def Expr.Respected (expr : Expr) : Prop :=
  Slot.AllRespected expr.slots

theorem Expr.Respected.of_slots {expr : Expr} (slots : Slot.AllRespected expr.slots) :
    expr.Respected :=
  slots

namespace Slot

@[simp]
theorem allRespected_nil : AllRespected [] := by
  simp [AllRespected]

@[simp]
theorem allRespected_append (first second : List Slot) :
    AllRespected (first ++ second) ↔ AllRespected first ∧ AllRespected second := by
  simp [AllRespected, forall_and]

@[simp]
theorem allRespected_expr (expr : Expr) (rest : List Slot) :
    AllRespected (.ofExpr expr :: rest) ↔ expr.Respected ∧ AllRespected rest := by
  simp [AllRespected, Expr.Respected, Restriction.allows_ofExpr, forall_and]

@[simp]
theorem allRespected_stmt (role : Role) (stmt : Stmt) (rest : List Slot) :
    AllRespected (⟨role, .stmt stmt⟩ :: rest) ↔ stmt.Respected role ∧ AllRespected rest := by
  simp [AllRespected, Stmt.Respected, forall_and]

/-- An expression that was checked may be assigned to. -/
theorem allRespected_target {target : Expr} {rest : List Slot}
    (assignable : target.isAssignmentTarget = true) (inner : target.Respected)
    (others : AllRespected rest) : AllRespected (⟨.target, .expr target⟩ :: rest) := by
  intro restriction
  have plain := (Restriction.allows_ofExpr target).mpr (inner restriction)
  exact (allEverywhere_cons _ _).mpr ⟨plain.target assignable, others restriction⟩

@[simp]
theorem allRespected_map {α : Type} (view : α → Slot) (items : List α) :
    AllRespected (items.map view) ↔ ∀ item ∈ items, AllRespected [view item] := by
  simp only [AllRespected, allEverywhere_map, allEverywhere_cons, allEverywhere_nil, and_true]
  exact ⟨fun all item mem restriction => all restriction item mem,
    fun all restriction item mem => all item mem restriction⟩

@[simp]
theorem allRespected_flatMap {α : Type} (view : α → List Slot) (items : List α) :
    AllRespected (items.flatMap view) ↔ ∀ item ∈ items, AllRespected (view item) := by
  simp only [AllRespected, allEverywhere_flatMap]
  exact ⟨fun all item mem restriction => all restriction item mem,
    fun all restriction item mem => all item mem restriction⟩

end Slot

namespace Stmt.Respected

variable {stmt : Stmt} {role : Role} {span : Span}

/-- A statement that is no `if` without `else` may stand in every slot. -/
theorem of_slots (notBare : stmt.isBareIf = false) (slots : Slot.AllRespected (stmt.slots role)) :
    stmt.Respected role :=
  fun restriction => .intro (Restriction.permits_stmt notBare role) (slots restriction)

/-- An `if` without `else` may stand where no `else` can follow. -/
theorem ifOnly {test : Expr} {consequent : Stmt} (tested : test.Respected)
    (inner : consequent.Respected .plain) (last : role ≠ .guarded) :
    (Stmt.ifElse test consequent none span).Respected role := by
  intro restriction
  have slots : Slot.AllRespected ((Stmt.ifElse test consequent none span).slots role) := by
    simp [Stmt.slots, tested, inner]
  refine .intro ?_ (slots restriction)
  cases role <;> cases restriction <;> simp_all [Restriction.permits, Restriction.admits]

theorem expression {value : Expr} (inner : value.Respected) :
    (Stmt.expression value span).Respected role := by
  refine of_slots rfl ?_
  cases value <;> simp [Stmt.slots, inner]

end Stmt.Respected

/-! ## Statements on a page -/

namespace Extent.Page

open MacroScript.Grammar MacroScript.Outcome

variable {e : Extent} (page : Page e)

/-- What is known behind a statement: it respects the restrictions in every role that what follows
gives to it. -/
structure Ends (first gained : Nat) (read : List Outline) (stmt : Stmt) (index : Nat) : Prop where
  known : page.At first gained read index
  respected (role : Role)
    (next : role = .guarded → (page.tokenAt index).isReserved "else" = true) : stmt.Respected role

/-- The parser adds a statement.  It is a macro declaration only if `declares` says so. -/
def AddsStmt (declares : Prop) (parser : Parser Stmt) : Prop :=
  ∀ first, page.Leads (· = first) (fun stmt => stmt.isMacro = true → declares)
    (fun stmt => page.Ends first 1 [.ofStmt stmt] stmt) parser

variable {page} {declares : Prop} {parser : Parser Stmt} {first gained : Nat} {read : List Outline}

theorem Ends.plain {stmt : Stmt} {index : Nat} (ends : page.Ends first gained read stmt index) :
    stmt.Respected .plain :=
  ends.respected .plain nofun

theorem AddsStmt.more (adds : page.AddsStmt declares parser) :
    page.Leads (page.At first gained read) (fun stmt => stmt.isMacro = true → declares)
      (fun stmt => page.Ends first (gained + 1) (read ++ [.ofStmt stmt]) stmt) parser := by
  apply Leads.anywhere adds
  intro middle value index known holds ends
  exact ⟨holds, known.append ends.known, ends.respected⟩

/-- A statement of which nothing is asked. -/
theorem AddsStmt.plain (adds : page.AddsStmt declares parser) :
    page.Adds 1 (fun stmt => [.ofStmt stmt]) (Stmt.Respected .plain) parser := by
  intro first state holds known
  exact (adds first state holds known).imp
    (fun _ _ reached => ⟨reached.1, reached.2.2.plain, reached.2.2.known⟩)
    fun _ _ => id

/-- A statement that ends with a token of its own. -/
theorem Leads.closed {outline : Outline} {stmt : Stmt}
    (respected : ∀ role, stmt.Respected role) (ordinary : stmt.isMacro = false)
    (same : Outline.ofStmt stmt = outline) :
    page.Leads (page.At first (gained + 1) [outline]) (fun stmt => stmt.isMacro = true → declares)
      (fun stmt => page.Ends first 1 [.ofStmt stmt] stmt) (pure stmt) := by
  refine Leads.pure (fun isMacro => Bool.noConfusion (ordinary.symm.trans isMacro))
    fun index known => ⟨?_, fun role _ => respected role⟩
  rw [same]
  exact known.weaken (Nat.le_add_left 1 gained)

/-- A statement that ends with another one is followed by what follows that one. -/
theorem Leads.ending {build : Stmt → Span → Stmt} {start : Span}
    (begins : page.Starts first start) (adds : page.AddsStmt True parser)
    (outline : ∀ body span, Outline.ofStmt (build body span) = .node span (read ++ [.ofStmt body]))
    (respected : ∀ role body span, body.Respected role → (build body span).Respected role)
    (ordinary : ∀ body span, (build body span).isMacro = false) :
    page.Leads (page.At first gained read) (fun stmt => stmt.isMacro = true → declares)
      (fun stmt => page.Ends first 1 [.ofStmt stmt] stmt) (do
        let body ← parser
        return build body (← finishSpan start)) := by
  apply adds.more.bind
  intro body _ state holds ends
  -- Computing the span does not move the cursor.
  obtain ⟨-, -, node⟩ := closes_finishSpan begins state holds ends.known
  refine ⟨holds, fun isMacro => Bool.noConfusion ((ordinary _ _).symm.trans isMacro), ?_, ?_⟩
  · rw [outline]
    exact node.weaken (Nat.le_add_left 1 gained)
  · exact fun role next => respected role _ _ (ends.respected role next)

/-- What is known of a program: its statements are arranged on the page, and it is a node itself
unless it is empty. -/
structure Contents (page : Page e) (first : Nat) (program : Program) (index : Nat) : Prop where
  body : page.At first 0 (Outline.ofStmts program.body) index
  whole (nonempty : program.body ≠ []) : page.At first 1 [.ofBlock program] index

end Extent.Page

end MacroScript
