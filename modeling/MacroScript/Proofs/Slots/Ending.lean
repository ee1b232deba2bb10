import MacroScript.Proofs.Slots.Tree

/-!
# Restrictions without roles

A statement is open-ended if it ends with an `if` that has no `else`: an `else` behind it would
be taken by that `if`.  This is all that a guarded slot asks of what stands in it, beyond what
every slot does.

So the restrictions can be said of nodes alone: no `if` with an `else` has an open-ended
consequent, and nothing but identifiers and members is assigned to.
-/

namespace MacroScript

/-- Whether a statement ends with an `if` that has no `else`. -/
def Stmt.openEnded : Stmt → Bool
  | .ifElse _ _ none _ => true
  | .ifElse _ _ (some alternate) _ => alternate.openEnded
  | .forLoop _ _ _ body _ => body.openEnded
  | .forEach _ _ _ body _ => body.openEnded
  | .whileLoop _ body _ => body.openEnded
  | _ => false

namespace Node

/-- If the node is an `if` with an `else`, then no `if` inside its consequent takes that
`else`. -/
def keepsElse : Node → Bool
  | .stmt (.ifElse _ consequent (some _) _) => !consequent.openEnded
  | _ => true

/-- What the node assigns to, updates or loops with is an identifier or a member. -/
def assignsPlace : Node → Bool
  | .expr (.assign _ target _ _) => target.isPlace
  | .expr (.update _ _ argument _) => argument.isPlace
  | .stmt (.forEach _ (.target assigned) _ _ _) => assigned.isPlace
  | _ => true

end Node

namespace Restriction

variable {stmt ending : Stmt} {slot : Slot}

/-- What the restriction asks of a node, wherever it stands. -/
def check : Restriction → Node → Bool
  | .branch => Node.keepsElse
  | .assignment => Node.assignsPlace

/-- What the role of a slot adds to the restriction. -/
def suits : Restriction → Slot → Bool
  | .branch, ⟨.guarded, .stmt stmt⟩ => !stmt.openEnded
  | .assignment, ⟨.target, .expr value⟩ => value.isPlace
  | _, _ => true

variable {restriction : Restriction} {role : Role}

@[simp]
theorem suits_plain (node : Node) : restriction.suits ⟨.plain, node⟩ = true := by
  cases restriction <;> rfl

@[simp]
theorem branch_suits_guarded (stmt : Stmt) :
    branch.suits ⟨.guarded, .stmt stmt⟩ = !stmt.openEnded := rfl

@[simp]
theorem branch_suits_expr (role : Role) (value : Expr) :
    branch.suits ⟨role, .expr value⟩ = true := by
  cases role <;> rfl

@[simp]
theorem assignment_suits_target (value : Expr) :
    assignment.suits ⟨.target, .expr value⟩ = value.isPlace := rfl

@[simp]
theorem assignment_suits_stmt (role : Role) (stmt : Stmt) :
    assignment.suits ⟨role, .stmt stmt⟩ = true := by
  cases role <;> rfl

/-- Of a statement, only matters whether it is open-ended. -/
theorem suits_stmt_congr {other : Stmt} (same : stmt.openEnded = other.openEnded) (role : Role) :
    restriction.suits ⟨role, .stmt stmt⟩ = restriction.suits ⟨role, .stmt other⟩ := by
  cases restriction <;> cases role <;> simp [suits, same]

theorem suits_stmt (closed : stmt.openEnded = false) (role : Role) :
    restriction.suits ⟨role, .stmt stmt⟩ = true := by
  cases restriction <;> cases role <;> simp [suits, closed]

theorem admits_of_suits (suited : restriction.suits slot = true) :
    restriction.admits slot = true := by
  rcases slot with ⟨role, value | stmt⟩
  · cases restriction <;> cases role <;> exact suited
  · have bare : stmt.isBareIf = true → stmt.openEnded = true := by
      unfold Stmt.isBareIf
      split <;> simp [Stmt.openEnded]
    cases restriction <;> cases role <;> simp_all [admits, suits]

/-! ## Roles -/

theorem holds_expr_iff (role : Role) (value : Expr) :
    restriction.Holds ⟨role, .expr value⟩ ↔
      restriction.suits ⟨role, .expr value⟩ = true ∧ restriction.Holds (.ofExpr value) := by
  have same : restriction.admits ⟨role, .expr value⟩ = restriction.suits ⟨role, .expr value⟩ := by
    cases restriction <;> cases role <;> rfl
  rw [holds_iff, holds_iff (.ofExpr value), same]
  simp [Slot.children]

/-- The role of a statement that ends with another one matters as much as it does to that
one. -/
theorem holds_ending_iff (last : restriction.Holds ⟨role, .stmt ending⟩ ↔
      restriction.suits ⟨role, .stmt ending⟩ = true ∧ restriction.Holds (.ofStmt ending))
    (front : List Slot) (slots : ∀ role, stmt.slots role = front ++ [⟨role, .stmt ending⟩])
    (notBare : stmt.isBareIf = false) (same : stmt.openEnded = ending.openEnded) :
    restriction.Holds ⟨role, .stmt stmt⟩ ↔
      restriction.suits ⟨role, .stmt stmt⟩ = true ∧ restriction.Holds (.ofStmt stmt) := by
  rw [holds_iff, holds_iff (.ofStmt stmt), suits_stmt_congr same]
  simp only [Slot.children, slots, admits_stmt notBare, Slot.allEverywhere_append,
    Slot.allEverywhere_cons, Slot.allEverywhere_nil, and_true, true_and, last]
  exact and_left_comm

theorem holds_closed_iff (closed : stmt.isClosed = true) :
    restriction.Holds ⟨role, .stmt stmt⟩ ↔
      restriction.suits ⟨role, .stmt stmt⟩ = true ∧ restriction.Holds (.ofStmt stmt) := by
  have notOpen : stmt.openEnded = false := by
    cases stmt <;> first | rfl | cases closed
  rw [holds_iff, holds_iff (.ofStmt stmt), suits_stmt notOpen,
    admits_stmt (Stmt.isBareIf_of_isClosed closed), admits_plain]
  simp [Slot.children, Stmt.slots_of_isClosed closed role]

theorem holds_stmt_iff (role : Role) (stmt : Stmt) :
    restriction.Holds ⟨role, .stmt stmt⟩ ↔
      restriction.suits ⟨role, .stmt stmt⟩ = true ∧ restriction.Holds (.ofStmt stmt) := by
  fun_induction Stmt.openEnded stmt with
  | case1 test consequent span =>
    rw [holds_iff, holds_iff (.ofStmt _)]
    cases restriction <;> cases role <;>
      simp [Slot.children, Stmt.slots, admits, suits, Stmt.isBareIf, Stmt.openEnded]
  | case2 test consequent alternate span ih =>
    exact holds_ending_iff ih [.ofExpr test, ⟨.guarded, .stmt consequent⟩] (fun _ => rfl) rfl rfl
  | case3 init test update body span ih =>
    exact holds_ending_iff ih (init.toList.flatMap ForInit.slots ++ test.toList.map .ofExpr ++
      update.toList.map .ofExpr) (fun _ => rfl) rfl rfl
  | case4 kind left right body span ih =>
    exact holds_ending_iff ih (left.slots ++ [.ofExpr right]) (by simp [Stmt.slots]) rfl rfl
  | case5 test body span ih =>
    exact holds_ending_iff ih [.ofExpr test] (fun _ => rfl) rfl rfl
  | case6 stmt notBare notElse notLoop notEach notWhile =>
    apply holds_closed_iff
    cases stmt with
    | ifElse test consequent alternate span =>
      cases alternate with
      | none => exact absurd rfl (notBare test consequent span)
      | some other => exact absurd rfl (notElse test consequent other span)
    | forLoop init test update body span => exact absurd rfl (notLoop init test update body span)
    | forEach kind left right body span => exact absurd rfl (notEach kind left right body span)
    | whileLoop test body span => exact absurd rfl (notWhile test body span)
    | _ => rfl

/-! ## Checking nodes -/

@[simp]
theorem suits_block (block : Block Stmt) : block.slots.all restriction.suits = true := by
  simp [Block.slots]

@[simp]
theorem suits_declaration (declared : Declaration Expr) :
    declared.slots.all restriction.suits = true := by
  simp [Declaration.slots, Declarator.slots, List.all_flatMap]

@[simp]
theorem suits_arrowBody (body : ArrowBody Expr Stmt) :
    body.slots.all restriction.suits = true := by
  cases body <;> simp [ArrowBody.slots]

@[simp]
theorem suits_memberKey (key : MemberKey Expr) : key.slots.all restriction.suits = true := by
  cases key <;> simp [MemberKey.slots]

@[simp]
theorem suits_propertyKey (key : PropertyKey Expr) : key.slots.all restriction.suits = true := by
  cases key <;> simp [PropertyKey.slots]

@[simp]
theorem suits_forInit (init : ForInit Expr) : init.slots.all restriction.suits = true := by
  cases init <;> simp [ForInit.slots]

/-- What ends a statement suits if the statement does. -/
theorem suits_ending (suited : restriction.suits ⟨role, .stmt stmt⟩ = true)
    (same : stmt.openEnded = ending.openEnded) : restriction.suits ⟨role, .stmt ending⟩ = true := by
  rwa [← suits_stmt_congr same]

theorem keepsElse_iff (suited : branch.suits slot = true) :
    slot.children.all branch.suits = true ↔ slot.node.keepsElse = true := by
  rcases slot with ⟨role, value | stmt⟩
  · cases value <;>
      simp [Slot.children, Expr.slots, Property.slots, List.all_flatMap, Node.keepsElse]
  · cases stmt with
    | expression value span =>
      cases value <;> simp [Slot.children, Stmt.slots, Node.keepsElse]
    | ifElse test consequent alternate span =>
      cases alternate with
      | none => simp [Slot.children, Stmt.slots, Node.keepsElse]
      | some other =>
        have last : branch.suits ⟨role, .stmt other⟩ = true := suits_ending suited rfl
        simp [Slot.children, Stmt.slots, last, Node.keepsElse]
    | forLoop init test update body span =>
      have last : branch.suits ⟨role, .stmt body⟩ = true := suits_ending suited rfl
      simp [Slot.children, Stmt.slots, List.all_flatMap, last, Node.keepsElse]
    | forEach kind left right body span =>
      have last : branch.suits ⟨role, .stmt body⟩ = true := suits_ending suited rfl
      cases left <;> simp [Slot.children, Stmt.slots, ForHead.slots, last, Node.keepsElse]
    | whileLoop test body span =>
      have last : branch.suits ⟨role, .stmt body⟩ = true := suits_ending suited rfl
      simp [Slot.children, Stmt.slots, last, Node.keepsElse]
    | _ => simp [Slot.children, Stmt.slots, List.all_flatMap, Case.slots, Node.keepsElse]

theorem assignsPlace_iff (slot : Slot) :
    slot.children.all assignment.suits = true ↔ slot.node.assignsPlace = true := by
  rcases slot with ⟨role, value | stmt⟩
  · cases value <;>
      simp [Slot.children, Expr.slots, Property.slots, List.all_flatMap, Node.assignsPlace]
  · cases stmt with
    | expression value span =>
      cases value <;> simp [Slot.children, Stmt.slots, Node.assignsPlace]
    | ifElse test consequent alternate span =>
      cases alternate <;> simp [Slot.children, Stmt.slots, Node.assignsPlace]
    | forEach kind left right body span =>
      cases left <;> simp [Slot.children, Stmt.slots, ForHead.slots, Node.assignsPlace]
    | _ => simp [Slot.children, Stmt.slots, List.all_flatMap, Case.slots, Node.assignsPlace]

/-- In a slot that suits it, a node passes its check exactly if the slots inside it suit what
stands in them. -/
theorem check_iff (suited : restriction.suits slot = true) :
    slot.children.all restriction.suits = true ↔ restriction.check slot.node = true := by
  cases restriction with
  | branch => exact keepsElse_iff suited
  | assignment => exact assignsPlace_iff slot

theorem holds_iff_plain (slot : Slot) :
    restriction.Holds slot ↔
      restriction.suits slot = true ∧ restriction.Holds ⟨.plain, slot.node⟩ := by
  rcases slot with ⟨role, value | stmt⟩
  · exact holds_expr_iff role value
  · exact holds_stmt_iff role stmt

/-- A slot respects the restriction exactly if it suits what stands in it and all nodes inside
pass their checks. -/
theorem holds_iff_checked (slot : Slot) :
    restriction.Holds slot ↔ restriction.suits slot = true ∧
      slot.Everywhere fun inner => restriction.check inner.node = true := by
  constructor
  · intro holds
    constructor
    · exact ((holds_iff_plain slot).mp holds).1
    · induction holds with
      | @intro slot here inside ih =>
        have suited : restriction.suits slot = true :=
          ((holds_iff_plain slot).mp (.intro here inside)).1
        refine .intro ((check_iff suited).mp ?_) ih
        rw [List.all_eq_true]
        intro child mem
        exact ((holds_iff_plain child).mp (inside child mem)).1
  · rintro ⟨suited, checked⟩
    induction checked with
    | @intro slot here inside ih =>
      have children := List.all_eq_true.mp ((check_iff suited).mpr here)
      exact .intro (admits_of_suits suited) fun child mem => ih child mem (children child mem)

/-- A program respects the restriction exactly if all its nodes pass their checks. -/
theorem holdsAll_program_iff (program : Program) :
    restriction.HoldsAll (Block.slots program) ↔
      program.Everywhere fun node => restriction.check node = true := by
  have each : ∀ stmt, restriction.Holds (.ofStmt stmt) ↔
      (Slot.ofStmt stmt).Everywhere fun inner => restriction.check inner.node = true := by
    intro stmt
    rw [holds_iff_checked]
    exact and_iff_right (suits_plain _)
  simp only [Program.Everywhere, Block.slots, Slot.allEverywhere_map, each]

end Restriction

end MacroScript
