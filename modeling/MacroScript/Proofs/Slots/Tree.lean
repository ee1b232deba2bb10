import MacroScript.Tree
import Mathlib.Tactic.Common

/-!
# Slots of a tree

The grammar asks more of some places in a tree than of others.  What is assigned to must be
an identifier or a member.  A statement between an `if` and the `else` that belongs to it must
not end with an `if` that has no `else` of its own, which would take this one.

A slot is a node with the role that the tree around it gives to it.  The slots directly inside
a slot are listed from left to right, which is the order in which splicing visits them.
-/

namespace MacroScript

variable {test : Node → Bool} {program : Program}

/-- An expression or a statement. -/
inductive Node where
  | expr (value : Expr)
  | stmt (value : Stmt)

/-- What the tree around a node asks of it. -/
inductive Role where
  /-- Nothing in particular. -/
  | plain
  /-- An `else` follows that belongs to an `if` further out. -/
  | guarded
  /-- It is assigned to. -/
  | target
deriving DecidableEq

/-- A node in its place. -/
structure Slot where
  role : Role
  node : Node

/-! ## The slots of containers -/

/-- An expression of which nothing is asked. -/
abbrev Slot.ofExpr (value : Expr) : Slot :=
  ⟨.plain, .expr value⟩

/-- A statement of which nothing is asked. -/
abbrev Slot.ofStmt (stmt : Stmt) : Slot :=
  ⟨.plain, .stmt stmt⟩

def MemberKey.slots : MemberKey Expr → List Slot
  | .named _ => []
  | .computed value => [.ofExpr value]

def PropertyKey.slots : PropertyKey Expr → List Slot
  | .identifier _ | .string _ | .number _ => []
  | .computed value => [.ofExpr value]

def Property.slots (property : Property Expr) : List Slot :=
  property.key.slots ++ [.ofExpr property.value]

def Block.slots (block : Block Stmt) : List Slot :=
  block.body.map .ofStmt

def ArrowBody.slots : ArrowBody Expr Stmt → List Slot
  | .expression value => [.ofExpr value]
  | .block inner => inner.slots

def Declarator.slots (declarator : Declarator Expr) : List Slot :=
  declarator.init.toList.map .ofExpr

def Declaration.slots (declaration : Declaration Expr) : List Slot :=
  declaration.declarators.flatMap Declarator.slots

def ForInit.slots : ForInit Expr → List Slot
  | .declaration declared => declared.slots
  | .expression value => [.ofExpr value]

def ForHead.slots : ForHead Expr → List Slot
  | .declared _ _ => []
  | .target assigned => [⟨.target, .expr assigned⟩]

def Case.slots (case : Case Expr Stmt) : List Slot :=
  case.test.toList.map .ofExpr ++ case.body.map .ofStmt

/-! ## The slots of nodes -/

/-- The slots directly inside an expression. -/
def Expr.slots : Expr → List Slot
  | .identifier _ | .literal _ | .this _ | .invocation _ => []
  | .array elements _ => elements.map .ofExpr
  | .object properties _ => properties.flatMap Property.slots
  | .function inner => inner.body.slots
  | .arrow inner => inner.body.slots
  | .unary _ argument _ => [.ofExpr argument]
  | .update _ _ argument _ => [⟨.target, .expr argument⟩]
  | .binary _ left right _ => [.ofExpr left, .ofExpr right]
  | .assign _ target value _ => [⟨.target, .expr target⟩, .ofExpr value]
  | .conditional test consequent alternate _ =>
    [.ofExpr test, .ofExpr consequent, .ofExpr alternate]
  | .call callee arguments _ _ => .ofExpr callee :: arguments.map .ofExpr
  | .construct callee arguments _ => .ofExpr callee :: arguments.map .ofExpr
  | .member base key _ _ => .ofExpr base :: key.slots
  | .sequence expressions _ => expressions.map .ofExpr

/-- The slots directly inside a statement with the given role.  What ends the statement has
the role of the statement.  A macro call that is a whole statement has no slots. -/
def Stmt.slots (role : Role) : Stmt → List Slot
  | .expression (.invocation _) _ => []
  | .expression value _ => [.ofExpr value]
  | .declaration declared => declared.slots
  | .function inner => inner.body.slots
  | .returns argument _ => argument.toList.map .ofExpr
  | .ifElse test consequent none _ => [.ofExpr test, .ofStmt consequent]
  | .ifElse test consequent (some alternate) _ =>
    [.ofExpr test, ⟨.guarded, .stmt consequent⟩, ⟨role, .stmt alternate⟩]
  | .forLoop init test update body _ =>
    init.toList.flatMap ForInit.slots ++ test.toList.map .ofExpr ++
      update.toList.map .ofExpr ++ [⟨role, .stmt body⟩]
  | .forEach _ left right body _ => left.slots ++ [.ofExpr right, ⟨role, .stmt body⟩]
  | .whileLoop test body _ => [.ofExpr test, ⟨role, .stmt body⟩]
  | .doWhile body test _ => [.ofStmt body, .ofExpr test]
  | .breaks _ | .continues _ | .empty _ | .macroDeclaration _ => []
  | .throws argument _ => [.ofExpr argument]
  | .tryCatch inner clause finalizer _ =>
    inner.slots ++ clause.toList.flatMap (·.body.slots) ++ finalizer.toList.flatMap Block.slots
  | .switch discriminant cases _ => .ofExpr discriminant :: cases.flatMap Case.slots
  | .block inner => inner.slots

namespace Slot

variable {slot : Slot}

/-- The slots directly inside a slot. -/
def children : Slot → List Slot
  | ⟨_, .expr value⟩ => value.slots
  | ⟨role, .stmt value⟩ => value.slots role

/-- The macro call that stands in a slot. -/
def call? : Slot → Option Invocation
  | ⟨_, .expr (.invocation call)⟩ => some call
  | ⟨_, .stmt (.expression (.invocation call) _)⟩ => some call
  | _ => none

theorem children_of_call? {call : Invocation} (calls : slot.call? = some call) :
    slot.children = [] := by
  unfold call? at calls
  split at calls
  · simp [children, Expr.slots]
  · simp [children, Stmt.slots]
  · cases calls

/-! ## Properties of all slots -/

/-- The property holds of a slot and of all slots inside it. -/
inductive Everywhere (holds : Slot → Prop) : Slot → Prop
  | intro {slot : Slot} (here : holds slot)
      (inside : ∀ child ∈ slot.children, Everywhere holds child) : Everywhere holds slot

theorem everywhere_iff {holds : Slot → Prop} :
    slot.Everywhere holds ↔
      holds slot ∧ ∀ child ∈ slot.children, child.Everywhere holds := by
  constructor
  · rintro ⟨here, inside⟩
    exact ⟨here, inside⟩
  · rintro ⟨here, inside⟩
    exact .intro here inside

/-- Whether a test passes at a slot and at all slots inside it.  Slots may be nested as deep as
the bound says. -/
def passes (test : Slot → Bool) : (bound : Nat) → Slot → Bool
  | 0, _ => false
  | bound + 1, slot => test slot && slot.children.all (passes test bound)

theorem everywhere_of_passes {test : Slot → Bool} {bound : Nat}
    (passed : slot.passes test bound = true) : slot.Everywhere fun inner => test inner = true := by
  induction bound generalizing slot with
  | zero => cases passed
  | succ bound ih =>
    rw [passes, Bool.and_eq_true, List.all_eq_true] at passed
    rcases passed with ⟨here, inside⟩
    exact .intro here fun child mem => ih (inside child mem)

/-- The property holds of the slots and of all slots inside them. -/
def AllEverywhere (holds : Slot → Prop) (slots : List Slot) : Prop :=
  ∀ slot ∈ slots, slot.Everywhere holds

section Lists

variable {holds : Slot → Prop}

@[simp]
theorem allEverywhere_nil : AllEverywhere holds [] := by
  simp [AllEverywhere]

@[simp]
theorem allEverywhere_cons (slot : Slot) (rest : List Slot) :
    AllEverywhere holds (slot :: rest) ↔ slot.Everywhere holds ∧ AllEverywhere holds rest := by
  simp [AllEverywhere]

@[simp]
theorem allEverywhere_append (first second : List Slot) :
    AllEverywhere holds (first ++ second) ↔
      AllEverywhere holds first ∧ AllEverywhere holds second := by
  simp [AllEverywhere, or_imp, forall_and]

@[simp]
theorem allEverywhere_map {α : Type} (view : α → Slot) (items : List α) :
    AllEverywhere holds (items.map view) ↔ ∀ item ∈ items, (view item).Everywhere holds := by
  simp [AllEverywhere]

@[simp]
theorem allEverywhere_flatMap {α : Type} (view : α → List Slot) (items : List α) :
    AllEverywhere holds (items.flatMap view) ↔
      ∀ item ∈ items, AllEverywhere holds (view item) := by
  simp only [AllEverywhere, List.mem_flatMap]
  constructor
  · intro all item mem slot slotMem
    exact all slot ⟨item, mem, slotMem⟩
  · rintro each slot ⟨item, mem, slotMem⟩
    exact each item mem slot slotMem

end Lists

end Slot

/-- The property holds of every node of a program, whatever its role. -/
def Program.Everywhere (holds : Node → Prop) (program : Program) : Prop :=
  Slot.AllEverywhere (fun slot => holds slot.node) (Block.slots program)

theorem Program.everywhere_of_passes {bound : Nat}
    (passed : (Block.slots program).all (Slot.passes (fun slot => test slot.node) bound) = true) :
    program.Everywhere fun node => test node = true := by
  intro slot mem
  exact Slot.everywhere_of_passes (List.all_eq_true.mp passed slot mem)

theorem Program.not_everywhere_of_any
    (failed : (Block.slots program).any (fun slot => !test slot.node) = true) :
    ¬ program.Everywhere fun node => test node = true := by
  intro everywhere
  rcases List.any_eq_true.mp failed with ⟨slot, mem, failing⟩
  rcases everywhere slot mem with ⟨here, -⟩
  simp [here] at failing

/-! ## Restrictions -/

/-- Whether an expression may be assigned to when no macro call is left. -/
def Expr.isPlace : Expr → Bool
  | .identifier _ | .member .. => true
  | _ => false

namespace Stmt

variable {stmt : Stmt}

/-- Whether a statement is an `if` without `else`. -/
def isBareIf : Stmt → Bool
  | .ifElse _ _ none _ => true
  | _ => false

/-- Whether a statement declares a macro. -/
def isMacro : Stmt → Bool
  | .macroDeclaration _ => true
  | _ => false

/-- Whether a statement ends with a token of its own, not with another statement. -/
def isClosed : Stmt → Bool
  | .ifElse .. | .forLoop .. | .forEach .. | .whileLoop .. => false
  | _ => true

theorem isBareIf_of_isClosed (closed : stmt.isClosed = true) : stmt.isBareIf = false := by
  cases stmt <;> simp_all [isBareIf, isClosed]

/-- The role of a closed statement does not matter to its slots. -/
theorem slots_of_isClosed (closed : stmt.isClosed = true) (role : Role) :
    stmt.slots role = stmt.slots .plain := by
  cases stmt with
  | expression value span => cases value <;> rfl
  | ifElse test consequent alternate span
  | forLoop init test update body span
  | forEach kind left right body span
  | whileLoop test body span => cases closed
  | _ => rfl

end Stmt

/-- The restrictions of the grammar on what may stand in a slot. -/
inductive Restriction where
  /-- An `if` without `else` may not stand directly before the `else` of another one. -/
  | branch
  /-- Only identifiers and members may be assigned to. -/
  | assignment

namespace Restriction

variable {stmt : Stmt} {value : Expr}

/-- Whether the restriction lets a node stand in its slot. -/
def admits : Restriction → Slot → Bool
  | .branch, ⟨.guarded, .stmt stmt⟩ => !stmt.isBareIf
  | .assignment, ⟨.target, .expr value⟩ => value.isPlace
  | _, _ => true

/-- The same before macro calls are expanded: a call may stand in every slot. -/
def permits (restriction : Restriction) (slot : Slot) : Bool :=
  slot.call?.isSome || restriction.admits slot

/-- The slot and all slots inside it respect the restriction. -/
abbrev Holds (restriction : Restriction) (slot : Slot) : Prop :=
  slot.Everywhere fun inner => restriction.admits inner = true

/-- All of the slots respect the restriction. -/
abbrev HoldsAll (restriction : Restriction) (slots : List Slot) : Prop :=
  Slot.AllEverywhere (fun inner => restriction.admits inner = true) slots

/-- The slot and all slots inside it respect the restriction, macro calls aside. -/
abbrev Allows (restriction : Restriction) (slot : Slot) : Prop :=
  slot.Everywhere fun inner => restriction.permits inner = true

/-- All of the slots respect the restriction, macro calls aside. -/
abbrev AllowsAll (restriction : Restriction) (slots : List Slot) : Prop :=
  Slot.AllEverywhere (fun inner => restriction.permits inner = true) slots

variable {restriction : Restriction}

theorem holds_iff (slot : Slot) :
    restriction.Holds slot ↔
      restriction.admits slot = true ∧ restriction.HoldsAll slot.children :=
  Slot.everywhere_iff

@[simp]
theorem admits_plain (node : Node) : restriction.admits ⟨.plain, node⟩ = true := by
  cases restriction <;> rfl

@[simp]
theorem permits_plain (node : Node) : restriction.permits ⟨.plain, node⟩ = true := by
  simp [permits]

/-- A statement that is no `if` without `else` may stand in every slot. -/
theorem admits_stmt (notBare : stmt.isBareIf = false) (role : Role) :
    restriction.admits ⟨role, .stmt stmt⟩ = true := by
  cases restriction <;> cases role <;> simp [admits, notBare]

/-- Of a statement, only matters whether it is an `if` without `else`. -/
theorem admits_stmt_congr {other : Stmt} (same : stmt.isBareIf = other.isBareIf) (role : Role) :
    restriction.admits ⟨role, .stmt stmt⟩ = restriction.admits ⟨role, .stmt other⟩ := by
  cases restriction <;> cases role <;> simp [admits, same]

/-- Of an expression, only matters whether it may be assigned to. -/
theorem admits_expr_congr {other : Expr} (same : value.isPlace = other.isPlace) (role : Role) :
    restriction.admits ⟨role, .expr value⟩ = restriction.admits ⟨role, .expr other⟩ := by
  cases restriction <;> cases role <;> simp [admits, same]

theorem permits_stmt (notBare : stmt.isBareIf = false) (role : Role) :
    restriction.permits ⟨role, .stmt stmt⟩ = true := by
  simp [permits, admits_stmt notBare]

/-- Before macro calls are expanded, they may be assigned to. -/
theorem permits_target (assignable : value.isAssignmentTarget = true) :
    restriction.permits ⟨.target, .expr value⟩ = true := by
  cases restriction with
  | branch => simp [permits, admits]
  | assignment =>
    cases value <;>
      simp_all [permits, admits, Slot.call?, Expr.isPlace, Expr.isAssignmentTarget]

/-- Where nothing is asked of an expression, only its slots matter. -/
theorem allows_ofExpr (value : Expr) :
    restriction.Allows (.ofExpr value) ↔ restriction.AllowsAll value.slots := by
  rw [Allows, Slot.everywhere_iff]
  simp [Slot.children, Slot.AllEverywhere]

/-- An expression that was checked may be assigned to. -/
theorem Allows.target (allows : restriction.Allows (.ofExpr value))
    (assignable : value.isAssignmentTarget = true) : restriction.Allows ⟨.target, .expr value⟩ := by
  rw [allows_ofExpr] at allows
  exact .intro (permits_target assignable) allows

end Restriction

end MacroScript
