import MacroScript.Proofs.Slots.Tree
import MacroScript.Proofs.Splicing

/-!
# What splicing puts into slots

Splicing visits the slots of a tree from left to right.  A node that is no macro call is
rebuilt around what became of its slots, and a call is replaced by its expansion.  So whether
the result respects a restriction is decided by what is put in the place of calls.

`Reaches` says that splicing gets to a slot, and in which session.  The main lemma is that a
result respects a restriction exactly if the expansions of all calls that are reached do.
-/

namespace MacroScript

open MacroScript.Outcome MacroScript.Splice

variable {made images slots : List Slot} {value : Expr} {stmt : Stmt} {slot : Slot}

/-! ## Splicing slots -/

namespace Slot

/-- The slots of statements in the place of a single one: one statement takes over the role,
several stand in a block of their own. -/
def placed (role : Role) : List Stmt → List Slot
  | [stmt] => [⟨role, .stmt stmt⟩]
  | stmts => stmts.map .ofStmt

theorem placed_plain (stmts : List Stmt) : placed .plain stmts = stmts.map .ofStmt := by
  rcases stmts with _ | ⟨first, _ | ⟨second, rest⟩⟩ <;> rfl

/-- Splice what stands in a slot. -/
def splice (handler : Handler) : Slot → SessionM (List Slot)
  | ⟨role, .expr value⟩ => return [⟨role, .expr (← spliceExpr handler value)⟩]
  | ⟨role, .stmt value⟩ => return placed role (← spliceStmt handler value)

/-- Splice what stands in slots, from left to right. -/
def spliceAll (handler : Handler) : List Slot → SessionM (List Slot)
  | [] => return []
  | slot :: rest => do
    let first ← slot.splice handler
    let others ← spliceAll handler rest
    return first ++ others

/-- Splicing the slots one after the other, beginning in the first session, comes to the
second slot in the second session. -/
inductive Reaches (handler : Handler) : List Slot → Session → Slot → Session → Prop
  | here {slot : Slot} {rest : List Slot} {session : Session} :
      Reaches handler (slot :: rest) session slot session
  | inside {slot found : Slot} {rest : List Slot} {session moment : Session}
      (inner : Reaches handler slot.children session found moment) :
      Reaches handler (slot :: rest) session found moment
  | later {slot found : Slot} {rest images : List Slot} {session middle moment : Session}
      (spliced : slot.splice handler session = .ok images middle)
      (others : Reaches handler rest middle found moment) :
      Reaches handler (slot :: rest) session found moment

end Slot

/-! ## Rebuilding nodes -/

/-- The action splices the slots.  What comes of them respects the restriction, together with the
slots `done`, exactly if the slots of its value do. -/
def Rebuilds (restriction : Restriction) (handler : Handler) {α : Type} (done slots : List Slot)
    (action : SessionM α) (view : α → List Slot) : Prop :=
  ∀ ⦃session value after⦄, action session = .ok value after →
    ∃ made, Slot.spliceAll handler slots session = .ok made after ∧
      (restriction.HoldsAll (done ++ made) ↔ restriction.HoldsAll (view value))

variable {restriction : Restriction} {handler : Handler} {session middle after : Session}

theorem Slot.spliceAll_append {first second others : List Slot}
    (front : Slot.spliceAll handler first session = .ok made middle)
    (back : Slot.spliceAll handler second middle = .ok others after) :
    Slot.spliceAll handler (first ++ second) session = .ok (made ++ others) after := by
  induction first generalizing session made with
  | nil =>
    rcases pure_eq_ok_iff.mp front with ⟨rfl, rfl⟩
    exact back
  | cons slot rest ih =>
    simp only [Slot.spliceAll, bind_eq_ok_iff, pure_eq_ok_iff] at front
    rcases front with ⟨images, between, slotRun, more, _, restRun, rfl, rfl⟩
    simp only [List.cons_append, Slot.spliceAll, bind_eq_ok_iff, pure_eq_ok_iff]
    exact ⟨images, between, slotRun, more ++ others, after, ih restRun, by simp, rfl⟩

namespace Rebuilds

variable {α β : Type} {done later : List Slot} {action : SessionM α} {view : α → List Slot}
  {result : β → List Slot}

protected theorem pure {value : α} (seen : view value = done) :
    Rebuilds restriction handler done [] (pure value) view := by
  intro session _ _ run
  rcases pure_eq_ok_iff.mp run with ⟨rfl, rfl⟩
  exact ⟨[], rfl, by rw [List.append_nil, seen]⟩

/-- Splice something and go on. -/
theorem andThen {next : α → SessionM β} (front : Rebuilds restriction handler [] slots action view)
    (back : ∀ value, Rebuilds restriction handler (done ++ view value) later (next value) result) :
    Rebuilds restriction handler done (slots ++ later) (action >>= next) result := by
  intro session _ _ run
  rcases bind_eq_ok_iff.mp run with ⟨value, middle, actionRun, nextRun⟩
  rcases front actionRun with ⟨made, madeRun, same⟩
  rcases back value nextRun with ⟨others, othersRun, othersSame⟩
  refine ⟨made ++ others, Slot.spliceAll_append madeRun othersRun, ?_⟩
  rw [← othersSame]
  simp only [List.nil_append] at same
  simp [same]

/-- Splicing that is followed by a change of its value. -/
theorem returning {change : α → β} (inner : Rebuilds restriction handler [] slots action view)
    (seen : ∀ value, result (change value) = done ++ view value) :
    Rebuilds restriction handler done slots (do return change (← action)) result := by
  rw [← List.append_nil slots]
  exact inner.andThen fun value => .pure (seen value)

theorem expr (value : Expr) (role : Role) :
    Rebuilds restriction handler [] [⟨role, .expr value⟩] (spliceExpr handler value)
      fun spliced => [⟨role, .expr spliced⟩] := by
  intro session spliced after run
  refine ⟨[⟨role, .expr spliced⟩], ?_, Iff.rfl⟩
  simp only [Slot.spliceAll, Slot.splice, bind_eq_ok_iff, pure_eq_ok_iff]
  exact ⟨_, after, ⟨spliced, after, run, rfl, rfl⟩, [], after, ⟨rfl, rfl⟩, rfl, rfl⟩

/-- A statement with its role becomes the slots of the statements in its place. -/
theorem placed (stmt : Stmt) (role : Role) :
    Rebuilds restriction handler [] [⟨role, .stmt stmt⟩] (spliceStmt handler stmt)
      (Slot.placed role) := by
  intro session spliced after run
  refine ⟨Slot.placed role spliced, ?_, Iff.rfl⟩
  simp only [Slot.spliceAll, Slot.splice, bind_eq_ok_iff, pure_eq_ok_iff]
  exact ⟨_, after, ⟨spliced, after, run, rfl, rfl⟩, [], after, ⟨rfl, rfl⟩, by simp, rfl⟩

end Rebuilds

/-- What stands for statements in a single place respects the restriction exactly if their
slots do. -/
theorem Restriction.holds_asBody (role : Role) (span : Span) (stmts : List Stmt) :
    restriction.Holds ⟨role, .stmt (asBody span stmts)⟩ ↔
      restriction.HoldsAll (Slot.placed role stmts) := by
  rcases stmts with _ | ⟨first, _ | ⟨second, rest⟩⟩
  · have admitted : restriction.admits ⟨role, .stmt (.empty span)⟩ = true := admits_stmt rfl role
    rw [show asBody span [] = .empty span from rfl, holds_iff]
    simp [Slot.placed, Slot.children, Stmt.slots, admitted]
  · simp [asBody, Slot.placed]
  · rw [show asBody span (first :: second :: rest) =
      .block ⟨first :: second :: rest, span⟩ from rfl, holds_iff]
    exact and_iff_right (admits_stmt rfl role)

/-- A statement in a single place stays in a single place. -/
theorem rebuilds_body (stmt : Stmt) (role : Role) (span : Span) :
    Rebuilds restriction handler [] [⟨role, .stmt stmt⟩] (spliceStmt handler stmt)
      fun stmts => [⟨role, .stmt (asBody span stmts)⟩] := by
  intro session stmts after run
  rcases Rebuilds.placed stmt role run with ⟨made, madeRun, same⟩
  refine ⟨made, madeRun, same.trans ?_⟩
  simp [Restriction.holds_asBody]

/-- Splicing a part of a tree that has the given slots. -/
abbrev RebuildsPart (restriction : Restriction) (handler : Handler) {α : Type}
    (slots : α → List Slot) (splice : Handler → α → SessionM α) (part : α) : Prop :=
  Rebuilds restriction handler [] (slots part) (splice handler part) slots

namespace RebuildsPart

variable {α : Type} {slots : α → List Slot} {splice : Handler → α → SessionM α}

/-- Splice the members of a list one after the other. -/
theorem list {spliceList : Handler → List α → SessionM (List α)}
    (nil : spliceList handler [] = pure [])
    (cons : ∀ part rest, spliceList handler (part :: rest) = (do
      let first ← splice handler part
      let others ← spliceList handler rest
      return first :: others))
    (each : ∀ part, RebuildsPart restriction handler slots splice part) (parts : List α) :
    RebuildsPart restriction handler (·.flatMap slots) spliceList parts := by
  induction parts with
  | nil =>
    rw [RebuildsPart, nil]
    exact .pure rfl
  | cons part rest ih =>
    rw [RebuildsPart, cons]
    exact (each part).andThen fun _ => ih.returning fun _ => rfl

/-- Splice what may be missing. -/
theorem option {spliceOption : Handler → Option α → SessionM (Option α)}
    (none : spliceOption handler none = pure none)
    (some : ∀ part, spliceOption handler (some part) = (do
      return some (← splice handler part)))
    (each : ∀ part, RebuildsPart restriction handler slots splice part) (part : Option α) :
    RebuildsPart restriction handler (·.toList.flatMap slots) spliceOption part := by
  cases part with
  | none =>
    rw [RebuildsPart, none]
    exact .pure rfl
  | some part =>
    rw [RebuildsPart, some]
    exact (each part).andThen fun _ => .pure (by simp)

end RebuildsPart

/-! ### Containers -/

theorem rebuilds_exprs (exprs : List Expr) :
    RebuildsPart restriction handler (·.map .ofExpr) spliceExprs exprs := by
  induction exprs with
  | nil => exact .pure rfl
  | cons expr rest ih => exact .andThen (.expr expr .plain) fun _ => ih.returning fun _ => rfl

theorem rebuilds_expr? (expr : Option Expr) :
    RebuildsPart restriction handler (·.toList.map .ofExpr) spliceExpr? expr := by
  cases expr with
  | none => exact .pure rfl
  | some value => exact (Rebuilds.expr value .plain).returning fun _ => rfl

theorem rebuilds_memberKey (key : MemberKey Expr) :
    RebuildsPart restriction handler MemberKey.slots spliceMemberKey key := by
  cases key with
  | named name => exact .pure rfl
  | computed value => exact (Rebuilds.expr value .plain).returning fun _ => rfl

theorem rebuilds_propertyKey (key : PropertyKey Expr) :
    RebuildsPart restriction handler PropertyKey.slots splicePropertyKey key := by
  cases key with
  | computed value => exact (Rebuilds.expr value .plain).returning fun _ => rfl
  | _ => exact .pure rfl

theorem rebuilds_property (property : Property Expr) :
    RebuildsPart restriction handler Property.slots spliceProperty property := by
  rcases property with ⟨key, value, shorthand, span⟩
  exact (rebuilds_propertyKey key).andThen fun _ =>
    (Rebuilds.expr value .plain).returning fun _ => rfl

theorem rebuilds_stmts (stmts : List Stmt) :
    RebuildsPart restriction handler (·.map .ofStmt) spliceStmts stmts := by
  induction stmts with
  | nil => exact .pure rfl
  | cons stmt rest ih =>
    refine (Rebuilds.placed stmt .plain).andThen fun stmts => ih.returning fun later => ?_
    rw [Slot.placed_plain, List.map_append]
    rfl

theorem rebuilds_block (block : Block Stmt) :
    RebuildsPart restriction handler Block.slots spliceBlock block := by
  rcases block with ⟨body, span⟩
  exact (rebuilds_stmts body).returning fun _ => rfl

theorem rebuilds_function (function : Function Stmt) :
    RebuildsPart restriction handler (·.body.slots) spliceFunction function := by
  rcases function with ⟨name, params, body, span⟩
  exact (rebuilds_block body).returning fun _ => rfl

theorem rebuilds_arrowBody (body : ArrowBody Expr Stmt) :
    RebuildsPart restriction handler ArrowBody.slots spliceArrowBody body := by
  cases body with
  | expression value => exact (Rebuilds.expr value .plain).returning fun _ => rfl
  | block block => exact (rebuilds_block block).returning fun _ => rfl

theorem rebuilds_arrow (arrow : Arrow Expr Stmt) :
    RebuildsPart restriction handler (·.body.slots) spliceArrow arrow := by
  rcases arrow with ⟨params, body, span⟩
  exact (rebuilds_arrowBody body).returning fun _ => rfl

theorem rebuilds_declarator (declarator : Declarator Expr) :
    RebuildsPart restriction handler Declarator.slots spliceDeclarator declarator := by
  rcases declarator with ⟨id, init, span⟩
  exact (rebuilds_expr? init).returning fun _ => rfl

theorem rebuilds_declaration (declaration : Declaration Expr) :
    RebuildsPart restriction handler Declaration.slots spliceDeclaration declaration := by
  rcases declaration with ⟨kind, declarators, span⟩
  exact (RebuildsPart.list rfl (fun _ _ => rfl) rebuilds_declarator declarators).returning
    fun _ => rfl

theorem rebuilds_forInit (head : ForInit Expr) :
    RebuildsPart restriction handler ForInit.slots spliceForInit head := by
  cases head with
  | declaration declaration => exact (rebuilds_declaration declaration).returning fun _ => rfl
  | expression value => exact (Rebuilds.expr value .plain).returning fun _ => rfl

theorem rebuilds_forHead (head : ForHead Expr) :
    RebuildsPart restriction handler ForHead.slots spliceForHead head := by
  cases head with
  | declared kind id => exact .pure rfl
  | target target => exact (Rebuilds.expr target .target).returning fun _ => rfl

theorem rebuilds_catch (clause : Catch Stmt) :
    RebuildsPart restriction handler (·.body.slots) spliceCatch clause := by
  rcases clause with ⟨param, body, span⟩
  exact (rebuilds_block body).returning fun _ => rfl

theorem rebuilds_case (case : Case Expr Stmt) :
    RebuildsPart restriction handler Case.slots spliceCase case := by
  rcases case with ⟨test, body, span⟩
  exact (rebuilds_expr? test).andThen fun _ => (rebuilds_stmts body).returning fun _ => rfl

/-! ### Nodes -/

/-- An expression that is no call is rebuilt around what became of its slots. -/
theorem rebuilds_ofExpr (own : ∀ call, value ≠ .invocation call) :
    Rebuilds restriction handler [] value.slots (spliceExpr handler value) Expr.slots := by
  cases value with
  | invocation call => exact absurd rfl (own call)
  | identifier identifier
  | literal literal
  | this span => exact .pure rfl
  | array elements span => exact (rebuilds_exprs elements).returning fun _ => rfl
  | object properties span =>
    exact (RebuildsPart.list rfl (fun _ _ => rfl) rebuilds_property properties).returning
      fun _ => rfl
  | function function => exact (rebuilds_function function).returning fun _ => rfl
  | arrow arrow => exact (rebuilds_arrow arrow).returning fun _ => rfl
  | unary op argument span => exact (Rebuilds.expr argument .plain).returning fun _ => rfl
  | update op before argument span =>
    exact (Rebuilds.expr argument .target).returning fun _ => rfl
  | binary op left right span =>
    exact (Rebuilds.expr left .plain).andThen fun _ =>
      (Rebuilds.expr right .plain).returning fun _ => rfl
  | assign op target value span =>
    exact (Rebuilds.expr target .target).andThen fun _ =>
      (Rebuilds.expr value .plain).returning fun _ => rfl
  | conditional test consequent alternate span =>
    exact (Rebuilds.expr test .plain).andThen fun _ =>
      (Rebuilds.expr consequent .plain).andThen fun _ =>
        (Rebuilds.expr alternate .plain).returning fun _ => rfl
  | call callee arguments isOptional span
  | construct callee arguments span =>
    exact (Rebuilds.expr callee .plain).andThen fun _ =>
      (rebuilds_exprs arguments).returning fun _ => rfl
  | member object key isOptional span =>
    exact (Rebuilds.expr object .plain).andThen fun _ =>
      (rebuilds_memberKey key).returning fun _ => rfl
  | sequence expressions span => exact (rebuilds_exprs expressions).returning fun _ => rfl

/-- Such an expression may be assigned to as before. -/
theorem isPlace_of_spliceExpr {image : Expr} (own : ∀ call, value ≠ .invocation call)
    (run : spliceExpr handler value session = .ok image after) : image.isPlace = value.isPlace := by
  cases value <;> simp only [spliceExpr, bind_eq_ok_iff, pure_eq_ok_iff] at run <;>
    grind [Expr.isPlace]

/-- An expression statement respects the restriction if its expression does. -/
theorem Restriction.holdsAll_expression (value : Expr) (span : Span) (role : Role) :
    restriction.HoldsAll ((Stmt.expression value span).slots role) ↔
      restriction.Holds (.ofExpr value) := by
  cases value with
  | invocation call =>
    rw [holds_iff]
    simp [Stmt.slots, Slot.children, Expr.slots]
  | _ => simp [Stmt.slots]

/-- A statement that is no call is rebuilt around what became of its slots. -/
theorem rebuilds_single (own : ∀ call span, stmt ≠ .expression (.invocation call) span)
    (undeclared : ∀ declared, stmt ≠ .macroDeclaration declared) (role : Role) :
    Rebuilds restriction handler [] (stmt.slots role) (spliceSingle handler stmt)
      (Stmt.slots role) := by
  cases stmt with
  | macroDeclaration declared => exact absurd rfl (undeclared declared)
  | expression value span =>
    have single : (Stmt.expression value span).slots role = [.ofExpr value] := by
      cases value with
      | invocation call => exact absurd rfl (own call span)
      | _ => rfl
    rw [single]
    intro session _ after run
    simp only [spliceSingle, bind_eq_ok_iff, pure_eq_ok_iff] at run
    rcases run with ⟨image, _, inner, rfl, rfl⟩
    rcases Rebuilds.expr value .plain inner with ⟨made, madeRun, same⟩
    refine ⟨made, madeRun, same.trans ?_⟩
    rw [Restriction.holdsAll_expression]
    simp
  | declaration declaration => exact (rebuilds_declaration declaration).returning fun _ => rfl
  | function function => exact (rebuilds_function function).returning fun _ => rfl
  | returns argument span => exact (rebuilds_expr? argument).returning fun _ => rfl
  | ifElse test consequent alternate span =>
    cases alternate with
    | none =>
      exact (Rebuilds.expr test .plain).andThen fun _ =>
        (rebuilds_body consequent .plain consequent.span).returning fun _ => rfl
    | some other =>
      refine (Rebuilds.expr test .plain).andThen fun _ =>
        (rebuilds_body consequent .guarded consequent.span).andThen fun _ => ?_
      simp only [spliceBody?, bind_assoc, pure_bind]
      exact (rebuilds_body other role other.span).returning fun _ => rfl
  | forLoop init test update body span =>
    rw [Stmt.slots, List.append_assoc, List.append_assoc]
    exact (RebuildsPart.option rfl (fun _ => rfl) rebuilds_forInit init).andThen fun _ =>
      (rebuilds_expr? test).andThen fun _ => (rebuilds_expr? update).andThen fun _ =>
        (rebuilds_body body role body.span).returning fun _ => rfl
  | forEach kind left right body span =>
    exact (rebuilds_forHead left).andThen fun _ => (Rebuilds.expr right .plain).andThen fun _ =>
      (rebuilds_body body role body.span).returning fun _ => by simp [Stmt.slots]
  | whileLoop test body span =>
    exact (Rebuilds.expr test .plain).andThen fun _ =>
      (rebuilds_body body role body.span).returning fun _ => rfl
  | doWhile body test span =>
    exact (rebuilds_body body .plain body.span).andThen fun _ =>
      (Rebuilds.expr test .plain).returning fun _ => rfl
  | breaks span
  | continues span => exact .pure rfl
  | throws argument span => exact (Rebuilds.expr argument .plain).returning fun _ => rfl
  | tryCatch block clause finalizer span =>
    rw [Stmt.slots, List.append_assoc]
    exact (rebuilds_block block).andThen fun _ =>
      (RebuildsPart.option rfl (fun _ => rfl) rebuilds_catch clause).andThen fun _ =>
        (RebuildsPart.option rfl (fun _ => rfl) rebuilds_block finalizer).returning fun _ => rfl
  | switch discriminant cases span =>
    exact (Rebuilds.expr discriminant .plain).andThen fun _ =>
      (RebuildsPart.list rfl (fun _ _ => rfl) rebuilds_case cases).returning fun _ => rfl
  | block block => exact (rebuilds_block block).returning fun _ => rfl
  | empty span => exact .pure rfl

/-- Such a statement lacks an `else` as before. -/
theorem isBareIf_of_spliceSingle {image : Stmt}
    (run : spliceSingle handler stmt session = .ok image after) :
    image.isBareIf = stmt.isBareIf := by
  cases stmt with
  | macroDeclaration declared => exact absurd run throw_ne_ok
  | ifElse test consequent alternate span =>
    cases alternate <;>
      simp only [spliceSingle, spliceBody?, bind_eq_ok_iff, pure_eq_ok_iff] at run <;>
      grind [Stmt.isBareIf]
  | _ =>
    simp only [spliceSingle, bind_eq_ok_iff, pure_eq_ok_iff] at run
    grind [Stmt.isBareIf]

/-- What splicing makes of a slot with no call: nothing, if a macro is declared there, or one
slot that the restriction admits just as well. -/
theorem rebuilt_slot (restriction : Restriction) (own : slot.call? = none)
    (run : slot.splice handler session = .ok images after) :
    ∃ made, Slot.spliceAll handler slot.children session = .ok made after ∧
      (images = [] ∧ restriction.HoldsAll made ∨
        ∃ image, images = [image] ∧ restriction.admits image = restriction.admits slot ∧
          (restriction.HoldsAll made ↔ restriction.HoldsAll image.children)) := by
  rcases slot with ⟨role, value | stmt⟩ <;>
    simp only [Slot.splice, bind_eq_ok_iff, pure_eq_ok_iff] at run <;>
      rcases run with ⟨spliced, _, inner, rfl, rfl⟩
  · have noCall : ∀ call, value ≠ .invocation call := by
      rintro call rfl
      cases own
    rcases rebuilds_ofExpr noCall inner with ⟨made, madeRun, same⟩
    exact ⟨made, madeRun, .inr ⟨_, rfl,
      Restriction.admits_expr_congr (isPlace_of_spliceExpr noCall inner) role, same⟩⟩
  · have noCall : ∀ call span, stmt ≠ .expression (.invocation call) span := by
      rintro call span rfl
      cases own
    by_cases declared : ∃ declaration, stmt = .macroDeclaration declaration
    · rcases declared with ⟨declaration, rfl⟩
      rcases pure_eq_ok_iff.mp inner with ⟨rfl, rfl⟩
      exact ⟨[], rfl, .inl ⟨rfl, by simp⟩⟩
    · have undeclared : ∀ declaration, stmt ≠ .macroDeclaration declaration :=
        fun declaration same => declared ⟨declaration, same⟩
      simp only [spliceStmt_of_single noCall undeclared, bind_eq_ok_iff, pure_eq_ok_iff] at inner
      rcases inner with ⟨image, _, single, rfl, rfl⟩
      rcases rebuilds_single noCall undeclared role single with ⟨made, madeRun, same⟩
      exact ⟨made, madeRun, .inr ⟨_, rfl,
        Restriction.admits_stmt_congr (isBareIf_of_spliceSingle single) role, same⟩⟩

/-- In a run that ends well, what stands in each slot that is reached is spliced. -/
theorem Slot.Reaches.spliced {moment : Session}
    (reached : Slot.Reaches handler slots session slot moment)
    (run : Slot.spliceAll handler slots session = .ok made after) :
    ∃ images later, slot.splice handler moment = .ok images later := by
  induction reached generalizing made after with
  | here =>
    simp only [Slot.spliceAll, bind_eq_ok_iff] at run
    rcases run with ⟨images, later, slotRun, -⟩
    exact ⟨images, later, slotRun⟩
  | @inside outer found rest session moment inner ih =>
    simp only [Slot.spliceAll, bind_eq_ok_iff] at run
    rcases run with ⟨images, later, slotRun, -⟩
    cases calls : outer.call? with
    | some call =>
      rw [Slot.children_of_call? calls] at inner
      cases inner
    | none =>
      -- Which restriction is kept does not matter here.
      rcases rebuilt_slot .branch calls slotRun with ⟨_, childrenRun, -⟩
      exact ih childrenRun
  | later spliced others ih =>
    simp only [Slot.spliceAll, bind_eq_ok_iff] at run
    rcases run with ⟨images, later, slotRun, _, _, restRun, -⟩
    rw [spliced] at slotRun
    cases slotRun
    exact ih restRun

/-! ## What stands in the place of calls -/

/-- Whatever comes in the place of a call that is reached respects the restriction. -/
def Fits (restriction : Restriction) (handler : Handler) (slots : List Slot)
    (session : Session) : Prop :=
  ∀ ⦃slot moment images after⦄, Slot.Reaches handler slots session slot moment →
    slot.call?.isSome = true → slot.splice handler moment = .ok images after →
      restriction.HoldsAll images

namespace Fits

theorem nil : Fits restriction handler [] session := by
  intro slot moment images after reached
  cases reached

theorem cons_iff {rest : List Slot} (run : slot.splice handler session = .ok images middle) :
    Fits restriction handler (slot :: rest) session ↔
      Fits restriction handler [slot] session ∧ Fits restriction handler rest middle := by
  constructor
  · intro fits
    constructor
    · intro found moment made after reached
      apply fits
      cases reached with
      | here => exact .here
      | inside inner => exact .inside inner
      | later spliced others => cases others
    · intro found moment made after reached
      exact fits (.later run reached)
  · rintro ⟨front, back⟩ found moment made after reached
    cases reached with
    | here => exact front .here
    | inside inner => exact front (.inside inner)
    | later spliced others =>
      rw [run] at spliced
      cases spliced
      exact back others

/-- Where no call stands, only what is inside matters. -/
theorem own_iff (own : slot.call? = none) :
    Fits restriction handler [slot] session ↔ Fits restriction handler slot.children session := by
  constructor
  · intro fits found moment made after reached
    exact fits (.inside reached)
  · intro fits found moment made after reached
    cases reached with
    | here => simp [own]
    | inside inner => exact fits inner
    | later spliced others => cases others

/-- A call fits if what comes in its place respects the restriction. -/
theorem call_iff {call : Invocation} (calls : slot.call? = some call)
    (run : slot.splice handler session = .ok images after) :
    Fits restriction handler [slot] session ↔ restriction.HoldsAll images := by
  constructor
  · intro fits
    exact fits .here (by simp [calls]) run
  · intro holds found moment made later reached
    cases reached with
    | here =>
      intro _ again
      rw [run] at again
      cases again
      exact holds
    | inside inner =>
      rw [Slot.children_of_call? calls] at inner
      cases inner
    | later spliced others => cases others

end Fits

/-- Splicing what stands in the slot comes to slots that respect the restriction exactly if
the calls inside fit. -/
def Decided (restriction : Restriction) (handler : Handler) (slot : Slot) : Prop :=
  ∀ ⦃session images after⦄, slot.splice handler session = .ok images after →
    (restriction.HoldsAll images ↔ Fits restriction handler [slot] session)

theorem holdsAll_iff_fits (each : ∀ slot ∈ slots, Decided restriction handler slot)
    (run : Slot.spliceAll handler slots session = .ok images after) :
    restriction.HoldsAll images ↔ Fits restriction handler slots session := by
  induction slots generalizing session images with
  | nil =>
    simp only [Slot.spliceAll, pure_eq_ok_iff] at run
    rcases run with ⟨rfl, rfl⟩
    exact iff_of_true (by simp) .nil
  | cons slot rest ih =>
    simp only [Slot.spliceAll, bind_eq_ok_iff, pure_eq_ok_iff] at run
    rcases run with ⟨first, middle, slotRun, others, _, restRun, rfl, rfl⟩
    rcases List.forall_mem_cons.mp each with ⟨head, tail⟩
    rw [Fits.cons_iff slotRun, ← head slotRun, ← ih tail restRun]
    exact Slot.allEverywhere_append first others

/-- A rebuilt node respects the restriction exactly if the calls inside fit. -/
theorem holds_rebuilt {image : Slot} (own : slot.call? = none)
    (admitted : restriction.admits image = true)
    (run : Slot.spliceAll handler slot.children session = .ok made after)
    (same : restriction.HoldsAll made ↔ restriction.HoldsAll image.children)
    (each : ∀ child ∈ slot.children, Decided restriction handler child) :
    restriction.HoldsAll [image] ↔ Fits restriction handler [slot] session := by
  calc restriction.HoldsAll [image]
    _ ↔ restriction.Holds image := by simp
    _ ↔ restriction.HoldsAll image.children := by
        rw [Restriction.holds_iff]
        exact and_iff_right admitted
    _ ↔ restriction.HoldsAll made := same.symm
    _ ↔ Fits restriction handler slot.children session := holdsAll_iff_fits each run
    _ ↔ Fits restriction handler [slot] session := (Fits.own_iff own).symm

theorem decided_of_allows (allowed : restriction.Allows slot) :
    Decided restriction handler slot := by
  induction allowed with
  | @intro slot here inside ih =>
    intro session images after run
    cases calls : slot.call? with
    | some call => exact (Fits.call_iff calls run).symm
    | none =>
      have admitted : restriction.admits slot = true := by
        simpa [Restriction.permits, calls] using here
      rcases rebuilt_slot restriction calls run with
        ⟨made, madeRun, ⟨rfl, holds⟩ | ⟨image, rfl, same, kept⟩⟩
      · rw [Fits.own_iff calls, ← holdsAll_iff_fits ih madeRun]
        exact iff_of_true (by simp) holds
      · exact holds_rebuilt calls (same.trans admitted) madeRun kept ih

/-- A program that respects the restriction, macro calls aside, is spliced to one that
respects it exactly if what comes in the place of the calls does. -/
theorem holdsAll_spliceProgram_iff {program spliced : Program}
    (allowed : restriction.AllowsAll (Block.slots program))
    (run : spliceProgram handler program session = .ok spliced after) :
    restriction.HoldsAll (Block.slots spliced) ↔
      Fits restriction handler (Block.slots program) session := by
  rcases rebuilds_block program run with ⟨made, madeRun, same⟩
  rw [← same]
  exact holdsAll_iff_fits (fun slot mem => decided_of_allows (allowed slot mem)) madeRun

end MacroScript
