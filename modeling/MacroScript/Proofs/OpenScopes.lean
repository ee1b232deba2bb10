import MacroScript.Proofs.Mark
import Mathlib.Data.List.Induction

/-!
# What is declared in the open scopes

Going over the marks of a tree from left to right, one can keep for every scope that is
open the macros that were declared in it.  A name then stands for the macro of that name
which was declared last in the innermost scope that has one.  A scope that is closed takes
its macros with it, so all that is seen of a statement behind it is what it declares in the
scope that it stands in.
-/

namespace MacroScript

namespace Mark

/-- The macro that a mark declares. -/
def declared? : Mark → Option MacroStmt
  | .leaf (.declaration declared) => some declared
  | _ => none

/-- The macros that marks declare, in their order. -/
def declarations (marks : List Mark) : List MacroStmt :=
  marks.filterMap declared?

/-- The macros that were declared in a scope, the latest first. -/
abbrev Frame := List MacroStmt

/-- The macro of a name that was declared last in a scope. -/
def Frame.macro? (frame : Frame) (name : String) : Option MacroStmt :=
  frame.find? fun declared => declared.name.name == name

/-- What a mark does to the open scopes, the innermost first.  The outermost scope is never
closed. -/
def follow (frames : List Frame) : Mark → List Frame
  | .enter => [] :: frames
  | .exit =>
    match frames with
    | _ :: outer :: rest => outer :: rest
    | _ => frames
  | .leaf (.declaration declared) =>
    match frames with
    | frame :: outer => (declared :: frame) :: outer
    | [] => [[declared]]
  | _ => frames

/-- The scopes that are open behind marks, the innermost first. -/
def openScopes (marks : List Mark) : List Frame :=
  marks.foldl follow [[]]

/-- The macro that a name stands for behind marks. -/
def resolve (marks : List Mark) (name : String) : Option MacroStmt :=
  (openScopes marks).findSome? (·.macro? name)

theorem openScopes_append (first second : List Mark) :
    openScopes (first ++ second) = second.foldl follow (openScopes first) :=
  List.foldl_append

theorem follow_ne_nil {frames : List Frame} (nonempty : frames ≠ []) (mark : Mark) :
    follow frames mark ≠ [] := by
  cases mark with
  | enter => exact List.cons_ne_nil _ _
  | exit =>
    match frames, nonempty with
    | [_], _ => exact List.cons_ne_nil _ _
    | _ :: _ :: _, _ => exact List.cons_ne_nil _ _
  | leaf held =>
    cases held with
    | declaration declared => cases frames <;> exact List.cons_ne_nil _ _
    | _ => exact nonempty
  | literal value => exact nonempty

theorem openScopes_ne_nil (marks : List Mark) : openScopes marks ≠ [] := by
  apply List.foldlRecOn (motive := fun frames => frames ≠ []) marks follow
  · exact List.cons_ne_nil _ _
  · intro frames nonempty mark _
    exact follow_ne_nil nonempty mark

theorem mem_follow {frames : List Frame} {frame : Frame} {declared : MacroStmt} {mark : Mark}
    (frameMem : frame ∈ follow frames mark) (mem : declared ∈ frame) :
    (∃ old ∈ frames, declared ∈ old) ∨ mark.declared? = some declared := by
  unfold follow at frameMem
  split at frameMem
  · rcases List.mem_cons.mp frameMem with rfl | old
    · cases mem
    · exact .inl ⟨frame, old, mem⟩
  · split at frameMem
    · exact .inl ⟨frame, List.mem_cons_of_mem _ frameMem, mem⟩
    · exact .inl ⟨frame, frameMem, mem⟩
  · split at frameMem
    · rcases List.mem_cons.mp frameMem with rfl | old
      · rcases List.mem_cons.mp mem with rfl | old
        · exact .inr rfl
        · exact .inl ⟨_, List.mem_cons_self, old⟩
      · exact .inl ⟨frame, List.mem_cons_of_mem _ old, mem⟩
    · obtain rfl := List.mem_singleton.mp frameMem
      obtain rfl := List.mem_singleton.mp mem
      exact .inr rfl
  · exact .inl ⟨frame, frameMem, mem⟩

/-- What is seen in an open scope was declared before. -/
theorem mem_of_openScopes {marks : List Mark} {frame : Frame} {declared : MacroStmt}
    (frameMem : frame ∈ openScopes marks) (mem : declared ∈ frame) :
    declared ∈ declarations marks := by
  induction marks using List.reverseRecOn generalizing frame with
  | nil =>
    obtain rfl := List.mem_singleton.mp frameMem
    cases mem
  | append_singleton marks mark ih =>
    rw [openScopes_append] at frameMem
    rw [declarations, List.filterMap_append, List.mem_append]
    rcases mem_follow frameMem mem with ⟨old, oldMem, inOld⟩ | last
    · exact .inl (ih oldMem inOld)
    · exact .inr (List.mem_filterMap.mpr ⟨mark, List.mem_cons_self, last⟩)

theorem mem_of_resolve {marks : List Mark} {name : String} {declared : MacroStmt}
    (found : resolve marks name = some declared) : declared ∈ declarations marks := by
  obtain ⟨frame, frameMem, inFrame⟩ := List.exists_of_findSome?_eq_some found
  exact mem_of_openScopes frameMem (List.mem_of_find?_eq_some inFrame)

/-! ## What is left behind -/

mutual

/-- The macros that a statement declares in the scope that it stands in, the latest first. -/
def Frame.ofStmt : Stmt → Frame
  | .macroDeclaration declared => [declared]
  | .ifElse _ consequent alternate _ => Frame.ofStmt? alternate ++ Frame.ofStmt consequent
  | .whileLoop _ body _ => Frame.ofStmt body
  | .doWhile body _ _ => Frame.ofStmt body
  | _ => []

/-- The same, for a statement that may be missing. -/
def Frame.ofStmt? : Option Stmt → Frame
  | none => []
  | some stmt => Frame.ofStmt stmt

end

/-- The same, for statements. -/
def Frame.ofStmts : List Stmt → Frame
  | [] => []
  | stmt :: rest => Frame.ofStmts rest ++ Frame.ofStmt stmt

/-- The same, for the alternatives of a switch. -/
def Frame.ofCases : List (Case Expr Stmt) → Frame
  | [] => []
  | ⟨_, body, _⟩ :: rest => Frame.ofCases rest ++ Frame.ofStmts body

/-- All that is seen of marks behind them is that the innermost scope has these macros too. -/
def Declares (marks : List Mark) (declared : Frame) : Prop :=
  ∀ frame outer, marks.foldl follow (frame :: outer) = (declared ++ frame) :: outer

/-- Nothing is seen of marks behind them. -/
abbrev Quiet (marks : List Mark) : Prop :=
  Declares marks []

theorem Frame.macro?_append (late early : Frame) (name : String) :
    Frame.macro? (late ++ early) name = (late.macro? name).or (early.macro? name) := by
  rw [Frame.macro?, List.find?_append]
  rfl

namespace Declares

variable {first second marks : List Mark} {early late declared : Frame}

theorem nil : Quiet [] := by
  intro frame outer
  rfl

theorem append (one : Declares first early) (two : Declares second late) :
    Declares (first ++ second) (late ++ early) := by
  intro frame outer
  rw [List.foldl_append, one, two, List.append_assoc]

theorem past (one : Quiet first) (two : Declares second late) :
    Declares (first ++ second) late := by
  have both := one.append two
  rwa [List.append_nil] at both

theorem also (one : Declares first early) (two : Quiet second) : Declares (first ++ second) early :=
  one.append two

theorem bindings (names : List Identifier) : Quiet (names.map .binding) := by
  intro frame outer
  induction names with
  | nil => rfl
  | cons name rest ih => exact ih

/-- Nothing that is declared in a scope is seen behind it. -/
theorem enclosed (inner : Declares marks declared) : Quiet (Mark.enclosed marks) := by
  intro frame outer
  have run := inner [] (frame :: outer)
  rw [Mark.enclosed, List.foldl_cons, List.foldl_append]
  simp only [follow]
  rw [run]
  rfl

/-- Behind marks, a name stands for what they declare, or else for what it stood for. -/
theorem resolve (declares : Declares marks declared) (before : List Mark) (name : String) :
    Mark.resolve (before ++ marks) name = (declared.macro? name).or (Mark.resolve before name) := by
  rw [Mark.resolve, Mark.resolve, openScopes_append]
  cases frames : openScopes before with
  | nil => exact absurd frames (openScopes_ne_nil before)
  | cons frame outer =>
    rw [declares frame outer, List.findSome?_cons, List.findSome?_cons, Frame.macro?_append]
    cases declared.macro? name <;> rfl

end Declares

mutual

theorem declares_ofExpr : ∀ expr, Quiet (ofExpr expr)
  | .invocation _
  | .identifier _
  | .literal _
  | .this _ => .nil
  | .array elements _ => declares_ofExprs elements
  | .object properties _ => declares_ofProperties properties
  | .function function => .enclosed (.past (.bindings _) (declares_ofFunctionRest function))
  | .arrow ⟨_, .expression value, _⟩ => .enclosed (.past (.bindings _) (declares_ofExpr value))
  | .arrow ⟨_, .block body, _⟩ => .enclosed (.past (.bindings _) (declares_ofBlock body))
  | .unary _ argument _
  | .update _ _ argument _ => declares_ofExpr argument
  | .binary _ left right _ => .past (declares_ofExpr left) (declares_ofExpr right)
  | .assign _ target value _ => .past (declares_ofExpr target) (declares_ofExpr value)
  | .conditional test consequent alternate _ =>
    .past (.past (declares_ofExpr test) (declares_ofExpr consequent)) (declares_ofExpr alternate)
  | .call callee arguments _ _
  | .construct callee arguments _ => .past (declares_ofExpr callee) (declares_ofExprs arguments)
  | .member object key _ _ => .past (declares_ofExpr object) (declares_ofMemberKey key)
  | .sequence expressions _ => declares_ofExprs expressions

theorem declares_ofExprs : ∀ exprs, Quiet (ofExprs exprs)
  | [] => .nil
  | expr :: rest => .past (declares_ofExpr expr) (declares_ofExprs rest)

theorem declares_ofExpr? : ∀ expr, Quiet (ofExpr? expr)
  | none => .nil
  | some expr => declares_ofExpr expr

theorem declares_ofMemberKey : ∀ key, Quiet (ofMemberKey key)
  | .named _ => .nil
  | .computed value => declares_ofExpr value

theorem declares_ofPropertyKey : ∀ key, Quiet (ofPropertyKey key)
  | .identifier _
  | .string _
  | .number _ => .nil
  | .computed value => declares_ofExpr value

theorem declares_ofProperties : ∀ properties, Quiet (ofProperties properties)
  | [] => .nil
  | ⟨key, value, _, _⟩ :: rest =>
    .past (.past (declares_ofPropertyKey key) (declares_ofExpr value))
      (declares_ofProperties rest)

theorem declares_ofFunctionRest :
    ∀ function, Declares (ofFunctionRest function) (Frame.ofStmts function.body.body)
  | ⟨_, _, body, _⟩ => .past (.bindings _) (declares_ofBlock body)

theorem declares_ofBlock : ∀ block, Declares (ofBlock block) (Frame.ofStmts block.body)
  | ⟨body, _⟩ => declares_ofStmts body

theorem declares_ofBlock? : ∀ block, Quiet (ofBlock? block)
  | none => .nil
  | some block => .enclosed (declares_ofBlock block)

theorem declares_ofDeclarators : ∀ declarators, Quiet (ofDeclarators declarators)
  | [] => .nil
  | ⟨id, init, _⟩ :: rest =>
    .past (.past (.bindings [id]) (declares_ofExpr? init)) (declares_ofDeclarators rest)

theorem declares_ofForInit? : ∀ init, Quiet (ofForInit? init)
  | none => .nil
  | some (.declaration ⟨_, declarators, _⟩) => declares_ofDeclarators declarators
  | some (.expression value) => declares_ofExpr value

theorem declares_ofForHead : ∀ head, Quiet (ofForHead head)
  | .declared _ id => .bindings [id]
  | .target target => declares_ofExpr target

theorem declares_ofCatch? : ∀ clause, Quiet (ofCatch? clause)
  | none => .nil
  | some ⟨_, body, _⟩ => .enclosed (.past (.bindings _) (declares_ofBlock body))

theorem declares_ofCases : ∀ cases, Declares (ofCases cases) (Frame.ofCases cases)
  | [] => .nil
  | ⟨test, body, _⟩ :: rest =>
    .append (.past (declares_ofExpr? test) (declares_ofStmts body)) (declares_ofCases rest)

theorem declares_ofStmt : ∀ stmt, Declares (ofStmt stmt) (Frame.ofStmt stmt)
  | .macroDeclaration _ => fun _ _ => rfl
  | .expression value _ => declares_ofExpr value
  | .declaration ⟨_, declarators, _⟩ => declares_ofDeclarators declarators
  | .function function => .past (.bindings _) (.enclosed (declares_ofFunctionRest function))
  | .returns argument _ => declares_ofExpr? argument
  | .ifElse test consequent alternate _ =>
    .append (.past (declares_ofExpr test) (declares_ofStmt consequent))
      (declares_ofStmt? alternate)
  | .forLoop init test update body _ =>
    .enclosed (.past (.past (.past (declares_ofForInit? init) (declares_ofExpr? test))
      (declares_ofExpr? update)) (declares_ofStmt body))
  | .forEach _ left right body _ =>
    .enclosed (.past (.past (declares_ofForHead left) (declares_ofExpr right))
      (declares_ofStmt body))
  | .whileLoop test body _ => .past (declares_ofExpr test) (declares_ofStmt body)
  | .doWhile body test _ => .also (declares_ofStmt body) (declares_ofExpr test)
  | .breaks _
  | .continues _ => .nil
  | .throws argument _ => declares_ofExpr argument
  | .tryCatch block clause finalizer _ =>
    .past (.past (.enclosed (declares_ofBlock block)) (declares_ofCatch? clause))
      (declares_ofBlock? finalizer)
  | .switch discriminant cases _ =>
    .past (declares_ofExpr discriminant) (.enclosed (declares_ofCases cases))
  | .block block => .enclosed (declares_ofBlock block)
  | .empty _ => .nil

theorem declares_ofStmt? : ∀ stmt, Declares (ofStmt? stmt) (Frame.ofStmt? stmt)
  | none => .nil
  | some stmt => declares_ofStmt stmt

theorem declares_ofStmts : ∀ stmts, Declares (ofStmts stmts) (Frame.ofStmts stmts)
  | [] => .nil
  | stmt :: rest => .append (declares_ofStmt stmt) (declares_ofStmts rest)

end

end Mark

end MacroScript
