import MacroScript.Printing
import MacroScript.Proofs.Mark
import MacroScript.Proofs.Outline

/-!
# What a layout writes

The layout of a tree writes the names of the tree, in their order, each behind a mark with its
span and its spelling in the source.  No other mark has a name; the others have the spans of the
other nodes.  A stray item stands for a macro declaration or a macro call, and for every such node
there is one, because the printer visits every place where it could stand.  So a program can be
printed exactly when it has no macro node.
-/

namespace MacroScript

namespace Item

/-- An item that is only text. -/
def isText : Item → Bool
  | .mark _ _ | .stray _ => false
  | _ => true

/-- The items write the leaves among the marks, in their order.  Their other marks have spans of
the outlines, which have the same leaves. -/
inductive Writes : List Item → List Mark → List Outline → Prop
  | nil : Writes [] [] []
  | skip {item : Item} {items : List Item} {marks : List Mark} {outlines : List Outline}
      (text : item.isText = true) (rest : Writes items marks outlines) :
      Writes (item :: items) marks outlines
  | mark {span : Span} {items : List Item} {marks : List Mark} {outlines : List Outline}
      (own : span ∈ Outline.spansAll outlines) (rest : Writes items marks outlines) :
      Writes (.mark span none :: items) marks outlines
  | name {leaf : Leaf} {identifier : Identifier} (named : leaf.name? = some identifier) :
      Writes (Layout.identifierItems identifier) [.leaf leaf] [.leaf leaf]
  | macroNode {leaf : Leaf} {fault : Fault} (unnamed : leaf.name? = none) :
      Writes [.stray fault] [.leaf leaf] [.leaf leaf]
  | node {span : Span} {items : List Item} {marks : List Mark} {outlines : List Outline}
      (inner : Writes items marks outlines) : Writes items marks [.node span outlines]
  | seen {items : List Item} {marks others : List Mark} {outlines : List Outline}
      (same : Mark.leaves marks = Mark.leaves others) (written : Writes items marks outlines) :
      Writes items others outlines
  | append {items others : List Item} {marks more : List Mark} {outlines further : List Outline}
      (first : Writes items marks outlines) (second : Writes others more further) :
      Writes (items ++ others) (marks ++ more) (outlines ++ further)

namespace Writes

variable {items others : List Item} {marks more : List Mark} {outlines further : List Outline}
  {span : Span}

/-- The mark of a node stands before its items. -/
theorem marked (inner : Writes items marks outlines) :
    Writes (.mark span none :: items) marks [.node span outlines] :=
  .mark (Outline.span_mem_spansAll (.node span outlines)) (.node inner)

theorem enclosed (inner : Writes items marks outlines) :
    Writes items (Mark.enclosed marks) outlines :=
  .seen (Mark.leaves_enclosed marks).symm inner

theorem trail (first : Writes items marks outlines) (second : Writes others [] []) :
    Writes (items ++ others) marks outlines := by
  have both := first.append second
  rwa [List.append_nil, List.append_nil] at both

protected theorem binding (identifier : Identifier) :
    Writes (Layout.identifierItems identifier) [.binding identifier] [.ofName identifier] :=
  .name rfl

protected theorem parens (inner : Writes items marks outlines) :
    Writes (parens items) marks outlines :=
  (Writes.skip rfl inner).trail (.skip rfl .nil)

protected theorem parensIf (condition : Bool) (inner : Writes items marks outlines) :
    Writes (parensIf condition items) marks outlines := by
  cases condition with
  | false => exact inner
  | true => exact inner.parens

theorem commaJoin_cons {group : List Item} {groups : List (List Item)}
    (first : Writes group marks outlines) (rest : Writes (commaJoin groups) more further) :
    Writes (commaJoin (group :: groups)) (marks ++ more) (outlines ++ further) := by
  cases groups with
  | nil =>
    have both := first.append rest
    rwa [commaJoin, List.append_nil] at both
  | cons second others => exact first.append (.skip rfl (.skip rfl rest))

theorem bindings (params : List Identifier) :
    Writes (commaJoin (params.map Layout.identifierItems)) (params.map .binding)
      (params.map .ofName) := by
  induction params with
  | nil => exact .nil
  | cons param rest ih => exact (Writes.binding param).commaJoin_cons ih

/-- The outlines have the leaves that are written. -/
theorem leaves (writes : Writes items marks outlines) :
    Outline.leavesAll outlines = Mark.leaves marks := by
  induction writes with
  | nil
  | name
  | macroNode => rfl
  | skip _ _ ih
  | mark _ _ ih => exact ih
  | node _ ih => simpa [Outline.leavesAll, Outline.leaves] using ih
  | seen same _ ih => exact ih.trans same
  | append _ _ first second =>
    rw [Outline.leavesAll_append, Mark.leaves_append, first, second]

/-- Behind a named mark stands the name that it belongs to. -/
theorem exists_name {before after : List Item} {source : String}
    (writes : Writes items marks outlines)
    (split : items = before ++ .mark span (some source) :: after) :
    ∃ leaf ∈ Mark.leaves marks, ∃ identifier, leaf.name? = some identifier ∧
      identifier.span = span ∧ identifier.originalName = source ∧
        ∃ rest, after = .token identifier.name :: rest := by
  induction writes generalizing before after with
  | nil => simp at split
  | skip text _ ih =>
    cases before with
    | nil =>
      obtain ⟨rfl, _⟩ := List.cons.inj split
      cases text
    | cons first rest => exact ih (List.cons.inj split).2
  | mark _ _ ih =>
    cases before with
    | nil => cases split
    | cons first rest => exact ih (List.cons.inj split).2
  | @name leaf identifier named =>
    match before with
    | [] =>
      obtain ⟨⟨rfl, rfl⟩, rfl⟩ := List.cons.inj split
      exact ⟨leaf, List.mem_cons_self, identifier, named, rfl, rfl, [], rfl⟩
    | [one] => cases (List.cons.inj split).2
    | one :: two :: middle => simp [Layout.identifierItems] at split
  | macroNode => simp [List.singleton_eq_append_iff] at split
  | node _ ih => exact ih split
  | seen same _ ih => exact same ▸ ih split
  | append _ _ first second =>
    rw [Mark.leaves_append]
    rcases List.append_eq_append_iff.mp split with ⟨middle, rfl, later⟩ | ⟨middle, here, rest⟩
    · obtain ⟨leaf, mem, known⟩ := second later
      exact ⟨leaf, List.mem_append_right _ mem, known⟩
    · cases middle with
      | nil =>
        obtain ⟨leaf, mem, known⟩ := second (rest.symm.trans (List.nil_append _).symm)
        exact ⟨leaf, List.mem_append_right _ mem, known⟩
      | cons item middle =>
        obtain ⟨rfl, rfl⟩ := List.cons.inj rest
        obtain ⟨leaf, mem, identifier, named, place, spelling, _, rfl⟩ := first here
        exact ⟨leaf, List.mem_append_left _ mem, identifier, named, place, spelling, _, rfl⟩

/-- Every mark has a span of the outlines. -/
theorem mem_spans (writes : Writes items marks outlines) {name : Option String}
    (mem : .mark span name ∈ items) : span ∈ Outline.spansAll outlines := by
  induction writes with
  | nil => cases mem
  | skip text _ ih =>
    rcases List.mem_cons.mp mem with rfl | later
    · cases text
    · exact ih later
  | mark own _ ih =>
    rcases List.mem_cons.mp mem with same | later
    · cases same
      exact own
    · exact ih later
  | @name leaf identifier named =>
    simp only [Layout.identifierItems, List.mem_cons, Item.mark.injEq, reduceCtorEq,
      List.not_mem_nil, or_false] at mem
    obtain ⟨rfl, -⟩ := mem
    cases leaf <;> cases named <;> exact Outline.span_mem_spansAll (.leaf _)
  | macroNode => simp at mem
  | node _ ih => simpa [Outline.spansAll, Outline.spans] using Or.inr (ih mem)
  | seen _ _ ih => exact ih mem
  | append _ _ first second =>
    rw [Outline.spansAll_append]
    exact List.mem_append.mpr ((List.mem_append.mp mem).imp first second)

/-- Stray items stand for macro nodes. -/
theorem strays_iff (writes : Writes items marks outlines) :
    (∀ item ∈ items, item.fault? = none) ↔ MacroFree (Mark.leaves marks) := by
  induction writes with
  | nil => simp [Mark.leaves]
  | @skip item _ _ _ text _ ih => cases item <;> simp_all [isText, fault?]
  | mark _ _ ih => simpa [fault?] using ih
  | @name leaf _ named =>
    cases leaf <;> simp_all [Leaf.name?, Leaf.isMacro, Layout.identifierItems, fault?]
  | @macroNode leaf _ unnamed =>
    cases leaf <;> simp_all [Leaf.name?, Leaf.isMacro, fault?]
  | node _ ih => exact ih
  | seen same _ ih => rwa [← same]
  | append _ _ first second =>
    rw [Mark.leaves_append, MacroFree.append_iff, ← first, ← second]
    simp only [List.mem_append, or_imp, forall_and]

end Writes

end Item

namespace Layout

open MacroScript.Item (Writes)

variable {depth : Nat} {stmt : Stmt}

/-! ## Pieces -/

section Pieces

variable {items : List Item} {marks : List Mark} {outlines : List Outline}

theorem writes_slot (required : Nat) (expr : Expr) (writes : Writes items marks outlines) :
    Writes (slot required expr items) marks outlines :=
  writes.parensIf _

theorem writes_operand (op : BinaryOp) (required : Nat) (expr : Expr)
    (writes : Writes items marks outlines) :
    Writes (operand op required expr items) marks outlines := by
  unfold operand
  split
  · exact writes.parens
  · exact writes_slot required expr writes

theorem writes_guarded (expr : Expr) (required : Nat) (writes : Writes items marks outlines) :
    Writes (guarded expr required items) marks outlines := by
  unfold guarded
  split
  · exact writes.parens
  · exact writes_slot required expr writes

theorem writes_memberObject (object : Expr) (writes : Writes items marks outlines) :
    Writes (memberObject object items) marks outlines := by
  unfold memberObject
  split
  · exact writes.parens
  · exact writes_slot _ object writes

theorem writes_constructCallee (callee : Expr) (writes : Writes items marks outlines) :
    Writes (constructCallee callee items) marks outlines := by
  unfold constructCallee
  split
  · exact writes.parens
  · exact writes_slot _ callee writes

theorem writes_braced (depth : Nat) (writes : Writes items marks outlines) :
    Writes (braced depth items) marks outlines := by
  unfold braced
  split
  · rename_i empty
    obtain rfl := List.isEmpty_iff.mp empty
    exact .skip rfl (.skip rfl writes)
  · exact (Writes.skip rfl (.skip rfl writes)).trail (.skip rfl (.skip rfl .nil))

theorem writes_arrowParameterItems (params : List Identifier) :
    Writes (arrowParameterItems params) (params.map .binding) (params.map .ofName) := by
  unfold arrowParameterItems
  split
  · exact .binding _
  · exact (Writes.bindings params).parens

end Pieces

section

variable (written : Writes (stmtItems depth stmt) (Mark.ofStmt stmt) [Outline.ofStmt stmt])
include written

theorem writes_bodyItems :
    Writes (bodyItems stmt (stmtItems depth stmt)) (Mark.ofStmt stmt) [Outline.ofStmt stmt] := by
  cases stmt with
  | empty span => exact .skip rfl (.node .nil)
  | _ => exact .skip rfl written

theorem writes_alternateItems :
    Writes (alternateItems stmt (stmtItems depth stmt)) (Mark.ofStmt stmt)
      [Outline.ofStmt stmt] := by
  cases stmt with
  | empty span => exact .skip rfl (.node .nil)
  | _ => exact .skip rfl written

end

/-- The name alone stands for a property whose value is that name. -/
theorem ofProperty_of_abbreviates {property : Property Expr} {identifier : Identifier}
    (abbreviated : abbreviates property = some identifier) :
    Mark.ofProperty property = [.reference identifier] ∧
      Outline.ofProperty property = .node property.span [.leaf (.reference identifier)] := by
  rcases property with ⟨key, value, shorthand, span⟩
  unfold abbreviates at abbreviated
  split at abbreviated
  · rename_i keyEq valueEq
    obtain rfl := keyEq
    obtain rfl := valueEq
    split at abbreviated
    · obtain rfl := Option.some.inj abbreviated
      exact ⟨rfl, rfl⟩
    · cases abbreviated
  · cases abbreviated

/-! ## The tree -/

mutual

/-- The layout of an expression writes its names. -/
theorem writes_expr : ∀ (expr : Expr) (depth : Nat),
    Writes (exprItems depth expr) (Mark.ofExpr expr) [Outline.ofExpr expr]
  | .identifier name, _ => .mark (Outline.span_mem_ofExpr (.identifier name)) (.name rfl)
  | .literal value, _ =>
    .seen (show Mark.leaves [] = Mark.leaves [.literal value] from rfl) (.marked (.skip rfl .nil))
  | .this _, _ => .marked (.skip rfl .nil)
  | .array elements _, depth =>
    .marked (.trail (.skip rfl (writes_exprSlots elements depth)) (.skip rfl .nil))
  | .object [] _, _ => .marked (.skip rfl (.skip rfl .nil))
  | .object (property :: rest) _, depth =>
    .marked (.trail (.skip rfl (.skip rfl (writes_propertyGroups (property :: rest) depth)))
      (.skip rfl (.skip rfl .nil)))
  | .function inner, depth =>
    .mark (Outline.span_mem_ofExpr (.function inner)) (writes_functionItems inner depth).enclosed
  | .arrow inner, depth =>
    .mark (Outline.span_mem_ofExpr (.arrow inner)) (writes_arrowItems inner depth).enclosed
  | .unary op argument _, depth => by
    have written := writes_slot Strength.unary argument (writes_expr argument depth)
    simp only [exprItems]
    split
    · exact .marked (.skip rfl (.skip rfl written))
    · exact .marked (.skip rfl written)
  | .update _ false argument _, depth =>
    .marked ((writes_slot _ argument (writes_expr argument depth)).trail (.skip rfl .nil))
  | .update _ true argument _, depth =>
    .marked (.skip rfl (writes_slot _ argument (writes_expr argument depth)))
  | .binary op left right _, depth =>
    .marked (.append (writes_operand op _ left (writes_expr left depth))
      (.skip rfl (.skip rfl (.skip rfl (writes_operand op _ right (writes_expr right depth))))))
  | .assign _ target value _, depth =>
    .marked (.append (writes_slot _ target (writes_expr target depth))
      (.skip rfl (.skip rfl (.skip rfl (writes_slot _ value (writes_expr value depth))))))
  | .conditional test consequent alternate _, depth =>
    .marked (.append
      (.append (writes_slot _ test (writes_expr test depth))
        (.skip rfl (.skip rfl (.skip rfl (writes_slot _ _ (writes_expr consequent depth))))))
      (.skip rfl (.skip rfl (.skip rfl (writes_slot _ _ (writes_expr alternate depth))))))
  | .call callee arguments isOptional _, depth => by
    have sign : Writes (if isOptional then [.token "?."] else []) [] [] := by
      cases isOptional with
      | false => exact .nil
      | true => exact .skip rfl .nil
    exact .marked (.append (.trail (writes_slot _ callee (writes_expr callee depth)) sign)
      (writes_exprSlots arguments depth).parens)
  | .construct callee arguments _, depth =>
    .marked (.append
      (.skip rfl (.skip rfl (writes_constructCallee callee (writes_expr callee depth))))
      (writes_exprSlots arguments depth).parens)
  | .member object key isOptional _, depth =>
    .marked (.append (writes_memberObject object (writes_expr object depth))
      (writes_memberKeyItems key depth isOptional))
  | .sequence expressions _, depth => .marked (writes_exprSlots expressions depth)
  | .invocation use, _ => .mark (Outline.span_mem_ofExpr (.invocation use)) (.macroNode rfl)

theorem writes_exprSlots : ∀ (exprs : List Expr) (depth : Nat),
    Writes (Item.commaJoin (exprSlots depth exprs)) (Mark.ofExprs exprs) (Outline.ofExprs exprs)
  | [], _ => .nil
  | expr :: rest, depth =>
    (writes_slot _ expr (writes_expr expr depth)).commaJoin_cons (writes_exprSlots rest depth)

theorem writes_spacedItems : ∀ (expr : Option Expr) (depth : Nat),
    Writes (spacedItems depth expr) (Mark.ofExpr? expr) (Outline.ofExpr? expr)
  | none, _ => .nil
  | some value, depth => .skip rfl (writes_slot _ value (writes_expr value depth))

theorem writes_initItems : ∀ (expr : Option Expr) (depth : Nat),
    Writes (initItems depth expr) (Mark.ofExpr? expr) (Outline.ofExpr? expr)
  | none, _ => .nil
  | some value, depth =>
    .skip rfl (.skip rfl (.skip rfl (writes_slot _ value (writes_expr value depth))))

theorem writes_caseTestItems : ∀ (expr : Option Expr) (depth : Nat),
    Writes (caseTestItems depth expr) (Mark.ofExpr? expr) (Outline.ofExpr? expr)
  | none, _ => .skip rfl (.skip rfl .nil)
  | some value, depth =>
    (Writes.skip rfl (.skip rfl (writes_slot _ value (writes_expr value depth)))).trail
      (.skip rfl .nil)

theorem writes_memberKeyItems : ∀ (key : MemberKey Expr) (depth : Nat) (isOptional : Bool),
    Writes (memberKeyItems depth isOptional key) (Mark.ofMemberKey key) (Outline.ofMemberKey key)
  | .named _, _, _ => .skip rfl (.skip rfl .nil)
  | .computed value, depth, isOptional => by
    have selected : Writes
        (.token "[" :: slot Strength.sequence value (exprItems depth value) ++ [.token "]"])
        (Mark.ofExpr value) [Outline.ofExpr value] :=
      .trail (.skip rfl (writes_slot _ value (writes_expr value depth))) (.skip rfl .nil)
    cases isOptional with
    | false => exact selected
    | true => exact .skip rfl selected

theorem writes_propertyKeyItems : ∀ (key : PropertyKey Expr) (depth : Nat),
    Writes (propertyKeyItems depth key) (Mark.ofPropertyKey key) (Outline.ofPropertyKey key)
  | .identifier _, _
  | .string _, _
  | .number _, _ => .skip rfl .nil
  | .computed value, depth =>
    (Writes.skip rfl (writes_slot _ value (writes_expr value depth))).trail (.skip rfl .nil)

theorem writes_propertyItems : ∀ (property : Property Expr) (depth : Nat),
    Writes (propertyItems depth property) (Mark.ofProperty property) [Outline.ofProperty property]
  | ⟨key, value, _, span⟩, depth => by
    unfold propertyItems
    split
    · rename_i identifier abbreviated
      rw [(ofProperty_of_abbreviates abbreviated).1, (ofProperty_of_abbreviates abbreviated).2]
      exact .marked (.name rfl)
    · exact .marked ((writes_propertyKeyItems key depth).append
        (.skip rfl (.skip rfl (writes_slot _ value (writes_expr value depth)))))

theorem writes_propertyGroups : ∀ (properties : List (Property Expr)) (depth : Nat),
    Writes (Item.commaJoin (propertyGroups depth properties)) (Mark.ofProperties properties)
      (Outline.ofProperties properties)
  | [], _ => .nil
  | property :: rest, depth =>
    (writes_propertyItems property depth).commaJoin_cons (writes_propertyGroups rest depth)

theorem writes_stmtLines : ∀ (stmts : List Stmt) (depth : Nat),
    Writes (stmtLines depth stmts) (Mark.ofStmts stmts) (Outline.ofStmts stmts)
  | [], _ => .nil
  | stmt :: rest, depth =>
    (Writes.skip rfl (writes_stmt stmt depth)).append (.skip rfl (writes_stmtLines rest depth))

theorem writes_blockItems : ∀ (block : Block Stmt) (depth : Nat),
    Writes (blockItems depth block) (Mark.ofBlock block) [Outline.ofBlock block]
  | ⟨body, _⟩, depth => .marked (writes_braced depth (writes_stmtLines body (depth + 1)))

theorem writes_functionItems : ∀ (function : Function Stmt) (depth : Nat),
    Writes (functionItems depth function)
      (function.name.toList.map .binding ++ Mark.ofFunctionRest function)
      [Outline.ofFunction function]
  | ⟨none, params, body, _⟩, depth =>
    .node ((Writes.skip rfl (Writes.bindings params).parens).append
      (.skip rfl (writes_blockItems body depth)))
  | ⟨some name, params, body, _⟩, depth =>
    .node ((Writes.skip rfl (.skip rfl (.binding name))).append
      ((Writes.bindings params).parens.append (.skip rfl (writes_blockItems body depth))))

theorem writes_arrowItems : ∀ (arrow : Arrow Expr Stmt) (depth : Nat),
    Writes (arrowItems depth arrow) (Mark.ofArrow arrow) [Outline.ofExpr (.arrow arrow)]
  | ⟨params, .expression value, _⟩, depth =>
    .node ((writes_arrowParameterItems params).append
      (.skip rfl (.skip rfl (.skip rfl (writes_guarded value _ (writes_expr value depth))))))
  | ⟨params, .block body, _⟩, depth =>
    .node ((writes_arrowParameterItems params).append
      (.skip rfl (.skip rfl (.skip rfl (writes_blockItems body depth)))))

theorem writes_declaratorGroups : ∀ (declarators : List (Declarator Expr)) (depth : Nat),
    Writes (Item.commaJoin (declaratorGroups depth declarators))
      (Mark.ofDeclarators declarators) (Outline.ofDeclarators declarators)
  | [], _ => .nil
  | ⟨id, init, _⟩ :: rest, depth =>
    (Writes.node ((Writes.binding id).append (writes_initItems init depth))).commaJoin_cons
      (writes_declaratorGroups rest depth)

theorem writes_declarationItems : ∀ (declaration : Declaration Expr) (depth : Nat),
    Writes (declarationItems depth declaration) (Mark.ofDeclaration declaration)
      [Outline.ofDeclaration declaration]
  | ⟨_, declarators, _⟩, depth =>
    .node (.skip rfl (.skip rfl (writes_declaratorGroups declarators depth)))

theorem writes_optionalForInitItems : ∀ (init : Option (ForInit Expr)) (depth : Nat),
    Writes (optionalForInitItems depth init) (Mark.ofForInit? init) (Outline.ofForInit? init)
  | none, _ => .nil
  | some (.declaration declared), depth => writes_declarationItems declared depth
  | some (.expression value), depth => writes_slot _ value (writes_expr value depth)

theorem writes_forHeadItems : ∀ (head : ForHead Expr) (depth : Nat),
    Writes (forHeadItems depth head) (Mark.ofForHead head) [Outline.ofForHead head]
  | .declared _ id, _ => .skip rfl (.skip rfl (.binding id))
  | .target target, depth => writes_slot _ target (writes_expr target depth)

theorem writes_optionalCatchItems : ∀ (clause : Option (Catch Stmt)) (depth : Nat),
    Writes (optionalCatchItems depth clause) (Mark.ofCatch? clause) (Outline.ofCatch? clause)
  | none, _ => .nil
  | some ⟨none, body, _⟩, depth =>
    .enclosed (.node (.skip rfl (.skip rfl (.skip rfl (writes_blockItems body depth)))))
  | some ⟨some param, body, _⟩, depth =>
    .enclosed (.node (.skip rfl (.skip rfl (.skip rfl
      ((Writes.trail (Writes.binding param).parens (.skip rfl .nil)).append
        (writes_blockItems body depth))))))

theorem writes_finalizerItems : ∀ (block : Option (Block Stmt)) (depth : Nat),
    Writes (finalizerItems depth block) (Mark.ofBlock? block) (Outline.ofBlock? block)
  | none, _ => .nil
  | some inner, depth =>
    .enclosed (.skip rfl (.skip rfl (.skip rfl (writes_blockItems inner depth))))

theorem writes_switchLines : ∀ (cases : List (Case Expr Stmt)) (depth : Nat),
    Writes (switchLines depth cases) (Mark.ofCases cases) (Outline.ofCases cases)
  | [], _ => .nil
  | ⟨test, body, _⟩ :: rest, depth =>
    (Writes.node (Writes.append (.skip rfl (writes_caseTestItems test depth))
      (.skip rfl (writes_stmtLines body (depth + 1))))).append (writes_switchLines rest depth)

theorem writes_elseItems : ∀ (stmt : Option Stmt) (depth : Nat),
    Writes (elseItems depth stmt) (Mark.ofStmt? stmt) (Outline.ofStmt? stmt)
  | none, _ => .nil
  | some inner, depth =>
    .skip rfl (.skip rfl (writes_alternateItems (writes_stmt inner depth)))

/-- The layout of a statement writes its names. -/
theorem writes_stmt : ∀ (stmt : Stmt) (depth : Nat),
    Writes (stmtItems depth stmt) (Mark.ofStmt stmt) [Outline.ofStmt stmt]
  | .expression value _, depth =>
    .marked (.trail (writes_guarded value _ (writes_expr value depth)) (.skip rfl .nil))
  | .declaration declared, depth =>
    .trail (.mark (Outline.span_mem_ofStmt (.declaration declared))
      (writes_declarationItems declared depth)) (.skip rfl .nil)
  | .function inner, depth =>
    .mark (Outline.span_mem_ofStmt (.function inner))
      (.seen (by simp [Mark.ofStmt]) (writes_functionItems inner depth))
  | .returns argument _, depth =>
    .marked (.trail (.skip rfl (writes_spacedItems argument depth)) (.skip rfl .nil))
  | .ifElse test consequent alternate _, depth =>
    .marked (.append
      (.append (.skip rfl (.skip rfl (writes_slot _ test (writes_expr test depth)).parens))
        (writes_bodyItems (writes_stmt consequent depth)))
      (writes_elseItems alternate depth))
  | .forLoop init test update body _, depth =>
    .marked (.enclosed (.append
      (.skip rfl (.skip rfl
        (.parens (.append
          (.append (writes_optionalForInitItems init depth)
            (.skip rfl (writes_spacedItems test depth)))
          (.skip rfl (writes_spacedItems update depth))))))
      (writes_bodyItems (writes_stmt body depth))))
  | .forEach _ left right body _, depth =>
    .marked (.enclosed (.append
      (.skip rfl (.skip rfl
        (.parens (.append (writes_forHeadItems left depth)
          (.skip rfl (.skip rfl (.skip rfl (writes_slot _ right (writes_expr right depth)))))))))
      (writes_bodyItems (writes_stmt body depth))))
  | .whileLoop test body _, depth =>
    .marked (.append
      (.skip rfl (.skip rfl (writes_slot _ test (writes_expr test depth)).parens))
      (writes_bodyItems (writes_stmt body depth)))
  | .doWhile body test _, depth =>
    .marked (.trail
      (.append (.skip rfl (writes_bodyItems (writes_stmt body depth)))
        (.skip rfl (.skip rfl (.skip rfl (writes_slot _ test (writes_expr test depth)).parens))))
      (.skip rfl .nil))
  | .breaks _, _
  | .continues _, _ => .marked (.skip rfl (.skip rfl .nil))
  | .throws argument _, depth =>
    .marked (.trail (.skip rfl (.skip rfl (writes_slot _ argument (writes_expr argument depth))))
      (.skip rfl .nil))
  | .tryCatch inner clause finalizer _, depth =>
    .marked (.append
      (.append (.enclosed (.skip rfl (.skip rfl (writes_blockItems inner depth))))
        (writes_optionalCatchItems clause depth))
      (writes_finalizerItems finalizer depth))
  | .switch discriminant cases _, depth =>
    .marked (.trail
      (.append
        (.skip rfl (.skip rfl
          (writes_slot _ discriminant (writes_expr discriminant depth)).parens))
        (.enclosed (.skip rfl (.skip rfl (.skip rfl (writes_switchLines cases (depth + 1)))))))
      (.skip rfl (.skip rfl .nil)))
  | .block inner, depth =>
    .mark (Outline.span_mem_ofStmt (.block inner)) (writes_blockItems inner depth).enclosed
  | .empty _, _ => .marked (.skip rfl .nil)
  | .macroDeclaration declared, _ =>
    .mark (Outline.span_mem_ofStmt (.macroDeclaration declared)) (.macroNode rfl)

end

/-- The layout of a program writes its leaves, in their order. -/
theorem writes_programItems (program : Program) :
    Writes (programItems program) (Mark.ofProgram program) (Outline.ofStmts program.body) := by
  cases program
  exact writes_stmtLines _ 0

end Layout

/-- A program without macro nodes is printed, whatever the options. -/
theorem print_of_macroFree {program : Program} (macroFree : MacroFree (Leaf.ofProgram program))
    (options : PrintOptions) :
    print program options = .ok
      { code := Item.render (Layout.programItems program)
        map := if options.emitMap then some (mapOf (Layout.programItems program) options)
          else none } := by
  have whole := (Layout.writes_programItems program).strays_iff.mpr macroFree
  simp only [print, List.findSome?_eq_none_iff.mpr whole]

/-- Printing succeeds exactly on programs without macro nodes, whatever the
options. -/
theorem print_isOk_iff (program : Program) (options : PrintOptions) :
    (∃ printed, print program options = .ok printed) ↔ MacroFree (Leaf.ofProgram program) := by
  refine ⟨?_, fun macroFree => ⟨_, print_of_macroFree macroFree options⟩⟩
  rw [Leaf.ofProgram, ← (Layout.writes_programItems program).strays_iff,
    ← List.findSome?_eq_none_iff]
  rintro ⟨printed, run⟩
  cases stray : (Layout.programItems program).findSome? Item.fault? with
  | none => rfl
  | some fault => simp [print, stray] at run

end MacroScript
