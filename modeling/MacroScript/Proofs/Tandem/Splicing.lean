import MacroScript.Proofs.Splicing
import MacroScript.Proofs.Tandem.Matching

/-!
# Splicing corresponding trees

Two handlers that run in step on corresponding calls splice corresponding trees in step.
What the vocabulary says of the marks of a tree and of the expansions holds of the marks of
the result.
-/

namespace MacroScript

variable {r : Renumbering} {v : Vocabulary}

/-! ## Marks of the vocabulary -/

/-- Everything at the marks was read from tokens of the vocabulary. -/
def Vocabulary.ShowsAll (v : Vocabulary) (marks : List Mark) : Prop :=
  ∀ mark ∈ marks, v.Shows mark

namespace Vocabulary.ShowsAll

variable {first second : List Mark}

theorem append (one : v.ShowsAll first) (two : v.ShowsAll second) :
    v.ShowsAll (first ++ second) :=
  List.forall_mem_append.mpr ⟨one, two⟩

theorem left (shown : v.ShowsAll (first ++ second)) : v.ShowsAll first :=
  (List.forall_mem_append.mp shown).left

theorem right (shown : v.ShowsAll (first ++ second)) : v.ShowsAll second :=
  (List.forall_mem_append.mp shown).right

/-- Where scopes open and close, there is nothing to read. -/
theorem contents_iff (marks : List Mark) :
    v.ShowsAll (Mark.contents marks) ↔ v.ShowsAll marks := by
  constructor
  · intro shown mark mem
    cases mark with
    | enter
    | exit => trivial
    | _ => exact shown _ (List.mem_filter.mpr ⟨mem, rfl⟩)
  · intro shown mark mem
    exact shown mark (List.mem_filter.mp mem).left

end Vocabulary.ShowsAll

namespace Splice

/-! ## Calls -/

theorem asExpression_renumbered (call : Invocation) (stmts : List Stmt) :
    asExpression (r.call call) (r.stmts stmts) = (asExpression call stmts).map r.expr := by
  match stmts with
  | [] => rfl
  | [stmt] => cases stmt <;> rfl
  | stmt :: _ :: _ => cases stmt <;> rfl

/-- The handlers run in step on corresponding calls. -/
def HandlersInStep (r : Renumbering) (v : Vocabulary) (one two : Handler) : Prop :=
  ∀ call, v.Covers call.tokens →
    Session.InStep r v r.program (fun program => v.ShowsAll (Mark.ofProgram program)) (one call)
      (two (r.call call))

variable {one two : Handler} (handlers : HandlersInStep r v one two)

include handlers

theorem inStep_callExpression {call : Invocation} (covered : v.Covers call.tokens) :
    Session.InStep r v r.expr (fun value => v.ShowsAll (Mark.ofExpr value))
      (callExpression one call) (callExpression two (r.call call)) := by
  apply Session.InStep.bind (handlers call covered)
  rintro ⟨body, span⟩ shown
  have same : asExpression (r.call call) (r.program ⟨body, span⟩).body =
      (asExpression call body).map r.expr :=
    asExpression_renumbered call body
  simp only [same]
  cases taken : asExpression call body with
  | error fault => exact .throw fault
  | ok value =>
    refine .pure rfl ?_
    rw [ofExpr_asExpression taken]
    exact shown

/-! ## Trees -/

/-- What is spliced piece by piece is spliced in step. -/
theorem Spliced.inStep {α : Type} {done marks : List Mark} {origin : α}
    {first second : SessionM α} {map : α → α} {view : α → List Mark}
    (spliced : Spliced r one two done marks origin first second map view) (before : v.ShowsAll done)
    (shown : v.ShowsAll marks) :
    Session.InStep r v map (fun value => v.ShowsAll (view value)) first second := by
  induction spliced with
  | pure same seen =>
    subst seen
    exact .pure same before
  | keep kept rest ih =>
    obtain ⟨here, later⟩ := List.forall_mem_cons.mp shown
    exact ih (before.append (List.forall_mem_singleton.mpr here)) later
  | drop rest ih => exact ih before (List.forall_mem_cons.mp shown).right
  | call call origin =>
    simp only [Vocabulary.ShowsAll.contents_iff]
    exact handlers call (shown _ List.mem_cons_self)
  | callExpression call =>
    simp only [Vocabulary.ShowsAll.contents_iff]
    exact inStep_callExpression handlers (shown _ List.mem_cons_self)
  | bind front back unchanged ih ihBack =>
    apply Session.InStep.bind (ih before shown.left)
    intro value seen
    exact ihBack value seen shown.right
  | frame inner ih =>
    apply (ih (List.forall_mem_nil _) shown).mono
    intro _ _ _ _ seen
    exact before.append seen

/-- Corresponding programs are spliced in step. -/
theorem inStep_spliceProgram {program : Program} (shown : v.ShowsAll (Mark.ofProgram program)) :
    Session.InStep r v r.program (fun program => v.ShowsAll (Mark.ofProgram program))
      (spliceProgram one program) (spliceProgram two (r.program program)) := by
  have step := (spliced_spliceProgram r one two program).inStep handlers (List.forall_mem_nil _)
    ((Vocabulary.ShowsAll.contents_iff _).mpr shown)
  simpa only [Vocabulary.ShowsAll.contents_iff] using step

end Splice

end MacroScript
