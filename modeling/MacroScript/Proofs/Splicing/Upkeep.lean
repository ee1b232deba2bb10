import MacroScript.Compile
import MacroScript.Proofs.Splicing.Driven

/-!
# What is kept while everything is expanded

Compiling a program expands its calls, the calls of their expansions, and so on, and touches the
session in no other way, apart from the trace.  What is said of the expansion of one call is so
true of compiling, if it does not depend on the trace and if calls that wait stay fit to be
expanded.
-/

namespace MacroScript

open MacroScript.Outcome

/-- What is kept while calls are expanded.  A world is a session together with what is known of
it.  The relations say how a later world is related to an earlier one, which faults are blamed for
what began in a world, and which calls are fine there. -/
structure Upkeep where
  World : Type
  session : World → Session
  related : World → World → Prop
  blamed : World → Fault → Session → Prop
  fine : World → Invocation → Prop
  refl (world : World) : related world world
  trans {first second third : World} (one : related first second)
    (two : related second third) : related first third
  failing {first second : World} {fault : Fault} {after : Session} (one : related first second)
    (two : blamed second fault after) : blamed first fault after
  later {first second : World} {call : Invocation} (one : related first second)
    (known : fine first call) : fine second call
  retrace (world : World) (trace : Array TraceStep) :
    ∃ next, session next = { session world with trace } ∧ related world next
  complain {world : World} {call : Invocation} (problem : ExpansionProblem)
    (known : fine world call) :
    blamed world (.expansion call.name.name call.span problem) (session world)
  expand {world : World} {call : Invocation} (known : fine world call) :
    Comes (fun expansion after => ∃ next, session next = after ∧ related world next ∧
        ∀ inner, .call inner ∈ Leaf.ofProgram expansion.program → fine next inner)
      (blamed world) (expand call (session world))

/-- Opening a step changes nothing but the trace, whether expansions are recorded or not. -/
theorem Compile.exists_beginStep (recordTrace : Bool) (call : Invocation) (session : Session) :
    ∃ step trace, beginStep recordTrace call session = .ok step { session with trace } := by
  cases recordTrace with
  | false => exact ⟨none, session.trace, rfl⟩
  | true => exact ⟨_, _, rfl⟩

namespace Upkeep

open MacroScript.Splice MacroScript.Compile

variable (upkeep : Upkeep) {α β : Type} {world : upkeep.World} {call : Invocation}

/-- What came of an action that began in the world. -/
abbrev Meets (world : upkeep.World) (post : α → upkeep.World → Prop) :
    EStateM.Result Fault Session α → Prop :=
  Comes (fun value after =>
      ∃ next, upkeep.session next = after ∧ upkeep.related world next ∧ post value next)
    (upkeep.blamed world)

theorem bind {post : α → upkeep.World → Prop} {last : β → upkeep.World → Prop}
    {action : SessionM α} {next : α → SessionM β}
    (one : upkeep.Meets world post (action (upkeep.session world)))
    (two : ∀ value middle, upkeep.related world middle → post value middle →
      upkeep.Meets middle last (next value (upkeep.session middle))) :
    upkeep.Meets world last ((action >>= next) (upkeep.session world)) := by
  refine Comes.bind one ?_
  rintro value _ ⟨middle, rfl, related, holds⟩
  refine (two value middle related holds).imp ?_ fun _ _ => upkeep.failing related
  rintro _ _ ⟨final, same, further, reached⟩
  exact ⟨final, same, upkeep.trans related further, reached⟩

theorem driven {handler : Handler} {leaves : List Leaf} {action : SessionM α}
    (driven : Driven handler leaves action)
    (expands : ∀ call world, upkeep.fine world call →
      upkeep.Meets world (fun _ _ => True) (handler call (upkeep.session world)))
    (known : ∀ call, .call call ∈ leaves → upkeep.fine world call) :
    upkeep.Meets world (fun _ _ => True) (action (upkeep.session world)) := by
  induction driven generalizing world with
  | pure leaves value => exact ⟨world, rfl, upkeep.refl world, trivial⟩
  | complain call problem => exact upkeep.complain problem (known call List.mem_cons_self)
  | call invocation => exact expands invocation world (known invocation List.mem_cons_self)
  | bind _ _ one two =>
    apply upkeep.bind (one fun call mem => known call (List.mem_append_left _ mem))
    intro value middle later _
    exact two value fun call mem => upkeep.later later (known call (List.mem_append_right _ mem))
  | mono _ subset ih => exact ih fun call mem => known call (subset mem)

theorem expandWithin (recordTrace : Bool) (depth : Nat) (known : upkeep.fine world call) :
    upkeep.Meets world (fun _ _ => True)
      (expandWithin recordTrace depth call (upkeep.session world)) := by
  have traced {α : Type} (value : α) (world : upkeep.World) (trace : Array TraceStep) :
      upkeep.Meets world (fun _ _ => True) (.ok value { upkeep.session world with trace }) := by
    obtain ⟨next, same, related⟩ := upkeep.retrace world trace
    exact ⟨next, same, related, trivial⟩
  induction depth generalizing world call with
  | zero => exact upkeep.complain _ known
  | succ depth ih =>
    have begins : upkeep.Meets world (fun _ _ => True)
        (beginStep recordTrace call (upkeep.session world)) := by
      obtain ⟨step, trace, began⟩ := exists_beginStep recordTrace call (upkeep.session world)
      rw [began]
      exact traced step world trace
    apply upkeep.bind begins
    intro step begun later _
    apply upkeep.bind (upkeep.expand (upkeep.later later known))
    intro expansion expanded _ calls
    apply upkeep.bind (upkeep.driven (driven_spliceProgram expansion.program)
      (fun _ _ => ih) calls)
    intro program spliced _ _
    cases step with
    | none => exact ⟨spliced, rfl, upkeep.refl spliced, trivial⟩
    | some number => exact traced _ spliced _

/-- Compiling a program whose calls are fine keeps what is kept by expanding a single call. -/
theorem compile (options : CompileOptions) {program : Program}
    (known : ∀ call, .call call ∈ Leaf.ofProgram program → upkeep.fine world call) :
    upkeep.Meets world (fun _ _ => True) (compile options program (upkeep.session world)) :=
  upkeep.driven (driven_spliceProgram program)
    (fun _ _ => upkeep.expandWithin options.recordTrace expansionLimit) known

end Upkeep

end MacroScript
