import Mathlib.Order.Defs.Unbundled
import Mathlib.Tactic.Common

/-!
# Outcomes of stateful computations

Parsers and session computations are `EStateM` actions.  The lemmas here take a
successful run of a composed action apart into the runs of its pieces, and carry a
relation between states through composed actions, failing ones included.
-/

namespace MacroScript.Outcome

variable {ε σ α β : Type} {state after : σ} {value : α} {fault : ε} {first : Except ε α}
  {next : α → Except ε β} {action : EStateM ε σ α} {weaker : α → σ → Prop}

/-- A sequence succeeds exactly when both parts do. -/
theorem bind_eq_ok_iff {first : EStateM ε σ α} {next : α → EStateM ε σ β} {result : β} :
    (first >>= next) state = .ok result after ↔
      ∃ value middle, first state = .ok value middle ∧ next value middle = .ok result after := by
  simp only [bind, EStateM.bind]
  cases first state with
  | ok value middle
  | error fault middle => simp

theorem pure_eq_ok_iff {result : α} :
    (pure value : EStateM ε σ α) state = .ok result after ↔ value = result ∧ state = after := by
  simp [pure, EStateM.pure]

@[simp]
theorem throw_ne_ok {result : α} : ¬ (throw fault : EStateM ε σ α) state = .ok result after := by
  intro run
  cases run

theorem get_run (state : σ) : (get : EStateM ε σ σ) state = .ok state state :=
  rfl

theorem modify_run (change : σ → σ) (state : σ) :
    (modify change : EStateM ε σ PUnit) state = .ok ⟨⟩ (change state) :=
  rfl

/-- A sequence of checked computations succeeds exactly when both parts do. -/
theorem except_bind_eq_ok_iff {result : β} :
    first >>= next = .ok result ↔ ∃ value, first = .ok value ∧ next value = .ok result := by
  cases first with
  | error fault
  | ok value => simp [bind, Except.bind]

/-- A sequence of checked computations fails where its first or its second part does. -/
theorem except_bind_eq_error_iff :
    first >>= next = .error fault ↔
      first = .error fault ∨ ∃ value, first = .ok value ∧ next value = .error fault := by
  cases first with
  | error other
  | ok value => simp [bind, Except.bind]

theorem toOption_eq_some_iff {result : Except ε α} :
    result.toOption = some value ↔ result = .ok value := by
  cases result with
  | error fault
  | ok other => simp [Except.toOption]

/-- The value or the fault of a computation, without the state. -/
def answer : EStateM.Result ε σ α → Except ε α
  | .ok value _ => .ok value
  | .error fault _ => .error fault

theorem answer_eq_ok_iff {result : EStateM.Result ε σ α} :
    answer result = .ok value ↔ ∃ state, result = .ok value state := by
  cases result with
  | ok other state
  | error fault state => simp [answer]

/-- Whether a computation came to a value that passes a test. -/
def yields (test : α → Bool) : EStateM.Result ε σ α → Bool
  | .ok value _ => test value
  | .error _ _ => false

theorem exists_ok_of_yields {test : α → Bool} {result : EStateM.Result ε σ α}
    (yielded : yields test result = true) :
    ∃ value after, result = .ok value after ∧ test value = true := by
  cases result with
  | ok value after => exact ⟨value, after, rfl, yielded⟩
  | error fault after => cases yielded

/-- The same for a test of the value and of the state. -/
def endsWith (test : α → σ → Bool) : EStateM.Result ε σ α → Bool
  | .ok value state => test value state
  | .error _ _ => false

theorem exists_ok_of_endsWith {test : α → σ → Bool} {result : EStateM.Result ε σ α}
    (ended : endsWith test result = true) :
    ∃ value after, result = .ok value after ∧ test value after = true := by
  cases result with
  | ok value after => exact ⟨value, after, rfl, ended⟩
  | error fault after => cases ended

/-- Whether a computation for the first of some inputs came to a value and a state that pass a
test. -/
def firstEndsWith {ι : Type} (test : ι → α → σ → Bool) (action : ι → EStateM ε σ α)
    (inputs : List ι) (state : σ) : Bool :=
  inputs.head?.any fun input => endsWith (test input) (action input state)

theorem exists_ok_of_firstEndsWith {ι : Type} {test : ι → α → σ → Bool}
    {action : ι → EStateM ε σ α} {inputs : List ι} {state : σ}
    (ended : firstEndsWith test action inputs state = true) :
    ∃ input rest value after, inputs = input :: rest ∧ action input state = .ok value after ∧
      test input value after = true := by
  obtain ⟨input, found, inputEnded⟩ := (Option.any_eq_true _ _).mp ended
  obtain ⟨rest, rfl⟩ := List.head?_eq_some_iff.mp found
  obtain ⟨value, after, run, holds⟩ := exists_ok_of_endsWith inputEnded
  exact ⟨input, rest, value, after, rfl, run, holds⟩

/-- Whether a computation came to a fault, in a state that passes a test. -/
def failsWith (test : σ → Bool) : EStateM.Result ε σ α → Bool
  | .ok _ _ => false
  | .error _ state => test state

theorem exists_error_of_failsWith {test : σ → Bool} {result : EStateM.Result ε σ α}
    (failed : failsWith test result = true) :
    ∃ fault after, result = .error fault after ∧ test after = true := by
  cases result with
  | ok value after => cases failed
  | error fault after => exact ⟨fault, after, rfl, failed⟩

/-! ## What every run keeps -/

/-- The state in which a computation ended, with a value or a fault. -/
def final : EStateM.Result ε σ α → σ
  | .ok _ state => state
  | .error _ state => state

/-- The action leads from every state to a related one, whether it comes to a value or to a
fault. -/
def Leads (related : σ → σ → Prop) (action : EStateM ε σ α) : Prop :=
  ∀ state, related state (final (action state))

namespace Leads

variable {related : σ → σ → Prop} [IsPreorder σ related] {next : α → EStateM ε σ β}

protected theorem pure (value : α) : Leads related (pure value : EStateM ε σ α) :=
  refl_of related

theorem throw (fault : ε) : Leads related (throw fault : EStateM ε σ α) :=
  refl_of related

/-- One run that leads to a related state, and what follows it. -/
theorem final_bind (one : related state (final (action state)))
    (two : ∀ value, Leads related (next value)) :
    related state (final ((action >>= next) state)) := by
  simp only [bind, EStateM.bind]
  cases run : action state with
  | error fault after =>
    rw [run] at one
    exact one
  | ok value middle =>
    rw [run] at one
    exact trans_of related one (two value middle)

protected theorem bind (one : Leads related action) (two : ∀ value, Leads related (next value)) :
    Leads related (action >>= next) :=
  fun state => final_bind (one state) two

omit [IsPreorder σ related] in
theorem either {condition : Bool} {first second : EStateM ε σ α} (yes : Leads related first)
    (no : Leads related second) : Leads related (if condition then first else second) := by
  cases condition
  · exact no
  · exact yes

end Leads

/-! ## What single runs come to -/

/-- An action has come to a value that satisfies `post`, or to a fault that satisfies `blamed`, in
the state where it stopped. -/
abbrev Comes (post : α → σ → Prop) (blamed : ε → σ → Prop) (result : EStateM.Result ε σ α) :
    Prop :=
  match result with
  | .ok value after => post value after
  | .error fault after => blamed fault after

namespace Comes

variable {post : α → σ → Prop} {later : β → σ → Prop} {blamed blamedToo : ε → σ → Prop}

theorem imp {result : EStateM.Result ε σ α} (comes : Comes post blamed result)
    (values : ∀ value after, post value after → weaker value after)
    (faults : ∀ fault after, blamed fault after → blamedToo fault after) :
    Comes weaker blamedToo result := by
  cases result with
  | ok value after => exact values value after comes
  | error fault after => exact faults fault after comes

protected theorem bind {next : α → EStateM ε σ β} {state : σ}
    (one : Comes post blamed (action state))
    (two : ∀ value middle, post value middle → Comes later blamed (next value middle)) :
    Comes later blamed ((action >>= next) state) := by
  simp only [bind, EStateM.bind]
  cases run : action state with
  | error fault after =>
    rw [run] at one
    exact one
  | ok value middle =>
    rw [run] at one
    exact two value middle one

end Comes

/-! ## Invariants -/

/-- What an action has come to: a state that satisfies `kept`, with a value that satisfies `post`
there or with a fault that is `blamed`. -/
abbrev Meets (kept : σ → Prop) (blamed : ε → Prop) (post : α → σ → Prop) :
    EStateM.Result ε σ α → Prop :=
  Comes (fun value after => kept after ∧ post value after)
    fun fault after => kept after ∧ blamed fault

/-- From states that satisfy `kept` the action leads to such states.  Its values satisfy `post`
where it stops, and the faults it comes to are `blamed`. -/
def Stays (kept : σ → Prop) (blamed : ε → Prop) (post : α → σ → Prop) (action : EStateM ε σ α) :
    Prop :=
  ∀ state, kept state → Meets kept blamed post (action state)

namespace Stays

variable {kept : σ → Prop} {blamed : ε → Prop} {good : α → Prop} {post : α → σ → Prop}
  {later : β → σ → Prop} {action first second : EStateM ε σ α} {next : α → EStateM ε σ β}
  {condition : Bool}

/-- A value that is good wherever the action stops. -/
theorem result (holds : ∀ state, post value state) :
    Stays kept blamed post (pure value : EStateM ε σ α) :=
  fun state stateKept => ⟨stateKept, holds state⟩

protected theorem pure {value : α} (holds : good value) :
    Stays kept blamed (fun value _ => good value) (pure value : EStateM ε σ α) :=
  result fun _ => holds

theorem throw {fault : ε} (holds : blamed fault) :
    Stays kept blamed post (throw fault : EStateM ε σ α) :=
  fun _ stateKept => ⟨stateKept, holds⟩

/-- What comes next may depend on where the first action stopped. -/
theorem bindAt (one : Stays kept blamed post action)
    (two : ∀ value state, kept state → post value state →
      Meets kept blamed later (next value state)) : Stays kept blamed later (action >>= next) := by
  intro state stateKept
  exact (one state stateKept).bind fun value middle known => two value middle known.1 known.2

protected theorem bind (one : Stays kept blamed (fun value _ => good value) action)
    (two : ∀ value, good value → Stays kept blamed later (next value)) :
    Stays kept blamed later (action >>= next) :=
  one.bindAt fun value state stateKept known => two value known state stateKept

theorem mono (stays : Stays kept blamed post action)
    (implies : ∀ value state, post value state → weaker value state) :
    Stays kept blamed weaker action := by
  intro state stateKept
  exact (stays state stateKept).imp (fun value after => And.imp_right (implies value after))
    fun _ _ => id

/-- The first action may rely on the condition. -/
theorem checked (one : condition = true → Stays kept blamed post first)
    (two : Stays kept blamed post second) :
    Stays kept blamed post (if condition then first else second) := by
  cases condition
  · exact two
  · exact one rfl

theorem ite (one : Stays kept blamed post first) (two : Stays kept blamed post second) :
    Stays kept blamed post (if condition then first else second) :=
  checked (fun _ => one) two

/-- What is known of a run that came to a value. -/
theorem of_ok (stays : Stays kept blamed post action) {after : σ} (stateKept : kept state)
    (run : action state = .ok value after) : kept after ∧ post value after := by
  have known := stays state stateKept
  rwa [run] at known

/-- Where a run ends, whatever it comes to. -/
theorem final (stays : Stays kept blamed post action) (stateKept : kept state) :
    kept (Outcome.final (action state)) := by
  have known := stays state stateKept
  cases run : action state with
  | ok value after
  | error fault after =>
    rw [run] at known
    exact known.1

end Stays

end MacroScript.Outcome
