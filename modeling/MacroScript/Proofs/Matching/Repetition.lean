import MacroScript.Proofs.Matching.Shape

/-!
# Repeated groups

A group takes as many rounds of its content as there are, with a separator in front of each but
the first.  It ends where the next token is not the separator, or where the content does not
match behind it.  An attempt that fails is undone: the group ends behind its last complete round,
in front of the separator, and binds what its complete rounds have bound.

Rounds may be empty, but a separator never is.  So every further round begins with fewer tokens
than the one before, and the bound on the number of rounds is never reached.
-/

namespace MacroScript

open MacroScript.Outcome

namespace Matching

open Bindings

/-! ## Rounds -/

/-- One or more rounds, from the tokens and the session at the beginning: the bindings of every
round, the tokens that are left behind the last one, and the session at the end. -/
inductive Rounds (round : List Token → SessionM (Option Progress)) (separator : Token) :
    List Token → Session → List Bindings → List Token → Session → Prop
  /-- The last round takes its tokens from the front. -/
  | last {taken left : List Token} {bindings : Bindings} {session after : Session}
      (matched : round (taken ++ left) session = .ok (some (left, bindings)) after) :
      Rounds round separator (taken ++ left) session [bindings] left after
  /-- Behind every other round stands a separator, and the next round begins behind it. -/
  | cons {taken rest left : List Token} {token : Token} {bindings : Bindings}
      {others : List Bindings} {session middle after : Session}
      (matched : round (taken ++ token :: rest) session =
        .ok (some (token :: rest, bindings)) middle)
      (same : token.sameAs separator = true)
      (later : Rounds round separator rest middle others left after) :
      Rounds round separator (taken ++ token :: rest) session (bindings :: others) left after

/-- No round follows: there is no separator, or no round behind it.  The failed attempt at a
round may still have changed the session. -/
inductive Stops (round : List Token → SessionM (Option Progress)) (separator : Token) :
    List Token → Session → Session → Prop
  | atEnd (session : Session) : Stops round separator [] session session
  | other {token : Token} {rest : List Token} {session : Session}
      (differs : token.sameAs separator = false) :
      Stops round separator (token :: rest) session session
  | unmatched {token : Token} {rest : List Token} {session after : Session}
      (same : token.sameAs separator = true) (failed : round rest session = .ok none after) :
      Stops round separator (token :: rest) session after

/-- All rounds that there are: none, if not even the first one matches. -/
inductive Repeats (round : List Token → SessionM (Option Progress)) (separator : Token)
    (tokens : List Token) (session : Session) : List Bindings → List Token → Session → Prop
  | none {after : Session} (failed : round tokens session = .ok none after) :
      Repeats round separator tokens session [] tokens after
  | some {iterations : List Bindings} {left : List Token} {middle after : Session}
      (rounds : Rounds round separator tokens session iterations left middle)
      (stops : Stops round separator left middle after) :
      Repeats round separator tokens session iterations left after

section Iterate

variable {round : List Token → SessionM (Option Progress)} {separator : Token}
  {tokens left : List Token} {iterations : List Bindings} {session after middle : Session}
  {bindings : Bindings} {bound : Nat}

theorem Rounds.ne_nil (rounds : Rounds round separator tokens session iterations left after) :
    iterations ≠ [] := by
  cases rounds <;> simp

/-! ### One step of the loop -/

theorem iterate_of_unmatched (failed : round tokens session = .ok none after) (bound : Nat) :
    iterate round separator (bound + 1) tokens session = .ok ([], tokens) after := by
  rw [iterate, bind_eq_ok_iff]
  exact ⟨none, after, failed, rfl⟩

theorem iterate_of_stops (matched : round tokens session = .ok (some (left, bindings)) middle)
    (stops : Stops round separator left middle after) (enough : left.length ≤ bound) :
    iterate round separator (bound + 1) tokens session = .ok ([bindings], left) after := by
  rw [iterate, bind_eq_ok_iff]
  refine ⟨_, middle, matched, ?_⟩
  cases stops with
  | atEnd => rfl
  | other differs => simp only [differs, Bool.false_eq_true, if_false, pure_eq_ok_iff, and_self]
  | unmatched same failed =>
    -- The attempt behind the separator takes one more step.
    cases bound with
    | zero => cases enough
    | succ bound =>
      simp only [same, if_true]
      rw [bind_eq_ok_iff]
      exact ⟨_, after, iterate_of_unmatched failed bound, rfl⟩

theorem iterate_of_more {token : Token} {rest : List Token}
    (matched : round tokens session = .ok (some (token :: rest, bindings)) middle)
    (same : token.sameAs separator = true)
    (later : iterate round separator bound rest middle = .ok (iterations, left) after)
    (more : iterations ≠ []) :
    iterate round separator (bound + 1) tokens session =
      .ok (bindings :: iterations, left) after := by
  rw [iterate, bind_eq_ok_iff]
  refine ⟨_, middle, matched, ?_⟩
  simp only [same, if_true]
  rw [bind_eq_ok_iff]
  refine ⟨_, after, later, ?_⟩
  cases iterations with
  | nil => exact absurd rfl more
  | cons first others => rfl

/-! ### Whole runs -/

/-- Rounds are found if the bound allows for one more than there are tokens. -/
theorem Rounds.iterate_eq (rounds : Rounds round separator tokens session iterations left middle)
    (stops : Stops round separator left middle after) (enough : tokens.length < bound) :
    iterate round separator bound tokens session = .ok (iterations, left) after := by
  induction rounds generalizing bound with
  | last matched =>
    obtain ⟨bound, rfl⟩ := Nat.exists_eq_add_one_of_ne_zero (Nat.ne_zero_of_lt enough)
    apply iterate_of_stops matched stops
    rw [List.length_append] at enough
    omega
  | cons matched same later ih =>
    obtain ⟨bound, rfl⟩ := Nat.exists_eq_add_one_of_ne_zero (Nat.ne_zero_of_lt enough)
    apply iterate_of_more matched same _ later.ne_nil
    apply ih stops
    rw [List.length_append, List.length_cons] at enough
    omega

theorem Repeats.iterate_eq (repeats : Repeats round separator tokens session iterations left after)
    (enough : tokens.length < bound) :
    iterate round separator bound tokens session = .ok (iterations, left) after := by
  cases repeats with
  | none failed =>
    obtain ⟨bound, rfl⟩ := Nat.exists_eq_add_one_of_ne_zero (Nat.ne_zero_of_lt enough)
    exact iterate_of_unmatched failed bound
  | some rounds stops => exact rounds.iterate_eq stops enough

/-- A round takes tokens from the front. -/
def Takes (round : List Token → SessionM (Option Progress)) : Prop :=
  ∀ ⦃tokens left bindings session after⦄,
    round tokens session = .ok (some (left, bindings)) after → ∃ taken, tokens = taken ++ left

/-- The loop finds all rounds that there are: it never ends because of its bound. -/
theorem repeats_of_iterate (takes : Takes round) (enough : tokens.length < bound)
    (run : iterate round separator bound tokens session = .ok (iterations, left) after) :
    Repeats round separator tokens session iterations left after := by
  induction bound generalizing tokens session iterations left after with
  | zero => cases enough
  | succ bound ih =>
    simp only [iterate, bind_eq_ok_iff] at run
    obtain ⟨found, middle, matched, run⟩ := run
    match found, matched with
    | none, failed =>
      cases run
      exact .none failed
    | some ([], bindings), matched =>
      cases run
      obtain ⟨taken, rfl⟩ := takes matched
      exact .some (.last matched) (.atEnd _)
    | some (token :: rest, bindings), matched =>
      obtain ⟨taken, rfl⟩ := takes matched
      simp only at run
      split at run
      · rename_i same
        have shorter : rest.length < bound := by
          rw [List.length_append, List.length_cons] at enough
          omega
        rw [bind_eq_ok_iff] at run
        obtain ⟨⟨others, unread⟩, last, laterRun, run⟩ := run
        -- What follows is a failed attempt or the rest of the rounds.
        cases ih shorter laterRun with
        | none failed =>
          cases run
          exact .some (.last matched) (.unmatched same failed)
        | some later stops =>
          match others, later.ne_nil with
          | first :: others, _ =>
            cases run
            exact .some (.cons matched same later) stops
      · rename_i differs
        cases run
        exact .some (.last matched) (.other (Bool.eq_false_iff.mpr differs))

/-- No bound makes a difference that allows for one more round than there are tokens. -/
theorem iterate_congr (takes : Takes round) {other : Nat} (enough : tokens.length < bound)
    (enoughToo : tokens.length < other) :
    iterate round separator bound tokens = iterate round separator other tokens := by
  induction bound generalizing tokens other with
  | zero => cases enough
  | succ bound ih =>
    obtain ⟨other, rfl⟩ := Nat.exists_eq_add_one_of_ne_zero (Nat.ne_zero_of_lt enoughToo)
    funext session
    simp only [iterate, Bind.bind, EStateM.bind]
    cases matched : round tokens session with
    | error fault middle => rfl
    | ok found middle =>
      rcases found with _ | ⟨_ | ⟨token, rest⟩, bindings⟩
      · rfl
      · rfl
      · obtain ⟨taken, rfl⟩ := takes matched
        rw [List.length_append, List.length_cons] at enough enoughToo
        have later : iterate round separator bound rest =
            iterate round separator other rest := ih (by omega) (by omega)
        simp only [later]

end Iterate

/-! ## Groups -/

/-- One round of a group that stands inside `depth` groups: its content, with bindings of its
own. -/
def matchRound (call : Invocation) (macroName : String) (depth : Nat)
    (content : List PatternElement) (tokens : List Token) : SessionM (Option Progress) :=
  matchElements call macroName (depth + 1) content (tokens, [])

theorem takes_matchRound (call : Invocation) (macroName : String) (depth : Nat)
    (content : List PatternElement) : Takes (matchRound call macroName depth content) := by
  intro tokens left bindings session after run
  obtain ⟨pieces, own, matched⟩ := matched_matchElements run List.nodup_nil
  exact ⟨_, matched.tokens⟩

/-- A group takes all rounds that there are and binds what they have bound, if its variables are
new.  The bound on the number of its rounds is never reached. -/
theorem matchElement_repetition_greedy (call : Invocation) (macroName : String) (depth : Nat)
    (content : List PatternElement) (separator : Token) (span : Span) (tokens : List Token)
    (bindings : Bindings) (session : Session) :
    (∀ bound, tokens.length < bound →
      iterate (matchRound call macroName depth content) separator bound tokens session =
        iterate (matchRound call macroName depth content) separator (tokens.length + 1) tokens
          session) ∧
      ∀ found after,
        matchElement call macroName depth (.repetition content separator span) (tokens, bindings)
            session = .ok found after ↔
          ∃ iterations left,
            Repeats (matchRound call macroName depth content) separator tokens session iterations
                left after ∧
              found = some (left,
                bindings ++ ofRounds iterations (Pattern.captures (depth + 1) content)) ∧
              (Pattern.names content).Nodup ∧
                ∀ name ∈ Pattern.names content, name ∉ bindings.map Prod.fst := by
  have takes := takes_matchRound call macroName depth content
  constructor
  · intro bound enough
    rw [iterate_congr takes enough (Nat.lt_succ_self _)]
  intro found after
  simp only [matchElement, bind_eq_ok_iff]
  constructor
  · rintro ⟨⟨iterations, left⟩, middle, run, bound⟩
    have repeats := repeats_of_iterate takes (Nat.lt_succ_self _) run
    cases bindRun : bindRounds macroName span iterations (Pattern.captures (depth + 1) content)
        bindings with
    | error fault =>
      simp only [bindRun] at bound
      cases bound
    | ok extended =>
      simp only [bindRun] at bound
      cases bound
      obtain ⟨distinct, fresh, rfl⟩ := bindRounds_eq_ok_iff.mp bindRun
      rw [Pattern.map_captures] at distinct fresh
      exact ⟨iterations, left, repeats, rfl, distinct, fresh⟩
  · rintro ⟨iterations, left, repeats, rfl, distinct, fresh⟩
    refine ⟨(iterations, left), after, repeats.iterate_eq (Nat.lt_succ_self _), ?_⟩
    rw [← Pattern.map_captures content (depth + 1)] at distinct fresh
    have bindRun : bindRounds macroName span iterations (Pattern.captures (depth + 1) content)
        bindings = _ := bindRounds_eq_ok_iff.mpr ⟨distinct, fresh, rfl⟩
    simp only [bindRun]
    rfl

/-- The last name of the call has no value, so that it belongs to no round. -/
def valuesAndName : String :=
  "macro m \x7b ($( $name:ident $value:literal ), , $last:ident) => \x7b \x7d \x7d " ++
    "m(a 1, b 2, c);"

/-- The group has taken the name as well before it fails, and gives it back with the separator. -/
theorem valuesAndName_greedy :
    ∃ call content separator span session left bindings after,
      matchElement call "m" 0 (.repetition content separator span) (call.tokens, []) session =
          .ok (some (left, bindings)) after ∧
        left.map Token.text = [",", "c"] ∧
          (∃ iterations,
            Repeats (matchRound call "m" 0 content) separator call.tokens session iterations left
                after ∧
              bindings = ofRounds iterations (Pattern.captures 1 content)) ∧
            iterate (matchRound call "m" 0 content) separator 100 call.tokens session =
              iterate (matchRound call "m" 0 content) separator 8 call.tokens session := by
  have evaluated : endsWith (fun program session =>
      (Leaf.calls (Leaf.ofProgram program)).head?.any fun call =>
        (session.macros.get? 0).any fun definition =>
          definition.rules.head?.any fun rule =>
            (Pattern.groups 0 rule.pattern).head?.any fun group =>
              call.tokens.length == 7 &&
                yields (fun found => found.any fun progress =>
                    progress.1.map Token.text == [",", "c"])
                  (matchElement call "m" 0 (.repetition group.content group.separator call.span)
                    (call.tokens, []) session))
      (Session.readProgram valuesAndName {}) = true := by
    decide +kernel
  obtain ⟨program, session, -, holds⟩ := exists_ok_of_endsWith evaluated
  simp only [Option.any_eq_true, Bool.and_eq_true, beq_iff_eq] at holds
  obtain ⟨call, -, definition, -, rule, -, group, -, length, matched⟩ := holds
  obtain ⟨found, after, run, passed⟩ := exists_ok_of_yields matched
  simp only [Option.any_eq_true, beq_iff_eq] at passed
  obtain ⟨⟨left, bindings⟩, rfl, unread⟩ := passed
  obtain ⟨bounded, rounds⟩ := matchElement_repetition_greedy call "m" 0 group.content
    group.separator call.span call.tokens [] session
  obtain ⟨iterations, _, repeats, same, -, -⟩ := (rounds _ after).mp run
  cases same
  have enough := bounded 100 (by omega)
  rw [length] at enough
  exact ⟨call, group.content, group.separator, call.span, session, left, _, after, run, unread,
    ⟨iterations, repeats, rfl⟩, enough⟩

end Matching

end MacroScript
