import MacroScript.Proofs.Lookahead.Statement
import MacroScript.Grammar.Reading

/-!
# Captures are longest prefixes

A capture takes what the rule for assignments or the rule for statements reads from the front of
some tokens.  The tokens that were read are enough for the rule to read the same tree from them,
and the rule never consumes a longer part of the tokens as a whole.  So a capture does not depend
on what follows it, although the rules look ahead.
-/

namespace MacroScript.Grammar

open MacroScript.Outcome

variable {α : Type}

/-- Where a parser starts to read tokens: in the plain language, or in a scope of its own below
the scopes of a session. -/
def startState (nested : Option (Session × ScopeStack)) (tokens : List Token) : State :=
  match nested with
  | none => { cursor := .ofTokens tokens }
  | some (session, outer) => session.readerState tokens outer none

/-- The rule reads the value from the first so many of the tokens. -/
def ReadsFirst (rule : Rules → Parser α) (nested : Option (Session × ScopeStack))
    (tokens : List Token) (value : α) (count : Nat) : Prop :=
  ∃ after, withRules rule (startState nested tokens) = .ok value after ∧
    after.cursor.index = count

/-- The first so many of the tokens are the longest ones that the rule consumes as a whole, and it
reads the value from them. -/
structure IsLongest (rule : Rules → Parser α) (nested : Option (Session × ScopeStack))
    (tokens : List Token) (value : α) (count : Nat) : Prop where
  positive : 1 ≤ count
  inside : count ≤ tokens.length
  alone : ReadsFirst rule nested (tokens.take count) value count
  longest (more : Nat) (longer : count < more) (within : more ≤ tokens.length) :
    (final (withRules rule (startState nested (tokens.take more)))).cursor.index ≠ more

/-! ## Starting with fewer tokens -/

theorem startState_cursor (nested : Option (Session × ScopeStack)) (tokens : List Token) :
    (startState nested tokens).cursor = .ofTokens tokens := by
  cases nested <;> rfl

/-- Tokens without an end of input are all read. -/
theorem ofTokens_tokens {tokens : List Token} (ordinary : ∀ token ∈ tokens, token.isEnd = false) :
    (Cursor.ofTokens tokens).tokens = tokens.toArray := by
  unfold Cursor.ofTokens
  split
  · rename_i isEmpty
    rw [List.getLast?_eq_none_iff.mp isEmpty]
  · rename_i last isLast
    rw [ordinary last (List.mem_of_getLast? isLast), if_neg Bool.false_ne_true]

theorem ofTokens_allowIn (tokens : List Token) : (Cursor.ofTokens tokens).allowIn = true := by
  unfold Cursor.ofTokens
  split
  · rfl
  · split <;> rfl

theorem longer_startState (nested : Option (Session × ScopeStack)) {front : List Token}
    {next : Token} {rest : List Token}
    (ordinary : ∀ token ∈ front ++ next :: rest, token.isEnd = false) :
    Longer ⟨front.length, next, rest, false⟩ (startState nested front)
      (startState nested (front ++ next :: rest)) := by
  have shorter : ∀ token ∈ front, token.isEnd = false :=
    fun token within => ordinary token (List.mem_append_left _ within)
  constructor
  case differs => rfl
  case size => rw [startState_cursor, ofTokens_tokens shorter, List.size_toArray]
  case tokens => rw [startState_cursor, startState_cursor, ofTokens_tokens shorter,
    ofTokens_tokens ordinary]
  case index =>
    rw [startState_cursor, startState_cursor, Cursor.ofTokens_index, Cursor.ofTokens_index]
  case allowIn => rw [startState_cursor, startState_cursor, ofTokens_allowIn, ofTokens_allowIn]
  case context => cases nested <;> rfl
  case plain =>
    intro context has
    cases nested with
    | none => cases has
    | some below =>
      cases has
      rfl
  case ready =>
    rw [startState_cursor]
    exact Cursor.ready_ofTokens _
  case readyToo =>
    rw [startState_cursor]
    exact Cursor.ready_ofTokens _

/-! ## What a rule reads -/

/-- A rule that agrees on every source and longer one, and needs a token. -/
structure Local (rule : Rules → Parser α) : Prop where
  agree (c : Continuation) (differs : c.alike = false) (level levelToo : Nat) :
    Concur c (c.limit - level) 0 1 (rule (.level level)) (rule (.level levelToo))
  fails : Fails (rule .exhausted)

theorem local_assignment : Local (·.assignment) where
  agree _ differs level levelToo := (rulesConcur_level differs level levelToo).assignment
  fails := .unexpected

theorem local_statement : Local (·.statement) where
  agree _ differs level levelToo := (rulesConcur_level differs level levelToo).statement
  fails := .unexpected

namespace Local

variable {rule : Rules → Parser α} {nested : Option (Session × ScopeStack)} {tokens : List Token}
  {value : α} {count : Nat}

/-- The rule reads at least one of the tokens. -/
theorem bounds (isLocal : Local rule) (ordinary : ∀ token ∈ tokens, token.isEnd = false)
    (reads : ReadsFirst rule nested tokens value count) : 1 ≤ count ∧ count ≤ tokens.length := by
  obtain ⟨after, run, rfl⟩ := reads
  have size : (startState nested tokens).cursor.tokens.size = tokens.length := by
    rw [startState_cursor, ofTokens_tokens ordinary, List.size_toArray]
  have ready : (startState nested tokens).cursor.Ready := by
    rw [startState_cursor]
    exact Cursor.ready_ofTokens _
  cases tokens with
  | nil =>
    have none : (startState nested []).cursor.remaining = 0 := by
      rw [Cursor.remaining, size]
      exact Nat.zero_sub _
    rw [withRules, none] at run
    exact (isLocal.fails run).elim
  | cons token rest =>
    let c : Continuation := ⟨rest.length, token, [], false⟩
    have holds : c.Holds (startState nested (token :: rest)) := ⟨ready, size⟩
    obtain ⟨forward, further⟩ := (isLocal.agree c rfl 0 _).gains holds run
    have inside := forward.inside
    rw [size] at inside
    have limit : c.limit = rest.length := rfl
    exact ⟨by omega, inside⟩

/-- What the rule reads from the tokens it also reads from any first ones that hold it. -/
theorem take (isLocal : Local rule) (ordinary : ∀ token ∈ tokens, token.isEnd = false)
    (reads : ReadsFirst rule nested tokens value count) {more : Nat} (enough : count ≤ more) :
    ReadsFirst rule nested (tokens.take more) value count := by
  rcases Nat.lt_or_ge more tokens.length with inside | all
  · obtain ⟨after, run, rfl⟩ := reads
    have split := List.take_append_drop more tokens
    rw [List.drop_eq_getElem_cons inside] at split
    rw [← split] at run ordinary
    have longer := longer_startState nested ordinary
    have begun : (tokens.take more).length -
        (startState nested (tokens.take more)).cursor.remaining ≤
          (startState nested (tokens.take more)).cursor.index := by
      have size : (startState nested (tokens.take more)).cursor.tokens.size = _ := longer.size
      rw [Cursor.remaining, size]
      dsimp only
      omega
    rcases (isLocal.agree _ rfl _ _).agree longer begun run with
      ⟨shorter, shorterRun, reached⟩ | past
    · exact ⟨shorter, shorterRun, reached.index.symm⟩
    · have limit : (tokens.take more).length = more := List.length_take_of_le (Nat.le_of_lt inside)
      simp only [limit] at past
      omega
  · rwa [List.take_of_length_le all]

theorem isLongest (isLocal : Local rule) (ordinary : ∀ token ∈ tokens, token.isEnd = false)
    (reads : ReadsFirst rule nested tokens value count) :
    IsLongest rule nested tokens value count where
  positive := (isLocal.bounds ordinary reads).1
  inside := (isLocal.bounds ordinary reads).2
  alone := isLocal.take ordinary reads (Nat.le_refl _)
  longest more longer _ := by
    obtain ⟨after, run, index⟩ := isLocal.take ordinary reads (Nat.le_of_lt longer)
    rw [run]
    exact index ▸ Nat.ne_of_lt longer

end Local

/-- What the rule for assignments or the rule for statements reads from the front of some tokens
is the longest part that it consumes as a whole, in the plain language as well as below the scopes
of a session. -/
theorem isLongest_of_readsFirst (nested : Option (Session × ScopeStack)) (tokens : List Token)
    (ordinary : ∀ token ∈ tokens, token.isEnd = false) :
    (∀ tree count, ReadsFirst (·.assignment) nested tokens tree count →
      IsLongest (·.assignment) nested tokens tree count) ∧
    ∀ tree count, ReadsFirst (·.statement) nested tokens tree count →
      IsLongest (·.statement) nested tokens tree count :=
  ⟨fun _ _ reads => local_assignment.isLongest ordinary reads,
    fun _ _ reads => local_statement.isLongest ordinary reads⟩

/-- A declaration whose value is the call of a macro, and a word of the next line. -/
def callInDeclaration : List Token :=
  ((tokenize "let x = m(1 (2))\nelse").toOption.getD []).dropLast

/-- A session that knows the macro. -/
def knowingMacro : Session :=
  final (Session.readProgram "macro m \x7b ($a:literal $b:expr) => \x7b $a \x7d \x7d" {})

theorem isLongest_callInDeclaration :
    ∃ tree, ReadsFirst (·.statement) (some (knowingMacro, [0])) callInDeclaration tree 10 ∧
      callInDeclaration.length = 11 ∧
        IsLongest (·.statement) (some (knowingMacro, [0])) callInDeclaration tree 10 := by
  have ordinary : ∀ token ∈ callInDeclaration, token.isEnd = false := by decide +kernel
  have evaluated : endsWith (fun _ (after : State) => after.cursor.index == 10)
      (withRules (·.statement) (startState (some (knowingMacro, [0])) callInDeclaration)) =
        true := by
    decide +kernel
  obtain ⟨tree, after, run, index⟩ := exists_ok_of_endsWith evaluated
  have reads : ReadsFirst (·.statement) (some (knowingMacro, [0])) callInDeclaration tree 10 :=
    ⟨after, run, beq_iff_eq.mp index⟩
  refine ⟨tree, reads, by decide +kernel, ?_⟩
  exact (isLongest_of_readsFirst _ _ ordinary).2 tree 10 reads

end MacroScript.Grammar
