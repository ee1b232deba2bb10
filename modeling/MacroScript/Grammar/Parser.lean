import MacroScript.Session
import MacroScript.Token.Balanced

/-!
# Parsers

A parser reads tokens through a cursor.  It either works on the plain language,
or it also knows macros; then it has a context, which holds the session, the
open scopes and, when it reads an expansion, the origins of its tokens.

A parser that fails keeps the state it had reached.  This matters because a
session outlives a failed parse: the scopes allocated and the decisions recorded
on the way stay in it.
-/

namespace MacroScript.Grammar

/-- What a parser that knows macros works with. -/
structure Context where
  session : Session
  scopes : ScopeStack
  hygiene : Option Hygiene := none

/-- The state of a parser.  The plain language has no context. -/
structure State where
  cursor : Cursor
  context : Option Context := none

/-- A parser changes the state and yields a value or a fault. -/
abbrev Parser := EStateM Fault State

/-! ## Looking at tokens -/

def peek : Parser Token :=
  fun state => .ok state.cursor.peek state

/-- The token `offset` places after the next one. -/
def peekAt (offset : Nat) : Parser Token :=
  fun state => .ok (state.cursor.peekAt offset) state

def index : Parser Nat :=
  fun state => .ok state.cursor.index state

def remaining : Parser Nat :=
  fun state => .ok state.cursor.remaining state

def atPunct (text : String) : Parser Bool :=
  fun state => .ok (state.cursor.atPunct text) state

def atReserved (text : String) : Parser Bool :=
  fun state => .ok (state.cursor.atReserved text) state

/-- The span from a start to the end of the last token that was read. -/
def finishSpan (start : Span) : Parser Span :=
  fun state => .ok (start.through state.cursor.previousSpan) state

/-! ## Reading tokens -/

def advance : Parser Token :=
  fun state => .ok state.cursor.peek { state with cursor := state.cursor.advance }

/-- Read the given punctuator, if it is next. -/
def eatPunct (text : String) : Parser Bool :=
  fun state =>
    match state.cursor.eatPunct text with
    | some cursor => .ok true { state with cursor }
    | none => .ok false state

/-- Read the given reserved word, if it is next. -/
def eatReserved (text : String) : Parser Bool :=
  fun state =>
    match state.cursor.eatReserved text with
    | some cursor => .ok true { state with cursor }
    | none => .ok false state

def malformed {α : Type} (span : Span) (problem : SourceProblem) : Parser α :=
  throw (.malformed span problem)

def unexpected {α : Type} : Parser α :=
  fun state => .error (.unexpected state.cursor.peek) state

/-- Complain that the next token is not the one that was wanted. -/
def expected {α : Type} (wanted : String) : Parser α :=
  fun state =>
    .error (.malformed state.cursor.peek.span (.expected wanted state.cursor.peek.display)) state

def expectPunct (text : String) : Parser Token := do
  if ← atPunct text then advance else expected text

def expectReserved (text : String) : Parser Token := do
  if ← atReserved text then advance else expected text

/-- Read a name, without asking what it stands for. -/
def expectName : Parser Identifier := do
  if (← peek).isName then
    let token ← advance
    return { name := token.text, span := token.span }
  else
    unexpected

/-- Read the end of a statement.  The semicolon may be left out before a closing
brace, at the end of input and at the end of a line. -/
def endStatement : Parser Unit := do
  if ← eatPunct ";" then
    return ()
  else
    let next ← peek
    if next.isPunct "\x7d" || next.isEnd || next.newlineBefore then return () else unexpected

/-- Read a balanced run of tokens and its closing bracket. -/
def takeBalanced (closer : String) : Parser (List Token) :=
  fun state =>
    let moved (rest : List Token) : State :=
      { state with
        cursor := { state.cursor with index := state.cursor.tokens.size - rest.length } }
    match Balanced.take closer state.cursor.rest with
    | .closed tree rest => .ok tree (moved rest)
    | .mismatched found rest => .error (.unexpected found) (moved rest)
    | .unfinished rest =>
      .error (.malformed (moved rest).cursor.peek.span (.unclosed closer)) (moved rest)

/-! ## Local changes of the state -/

def setAllowIn (allowed : Bool) : Parser Unit :=
  fun state => .ok () { state with cursor := { state.cursor with allowIn := allowed } }

def inAllowed : Parser Bool :=
  fun state => .ok state.cursor.allowIn state

/-- Run a parser and then, whether it failed or not, change the state. -/
def followedBy {α : Type} (parser : Parser α) (change : State → State) : Parser α :=
  fun state =>
    match parser state with
    | .ok value after => .ok value (change after)
    | .error fault after => .error fault (change after)

/-- Run a parser with `in` as an operator, and restore the former setting. -/
def allowingIn {α : Type} (parser : Parser α) : Parser α := do
  let former ← inAllowed
  setAllowIn true
  followedBy parser fun state =>
    { state with cursor := { state.cursor with allowIn := former } }

/-- Run a parser for the head of a loop, where `in` is no operator. -/
def forbiddingIn {α : Type} (parser : Parser α) : Parser α := do
  setAllowIn false
  followedBy parser fun state =>
    { state with cursor := { state.cursor with allowIn := true } }

def Context.enterScope (context : Context) : Context :=
  { context with
    session := context.session.allocScope
    scopes := context.session.scopes.size :: context.scopes }

/-- Close the innermost scope; the outermost one stays. -/
def Context.exitScope (context : Context) : Context :=
  match context.scopes with
  | _ :: outer :: rest => { context with scopes := outer :: rest }
  | _ => context

def inScope {α : Type} (parser : Parser α) : Parser α := fun state =>
  followedBy parser (fun after => { after with context := after.context.map Context.exitScope })
    { state with context := state.context.map Context.enterScope }

/-! ## Lists -/

/-- Read items until the next token satisfies `stop`; the end of input is not
accepted before that. -/
def itemsUntil {α : Type} (stop : Token → Bool) (item : Parser α) : Nat → Parser (List α)
  | 0 => return []
  | bound + 1 => do
    let token ← peek
    if stop token then
      return []
    else if token.isEnd then
      unexpected
    else
      let first ← item
      let rest ← itemsUntil stop item bound
      return first :: rest

/-- Read items with commas in between, up to a closing token that is not read.
A comma may follow the last item. -/
def commaItems {α : Type} (closer : String) (item : Parser α) : Nat → Parser (List α)
  | 0 => return []
  | bound + 1 => do
    if ← atPunct closer then
      return []
    else
      let first ← item
      if ← eatPunct "," then
        let rest ← commaItems closer item bound
        return first :: rest
      else
        return [first]

/-- Read at least one item, with commas in between. -/
def commaSequence {α : Type} (item : Parser α) : Nat → Parser (List α)
  | 0 => return []
  | bound + 1 => do
    let first ← item
    if ← eatPunct "," then
      let rest ← commaSequence item bound
      return first :: rest
    else
      return [first]

end MacroScript.Grammar
