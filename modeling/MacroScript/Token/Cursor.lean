import MacroScript.Token

/-!
# Cursors

A cursor is a read position over a finite list of tokens.  Reading past the end
gives an end-of-input token placed behind the last real token, so no grammar
rule has to treat exhaustion as a special case.

A cursor also carries one bit of grammar context: whether the word `in` may be
read as an operator, which a loop head forbids.
-/

namespace MacroScript

/-- A read position over a finite list of tokens. -/
structure Cursor where
  tokens : Array Token
  finish : Token
  index : Nat := 0
  allowIn : Bool := true

namespace Cursor

/-- The end-of-input token behind a token that ends a list without one. -/
def finishAfter (last : Token) : Token :=
  .endAt (.point last.span.stop last.span.line (narrow (last.span.column + last.text.length)))

/-- Start reading a token list.  A trailing end-of-input token becomes the one
that is read past the end. -/
def ofTokens (tokens : List Token) : Cursor :=
  match tokens.getLast? with
  | none => { tokens := #[], finish := .endAt .nowhere }
  | some last =>
    if last.isEnd then { tokens := tokens.dropLast.toArray, finish := last }
    else { tokens := tokens.toArray, finish := finishAfter last }

/-- The token at an index, or the end of input. -/
def tokenAt (cursor : Cursor) (index : Nat) : Token :=
  cursor.tokens[index]?.getD cursor.finish

/-- The token `offset` places after the next one. -/
def peekAt (cursor : Cursor) (offset : Nat) : Token :=
  cursor.tokenAt (cursor.index + offset)

def peek (cursor : Cursor) : Token :=
  cursor.tokenAt cursor.index

def atEnd (cursor : Cursor) : Bool :=
  cursor.tokens.size ≤ cursor.index

def remaining (cursor : Cursor) : Nat :=
  cursor.tokens.size - cursor.index

def rest (cursor : Cursor) : List Token :=
  cursor.tokens.toList.drop cursor.index

/-- Move past the next token; at the end of input stay there. -/
def advance (cursor : Cursor) : Cursor :=
  if cursor.index < cursor.tokens.size then { cursor with index := cursor.index + 1 } else cursor

def previous? (cursor : Cursor) : Option Token :=
  match cursor.index with
  | 0 => none
  | index + 1 => cursor.tokens[index]?

/-- The span of the token read last, or of the end of input before the first
read. -/
def previousSpan (cursor : Cursor) : Span :=
  (cursor.previous?.getD cursor.finish).span

def atPunct (cursor : Cursor) (text : String) : Bool :=
  cursor.peek.isPunct text

def atReserved (cursor : Cursor) (text : String) : Bool :=
  cursor.peek.isReserved text

def eatPunct (cursor : Cursor) (text : String) : Option Cursor :=
  if cursor.atPunct text then some { cursor with index := cursor.index + 1 } else none

def eatReserved (cursor : Cursor) (text : String) : Option Cursor :=
  if cursor.atReserved text then some { cursor with index := cursor.index + 1 } else none

end Cursor

end MacroScript
