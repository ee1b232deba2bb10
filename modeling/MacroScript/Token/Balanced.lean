import MacroScript.Token.Cursor

/-!
# Balanced token runs

Macro bodies, macro arguments and repetition groups are taken as raw token
runs that end at a given closing bracket.  `Balanced.take` reads such a run and
stops behind its closing bracket, at a closing bracket that does not fit, or at
the end of input.

`Balanced.closeOffset?` answers the same question for a cursor that stands on
an opening bracket and wants to know only where its partner is.
-/

namespace MacroScript

namespace Balanced

/-- How reading a balanced run ended, with the tokens that were not read. -/
inductive Outcome where
  | closed (tree rest : List Token)
  | mismatched (found : Token) (rest : List Token)
  | unfinished (rest : List Token)
deriving Repr

/-- Add a token in front of a run that was read. -/
def Outcome.cons (token : Token) : Outcome → Outcome
  | .closed tree rest => .closed (token :: tree) rest
  | outcome => outcome

/-- Read tokens until `closer`, with the brackets of `inner` open inside it,
innermost first. -/
def takeWithin (closer : String) : (inner : List String) → List Token → Outcome
  | _, [] => .unfinished []
  | inner, token :: rest =>
    if token.isEnd then .unfinished rest
    else
      match inner with
      | [] =>
        if token.isPunct closer then .closed [] rest
        else
          match token.closer? with
          | some opened => (takeWithin closer [opened] rest).cons token
          | none =>
            if token.isCloser then .mismatched token rest
            else (takeWithin closer [] rest).cons token
      | expected :: outer =>
        if token.isPunct expected then (takeWithin closer outer rest).cons token
        else
          match token.closer? with
          | some opened => (takeWithin closer (opened :: expected :: outer) rest).cons token
          | none =>
            if token.isCloser then .mismatched token rest
            else (takeWithin closer (expected :: outer) rest).cons token

/-- Read a balanced run up to and including its closing bracket, which is not
part of the run. -/
def take (closer : String) (tokens : List Token) : Outcome :=
  takeWithin closer [] tokens

/-- The offset of the token that closes the first bracket opened in a list,
with the brackets of `stack` already open, innermost first. -/
def closeOffsetWithin? : (stack : List String) → List Token → Option Nat
  | _, [] => none
  | stack, token :: rest =>
    match token.closer? with
    | some opened => (closeOffsetWithin? (opened :: stack) rest).map (· + 1)
    | none =>
      if token.isCloser then
        match stack with
        | [] => none
        | expected :: outer =>
          if token.text == expected then
            if outer.isEmpty then some 0
            else (closeOffsetWithin? outer rest).map (· + 1)
          else none
      else (closeOffsetWithin? stack rest).map (· + 1)

end Balanced

namespace Cursor

/-- The index of the token that closes the bracket at `start`, if the brackets
in between are balanced. -/
def closeIndex? (cursor : Cursor) (start : Nat) : Option Nat :=
  (Balanced.closeOffsetWithin? [] (cursor.tokens.toList.drop start)).map (start + ·)

end Cursor

end MacroScript
