import MacroScript.Fault
import MacroScript.Text.LineIndex
import MacroScript.Token.Lexeme

/-!
# Scanning source text

`tokenize` splits a text into tokens and ends the list with one token for the
end of input.  Each round of the scan passes over the trivia before a token and
over the token itself.  The rounds are counted down from a bound, which they
never reach because no token is empty.  The lines of the text are found once,
before the scan.

The first character that begins no token ends the scan with a fault.
-/

namespace MacroScript

open MacroScript.Text

namespace Token

/-- Whether a slash after the given token begins a regular expression rather
than a division. -/
def regexMayFollow : Option Token → Bool
  | none => true
  | some token =>
    match token.kind with
    | .number | .bigint | .string | .regex | .name => false
    | .keyword => !(["this", "true", "false", "null"].contains token.text)
    | .punct => !([")", "]", "\x7d", "++", "--"].contains token.text)
    | .eof => true

end Token

namespace Scan

/-- The complaint about a character that begins no token. -/
def problemAt (c : Char) : SourceProblem :=
  if c == '\x22' || c == '\x27' then .unterminatedString
  else if c == '/' then .unterminatedRegex
  else .unexpectedCharacter c

/-- Whether a text begins with the opening mark of a block comment. -/
def opensComment : List Char → Bool
  | '/' :: '*' :: _ => true
  | _ => false

/-- Scan a text that begins at an offset of the source, in a number of rounds.
`place` locates the offsets, and `previous` is the last token. -/
def tokensFrom (place : Nat → Position) :
    (rounds : Nat) → (previous : Option Token) → (offset : Nat) → List Char →
      Except Fault (List Token)
  | 0, _, _, _ => .ok []
  | rounds + 1, previous, offset, text =>
    let gap := text.take (Lexeme.triviaLength text)
    let newline := gap.any isLineTerminator
    let start := offset + byteLength gap
    match text.drop (Lexeme.triviaLength text) with
    | [] => .ok [{ Token.endAt ((place start).spanOf 0) with newlineBefore := newline }]
    | c :: rest =>
      if opensComment (c :: rest) then
        .error (.malformed ((place start).spanOf 2) .unterminatedComment)
      else
        match Lexeme.lexeme? (Token.regexMayFollow previous) (c :: rest) with
        | none => .error (.malformed ((place start).spanOf c.utf8Size) (problemAt c))
        | some (rule, length) =>
          let word := (c :: rest).take length
          match rule.kind? word with
          | none => .error { cause := .internal (.unexpectedRule rule.name) }
          | some kind =>
            let token : Token :=
              { kind
                text := String.ofList word
                span := (place start).spanOf (byteLength word)
                newlineBefore := newline }
            (tokensFrom place rounds (some token) (start + byteLength word)
              ((c :: rest).drop length)).map (token :: ·)

end Scan

/-- Split source text into tokens; the last one is the end of input. -/
def tokenize (source : String) : Except Fault (List Token) :=
  let text := source.toList
  let lines := LineIndex.ofText text
  Scan.tokensFrom (lines.locate text) (text.length + 1) none 0 text

end MacroScript
