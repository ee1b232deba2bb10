import MacroScript.Text.IdentifierContinue
import MacroScript.Text.IdentifierStart
import MacroScript.Text.Position
import MacroScript.Token

/-!
# Lexemes

Each recognizer reads the front of a text and answers with the number of
characters that belong to it.  Choices are ordered and never taken back: once
an alternative has matched, a failure behind it fails the whole recognizer.

`triviaLength` measures the blanks, line ends and comments before a token.
`lexeme?` recognizes one token; whether a slash may begin a regular expression
depends on the token before it and is passed in.
-/

namespace MacroScript.Lexeme

open MacroScript.Text

/-! ## Blanks and comments -/

/-- Characters that separate tokens without ending a line. -/
def isBlank (c : Char) : Bool :=
  c == ' ' || c == '\t' || c == '\x0b' || c == '\x0c' || c == '\xa0' || c == '\ufeff'

mutual

/-- Number of characters of blanks, line ends and complete comments at the
front of a text. -/
def triviaLength : List Char → Nat
  | [] => 0
  | '/' :: '/' :: rest => lineCommentLength rest + 2
  | '/' :: '*' :: rest =>
    match blockCommentLength? rest with
    | some length => length + 2
    | none => 0
  | c :: rest =>
    if isBlank c || isLineTerminator c then triviaLength rest + 1 else 0

/-- The same, inside a comment that ends with the line. -/
def lineCommentLength : List Char → Nat
  | [] => 0
  | c :: rest =>
    if isLineTerminator c then triviaLength rest + 1 else lineCommentLength rest + 1

/-- The same, inside a comment that needs its closing mark. -/
def blockCommentLength? : List Char → Option Nat
  | [] => none
  | '*' :: '/' :: rest => some (triviaLength rest + 2)
  | _ :: rest => (blockCommentLength? rest).map (· + 1)

end

/-! ## Identifiers -/

def isIdentifierStart (c : Char) : Bool :=
  c == '$' || c == '_' || identifierStart.contains c

/-- Characters that may follow in an identifier, the two joiners included. -/
def isIdentifierPart (c : Char) : Bool :=
  c == '$' || identifierStart.contains c || identifierContinueOnly.contains c ||
    c == '\u200c' || c == '\u200d'

/-- Whether the text goes on with a character of an identifier. -/
def startsWithPart : List Char → Bool
  | [] => false
  | c :: _ => isIdentifierPart c

def identifierLength? : List Char → Option Nat
  | [] => none
  | c :: rest =>
    if isIdentifierStart c then some ((rest.takeWhile isIdentifierPart).length + 1) else none

/-! ## Numbers -/

/-- Length of the digits that follow a first digit, with single underscores
between digits. -/
def digitTail (isDigit : Char → Bool) : List Char → Nat
  | [] => 0
  | [c] => if isDigit c then 1 else 0
  | c :: d :: rest =>
    if isDigit c then digitTail isDigit (d :: rest) + 1
    else if c == '_' && isDigit d then digitTail isDigit rest + 2
    else 0

/-- Length of a run of digits with single underscores between digits. -/
def digits? (isDigit : Char → Bool) : List Char → Option Nat
  | [] => none
  | c :: rest => if isDigit c then some (digitTail isDigit rest + 1) else none

def isHexDigit (c : Char) : Bool :=
  c.isDigit || ('a' ≤ c && c ≤ 'f') || ('A' ≤ c && c ≤ 'F')

def isOctalDigit (c : Char) : Bool :=
  '0' ≤ c && c ≤ '7'

def isBinaryDigit (c : Char) : Bool :=
  c == '0' || c == '1'

/-- Length of an integer that names its radix by a letter after a zero. -/
def radixInteger? (lower upper : Char) (isDigit : Char → Bool) : List Char → Option Nat
  | '0' :: letter :: rest =>
    if letter == lower || letter == upper then (digits? isDigit rest).map (· + 2) else none
  | _ => none

/-- Length of a hexadecimal, octal or binary integer. -/
def prefixedInteger? (text : List Char) : Option Nat :=
  radixInteger? 'x' 'X' isHexDigit text
    <|> radixInteger? 'o' 'O' isOctalDigit text
    <|> radixInteger? 'b' 'B' isBinaryDigit text

/-- Length of an exponent, zero when there is none. -/
def exponentLength : List Char → Nat
  | [] => 0
  | e :: rest =>
    if e == 'e' || e == 'E' then
      match rest with
      | '+' :: more | '-' :: more => ((digits? Char.isDigit more).map (· + 2)).getD 0
      | _ => ((digits? Char.isDigit rest).map (· + 1)).getD 0
    else 0

/-- Length of a decimal number before its exponent. -/
def mantissa? (text : List Char) : Option Nat :=
  match digits? Char.isDigit text with
  | some whole =>
    match text.drop whole with
    | '.' :: fraction => some (whole + 1 + (digits? Char.isDigit fraction).getD 0)
    | _ => some whole
  | none =>
    match text with
    | '.' :: fraction => (digits? Char.isDigit fraction).map (· + 1)
    | _ => none

def decimal? (text : List Char) : Option Nat :=
  (mantissa? text).map fun length => length + exponentLength (text.drop length)

/-- Length of a big integer, which ends in `n`. -/
def bigint? (text : List Char) : Option Nat :=
  match prefixedInteger? text <|> digits? Char.isDigit text with
  | some length =>
    match text.drop length with
    | 'n' :: rest => if startsWithPart rest then none else some (length + 1)
    | _ => none
  | none => none

def number? (text : List Char) : Option Nat :=
  match prefixedInteger? text <|> decimal? text with
  | some length => if startsWithPart (text.drop length) then none else some length
  | none => none

/-! ## Strings and regular expressions -/

/-- Length of the rest of a string, through its closing quote.  A backslash
takes the character behind it, and a whole carriage return and line feed. -/
def stringTail? (quote : Char) : List Char → Option Nat
  | [] => none
  | '\\' :: '\r' :: '\n' :: rest => (stringTail? quote rest).map (· + 3)
  | '\\' :: _ :: rest => (stringTail? quote rest).map (· + 2)
  | ['\\'] => none
  | c :: rest =>
    if c == quote then some 1
    else if isLineTerminator c then none
    else (stringTail? quote rest).map (· + 1)

/-- Length of a string in either kind of quotes. -/
def string? : List Char → Option Nat
  | '\x22' :: rest => (stringTail? '\x22' rest).map (· + 1)
  | '\x27' :: rest => (stringTail? '\x27' rest).map (· + 1)
  | _ => none

mutual

/-- Length of the rest of a regular expression, through its closing slash. -/
def regexTail? : List Char → Option Nat
  | [] => none
  | ['\\'] => none
  | '\\' :: c :: rest =>
    if isLineTerminator c then none else (regexTail? rest).map (· + 2)
  | '[' :: rest => (regexClassTail? rest).map (· + 1)
  | c :: rest =>
    if c == '/' then some 1
    else if isLineTerminator c then none
    else (regexTail? rest).map (· + 1)

/-- The same, inside a character class. -/
def regexClassTail? : List Char → Option Nat
  | [] => none
  | ['\\'] => none
  | '\\' :: c :: rest =>
    if isLineTerminator c then none else (regexClassTail? rest).map (· + 2)
  | c :: rest =>
    if c == ']' then (regexTail? rest).map (· + 1)
    else if isLineTerminator c then none
    else (regexClassTail? rest).map (· + 1)

end

/-- Length of a regular expression with its flags.  The slash may not be
followed by a star or a second slash. -/
def regex? : List Char → Option Nat
  | '/' :: '*' :: _ => none
  | '/' :: '/' :: _ => none
  | '/' :: rest =>
    (regexTail? rest).map fun length =>
      length + 1 + ((rest.drop length).takeWhile isIdentifierPart).length
  | _ => none

/-! ## Punctuators -/

/-- The punctuators, each before every punctuator that it begins with. -/
def punctuators : List (List Char) :=
  [ ">>>=", "...", "===", "!==", "**=", "<<=", ">>=", ">>>", "&&=", "||=", "??=",
    "=>", "==", "!=", "<=", ">=", "&&", "||", "??", "?.",
    "++", "--", "+=", "-=", "*=", "/=", "%=", "&=", "|=", "^=", "<<", ">>", "**",
    "\x7b", "\x7d", "(", ")", "[", "]", ";", ",", "<", ">", "+", "-", "*", "/",
    "%", "&", "|", "^", "!", "~", "?", ":", "=", ".", "@", "#" ].map String.toList

/-- Whether a punctuator stands at the front.  The optional-member mark gives
way to a question mark when a digit follows. -/
def punctuatorMatches (text punctuator : List Char) : Bool :=
  punctuator.isPrefixOf text &&
    !(punctuator == ['?', '.'] && (text.drop 2).head?.any Char.isDigit)

def punctuator? (text : List Char) : Option Nat :=
  (punctuators.find? (punctuatorMatches text)).map List.length

/-! ## Tokens -/

/-- The rules of the token grammar, each with the name it has there. -/
inductive Rule where
  | identifier
  | number
  | bigint
  | string
  | regex
  | punctuator
  | trivia
  | token
  | regexOrToken
deriving DecidableEq, Repr

namespace Rule

def name : Rule → String
  | .identifier => "identifier"
  | .number => "number"
  | .bigint => "bigint"
  | .string => "string"
  | .regex => "regex"
  | .punctuator => "punctuator"
  | .trivia => "trivia"
  | .token => "token"
  | .regexOrToken => "regex_or_token"

/-- The class of a word that a rule has recognized: reserved words are split
off from the identifiers.  Some rules recognize no single token. -/
def kind? (rule : Rule) (word : List Char) : Option TokenKind :=
  match rule with
  | .identifier => some (if isKeyword (String.ofList word) then .keyword else .name)
  | .number => some .number
  | .bigint => some .bigint
  | .string => some .string
  | .regex => some .regex
  | .punctuator => some .punct
  | .trivia | .token | .regexOrToken => none

end Rule

/-- The rule and length of the token at the front. -/
def lexeme? (regexAllowed : Bool) (text : List Char) : Option (Rule × Nat) :=
  (if regexAllowed then (regex? text).map (.regex, ·) else none)
    <|> (bigint? text).map (.bigint, ·)
    <|> (number? text).map (.number, ·)
    <|> (string? text).map (.string, ·)
    <|> (identifierLength? text).map (.identifier, ·)
    <|> (punctuator? text).map (.punctuator, ·)

end MacroScript.Lexeme
