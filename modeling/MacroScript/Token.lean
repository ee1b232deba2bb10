import MacroScript.Span

/-!
# Tokens

A token is a lexical unit with its raw text and position.  Tokens are what
macros are made of: patterns, templates and arguments are token lists that are
parsed again after substitution, so a token carries everything that a parser
may ask of it, including whether a line ended before it and the color that an
earlier expansion fixed for it.
-/

namespace MacroScript

/-- The number that marks the names introduced by one expansion. -/
abbrev Color := Nat

inductive TokenKind where
  | name
  | keyword
  | number
  | bigint
  | string
  | regex
  | punct
  | eof
deriving DecidableEq, Repr

namespace TokenKind

def label : TokenKind → String
  | .name => "name"
  | .keyword => "keyword"
  | .number => "num"
  | .bigint => "bigint"
  | .string => "string"
  | .regex => "regex"
  | .punct => "punct"
  | .eof => "eof"

end TokenKind

/-- The words that are never names. -/
def keywords : List String :=
  [ "break", "case", "catch", "const", "continue", "default", "delete", "do", "else", "false",
    "finally", "for", "function", "if", "in", "instanceof", "new", "null", "return", "switch",
    "this", "throw", "true", "try", "typeof", "var", "void", "while" ]

def isKeyword (word : String) : Bool :=
  keywords.contains word

/-- A lexical unit: its class, raw text and position, whether a line ended
before it, and the color fixed for it by an earlier expansion. -/
structure Token where
  kind : TokenKind
  text : String
  span : Span
  newlineBefore : Bool := false
  color : Option Color := none
deriving DecidableEq, Repr

namespace Token

def endAt (span : Span) : Token :=
  { kind := .eof, text := "", span }

instance : Inhabited Token :=
  ⟨endAt .nowhere⟩

/-- A punctuator that no source text holds, at the position of another token. -/
def synthetic (text : String) (place : Token) : Token :=
  { kind := .punct, text, span := place.span }

def isEnd (token : Token) : Bool :=
  token.kind == .eof

def isPunct (token : Token) (text : String) : Bool :=
  token.kind == .punct && token.text == text

def isReserved (token : Token) (text : String) : Bool :=
  token.kind == .keyword && token.text == text

def isName (token : Token) : Bool :=
  token.kind == .name

/-- Whether a token is the given name, such as the contextual words `let` and
`of`. -/
def isWord (token : Token) (text : String) : Bool :=
  token.kind == .name && token.text == text

def isLiteral (token : Token) : Bool :=
  match token.kind with
  | .number | .bigint | .string | .regex => true
  | .keyword => token.text == "true" || token.text == "false" || token.text == "null"
  | .name => token.text == "undefined"
  | .punct | .eof => false

/-- Whether two tokens have the same class and text, wherever they stand. -/
def sameAs (first second : Token) : Bool :=
  first.kind == second.kind && first.text == second.text

/-- The bracket that closes an opening bracket. -/
def closer? (token : Token) : Option String :=
  if token.isPunct "(" then some ")"
  else if token.isPunct "[" then some "]"
  else if token.isPunct "\x7b" then some "\x7d"
  else none

def isCloser (token : Token) : Bool :=
  token.isPunct ")" || token.isPunct "]" || token.isPunct "\x7d"

/-- What a message calls the token. -/
def display (token : Token) : String :=
  if token.isEnd then "end of input" else token.text

/-- The name of the capture that a `$name` token refers to. -/
def captureName? (token : Token) : Option String :=
  if token.isName then
    match token.text.toList with
    | '$' :: c :: rest => some (String.ofList (c :: rest))
    | _ => none
  else
    none

/-- Readable text of a token list, with one blank between tokens; nothing
precedes the first text that is not empty. -/
def render (tokens : List Token) : String :=
  tokens.foldl
    (fun text token => if text.isEmpty then token.text else text ++ " " ++ token.text) ""

end Token

end MacroScript
