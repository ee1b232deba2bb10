import MacroScript.Span

/-!
# Positions in a text

A text is a list of characters; an offset into it counts bytes of its UTF-8
form.  A line ends after a line feed, a carriage return, a line separator or a
paragraph separator, and a carriage return followed by a line feed ends one
line, after the line feed.

Lines count from one; columns count characters from zero.
-/

namespace MacroScript.Text

/-- The four characters that end a line. -/
def isLineTerminator (c : Char) : Bool :=
  c == '\n' || c == '\r' || c == '\u2028' || c == '\u2029'

/-- Number of bytes in the UTF-8 form of a text. -/
def byteLength : List Char → Nat
  | [] => 0
  | c :: rest => c.utf8Size + byteLength rest

@[simp]
theorem byteLength_nil : byteLength [] = 0 :=
  rfl

@[simp]
theorem byteLength_cons (c : Char) (rest : List Char) :
    byteLength (c :: rest) = c.utf8Size + byteLength rest :=
  rfl

@[simp]
theorem byteLength_append (first second : List Char) :
    byteLength (first ++ second) = byteLength first + byteLength second := by
  induction first with
  | nil => simp
  | cons c rest ih => simp [ih, Nat.add_assoc]

/-- Whether a line ends after the character `c` when `rest` follows it.  A
carriage return before a line feed leaves the end of the line to the line
feed. -/
def endsLine (c : Char) (rest : List Char) : Bool :=
  isLineTerminator c && !(c == '\r' && rest.head? == some '\n')

/-- A place in a text: byte offset, one-based line, zero-based character
column. -/
structure Position where
  offset : Nat
  line : Nat
  column : Nat
deriving DecidableEq, Repr

namespace Position

/-- The place as a span holds it, with counters of 32 bits. -/
def narrowed (position : Position) : Position :=
  { position with line := narrow position.line, column := narrow position.column }

@[simp]
theorem narrowed_offset (position : Position) : position.narrowed.offset = position.offset :=
  rfl

/-- The span of `length` bytes that starts here. -/
def spanOf (position : Position) (length : Nat) : Span :=
  ⟨position.offset, position.offset + length, position.line, position.column⟩

end Position

end MacroScript.Text
