import MacroScript.Json

/-!
# Reading JSON text

`Json.read?` reads a value from its text.  Blanks may stand around every value
and every mark.  Numbers are integers; fractions and exponents are refused, as is
anything behind the value.

The readers take the characters that are left and answer with a value and the
characters behind it.  Nesting is bounded by the length of the text.
-/

namespace MacroScript.Json

/-- A reader of values of some type. -/
abbrev Reader (α : Type) := List Char → Option (α × List Char)

def skipBlanks (text : List Char) : List Char :=
  text.dropWhile fun c => c == ' ' || c == '\t' || c == '\n' || c == '\r'

def afterWord? : (word text : List Char) → Option (List Char)
  | [], text => some text
  | _ :: _, [] => none
  | expected :: word, c :: text => if c = expected then afterWord? word text else none

/-! ## Quoted text -/

def hexValue? (c : Char) : Option Nat :=
  if c.isDigit then some (c.toNat - 48)
  else if 'a' ≤ c ∧ c ≤ 'f' then some (c.toNat - 87)
  else if 'A' ≤ c ∧ c ≤ 'F' then some (c.toNat - 55)
  else none

/-- A code unit of four hexadecimal digits. -/
def readUnit : Reader Nat
  | a :: b :: c :: d :: rest => do
    let a ← hexValue? a
    let b ← hexValue? b
    let c ← hexValue? c
    let d ← hexValue? d
    return (((a * 16 + b) * 16 + c) * 16 + d, rest)
  | _ => none

/-- The character of a code unit, together with the second unit of a pair. -/
def readCodePoint : Reader Char := fun text => do
  let (first, rest) ← readUnit text
  if 0xD800 ≤ first ∧ first < 0xDC00 then
    let (second, rest) ← readUnit (← afterWord? ['\\', 'u'] rest)
    if 0xDC00 ≤ second ∧ second < 0xE000 then
      return (Char.ofNat (0x10000 + (first - 0xD800) * 0x400 + (second - 0xDC00)), rest)
    else
      none
  else if 0xDC00 ≤ first ∧ first < 0xE000 then
    none
  else
    return (Char.ofNat first, rest)

/-- The character behind a backslash. -/
def readEscaped : Reader Char
  | 'b' :: rest => some ('\x08', rest)
  | 't' :: rest => some ('\t', rest)
  | 'n' :: rest => some ('\n', rest)
  | 'f' :: rest => some ('\x0c', rest)
  | 'r' :: rest => some ('\r', rest)
  | 'u' :: rest => readCodePoint rest
  | c :: rest => if c = '\x22' ∨ c = '\\' ∨ c = '/' then some (c, rest) else none
  | [] => none

/-- The characters up to the closing quotation mark. -/
def readQuoted : (bound : Nat) → Reader (List Char)
  | 0, _ => none
  | _ + 1, [] => none
  | bound + 1, c :: rest =>
    if c = '\x22' then some ([], rest)
    else if c = '\\' then do
      let (escaped, rest) ← readEscaped rest
      let (later, rest) ← readQuoted bound rest
      return (escaped :: later, rest)
    else if c.toNat < 32 then none
    else do
      let (later, rest) ← readQuoted bound rest
      return (c :: later, rest)

def readString : Reader String
  | '\x22' :: rest => do
    let (characters, rest) ← readQuoted (rest.length + 1) rest
    return (String.ofList characters, rest)
  | _ => none

/-! ## Numbers -/

def digitsValue (digits : List Char) : Nat :=
  digits.foldl (fun value digit => 10 * value + (digit.toNat - 48)) 0

/-- An integer without superfluous zeros. -/
def readNumber : Reader Int := fun text =>
  let (isNegative, unsigned) := match text with
    | '-' :: rest => (true, rest)
    | _ => (false, text)
  let digits := unsigned.takeWhile Char.isDigit
  let rest := unsigned.dropWhile Char.isDigit
  if digits.isEmpty || (digits.length > 1 && digits.head? == some '0') then none
  else if rest.head?.any fun c => c == '.' || c == 'e' || c == 'E' then none
  else some (if isNegative then -(digitsValue digits : Int) else digitsValue digits, rest)

/-! ## Values -/

mutual

/-- A value, nested at most `bound` deep. -/
def readValue : (bound : Nat) → Reader Json
  | 0, _ => none
  | bound + 1, text =>
    match skipBlanks text with
    | 'n' :: rest => (afterWord? ['u', 'l', 'l'] rest).map (Json.null, ·)
    | 't' :: rest => (afterWord? ['r', 'u', 'e'] rest).map (Json.bool true, ·)
    | 'f' :: rest => (afterWord? ['a', 'l', 's', 'e'] rest).map (Json.bool false, ·)
    | '\x22' :: rest =>
      (readString ('\x22' :: rest)).map fun (value, rest) => (.string value, rest)
    | '[' :: rest =>
      match skipBlanks rest with
      | ']' :: rest => some (.array [], rest)
      | rest => (readItems bound rest).map fun (items, rest) => (.array items, rest)
    | '\x7b' :: rest =>
      match skipBlanks rest with
      | '\x7d' :: rest => some (.object [], rest)
      | rest => (readMembers bound rest).map fun (members, rest) => (.object members, rest)
    | rest => (readNumber rest).map fun (value, rest) => (.number value, rest)

def readItems : (bound : Nat) → Reader (List Json)
  | 0, _ => none
  | bound + 1, text => do
    let (item, rest) ← readValue bound text
    match skipBlanks rest with
    | ']' :: rest => return ([item], rest)
    | ',' :: rest =>
      let (items, rest) ← readItems bound rest
      return (item :: items, rest)
    | _ => none

def readMembers : (bound : Nat) → Reader (List (String × Json))
  | 0, _ => none
  | bound + 1, text => do
    let (key, rest) ← readString (skipBlanks text)
    let rest ← afterWord? [':'] (skipBlanks rest)
    let (value, rest) ← readValue bound rest
    match skipBlanks rest with
    | '\x7d' :: rest => return ([(key, value)], rest)
    | ',' :: rest =>
      let (members, rest) ← readMembers bound rest
      return ((key, value) :: members, rest)
    | _ => none

end

def read? (text : String) : Option Json := do
  let characters := text.toList
  let (value, rest) ← readValue (2 * characters.length + 2) characters
  if (skipBlanks rest).isEmpty then some value else none

/-- The member of an object; null when it is missing. -/
def member (value : Json) (key : String) : Json :=
  match value with
  | .object members => (members.lookup key).getD .null
  | _ => .null

end MacroScript.Json
