/-!
# Base64 variable-length quantities

A signed 64-bit number is written as base64 digits of five value bits each,
least significant first; the sixth bit says that another digit follows.  The
lowest value bit is the sign.  Doubling the magnitude is done in 64 bits, so the
least number loses its top bit.

The decoder reads a whole text of such digits back.
-/

namespace MacroScript.Vlq

def alphabet : List Char :=
  "ABCDEFGHIJKLMNOPQRSTUVWXYZabcdefghijklmnopqrstuvwxyz0123456789+/".toList

/-- The character for a six-bit value. -/
def digitChar (value : Nat) : Char :=
  alphabet.getD value 'A'

/-- The word to be written for a number: the magnitude doubled, plus one for a
negative number. -/
def signedWord (value : Int64) : UInt64 :=
  if value < 0 then
    (value.toInt.natAbs.toUInt64 <<< 1) ||| 1
  else
    value.toUInt64 <<< 1

/-- The six-bit digits of a word, at most `count` of them. -/
def digits : (count : Nat) → (word : Nat) → List Nat
  | 0, _ => []
  | count + 1, word =>
    if word < 32 then [word] else (word % 32 + 32) :: digits count (word / 32)

/-- Thirteen digits of five bits hold every 64-bit word. -/
def maxDigits : Nat :=
  13

def encode (value : Int64) : String :=
  String.ofList ((digits maxDigits (signedWord value).toNat).map digitChar)

/-! ## Decoding -/

def digitValue? (c : Char) : Option Nat :=
  alphabet.findIdx? (· == c)

def ofWord (word : Nat) : Int :=
  if word % 2 = 1 then -(word / 2 : Nat) else (word / 2 : Nat)

/-- Read numbers from digits.  The digits before the text contribute `partialWord`
and have filled `shift` bits. -/
def decodeFrom (partialWord shift : Nat) : List Char → Option (List Int)
  | [] => if shift = 0 then some [] else none
  | c :: rest =>
    match digitValue? c with
    | none => none
    | some digit =>
      let word := partialWord + digit % 32 * 2 ^ shift
      if digit < 32 then (decodeFrom 0 0 rest).map (ofWord word :: ·)
      else decodeFrom word (shift + 5) rest

/-- Read a text that consists of complete numbers. -/
def decode (text : String) : Option (List Int) :=
  decodeFrom 0 0 text.toList

end MacroScript.Vlq
