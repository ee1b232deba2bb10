import MacroScript.Token

/-!
# Operators

Each operator has one spelling, used both to read it from a token and to write
it.  Reading looks for the operator that a token spells, so the reader and the
writer cannot disagree.

Binary operators also have a precedence, which grows with binding strength, and
a direction.
-/

namespace MacroScript

/-- Operators between two operands. -/
inductive BinaryOp where
  | nullish
  | or
  | and
  | bitOr
  | bitXor
  | bitAnd
  | equal
  | notEqual
  | strictEqual
  | strictNotEqual
  | less
  | greater
  | lessEqual
  | greaterEqual
  | inside
  | instanceOf
  | shiftLeft
  | shiftRight
  | shiftRightUnsigned
  | add
  | subtract
  | multiply
  | divide
  | remainder
  | power
deriving DecidableEq, Repr

namespace BinaryOp

def all : List BinaryOp :=
  [ .nullish, .or, .and, .bitOr, .bitXor, .bitAnd, .equal, .notEqual, .strictEqual,
    .strictNotEqual, .less, .greater, .lessEqual, .greaterEqual, .inside, .instanceOf,
    .shiftLeft, .shiftRight, .shiftRightUnsigned, .add, .subtract, .multiply, .divide,
    .remainder, .power ]

def symbol : BinaryOp → String
  | .nullish => "??"
  | .or => "||"
  | .and => "&&"
  | .bitOr => "|"
  | .bitXor => "^"
  | .bitAnd => "&"
  | .equal => "=="
  | .notEqual => "!="
  | .strictEqual => "==="
  | .strictNotEqual => "!=="
  | .less => "<"
  | .greater => ">"
  | .lessEqual => "<="
  | .greaterEqual => ">="
  | .inside => "in"
  | .instanceOf => "instanceof"
  | .shiftLeft => "<<"
  | .shiftRight => ">>"
  | .shiftRightUnsigned => ">>>"
  | .add => "+"
  | .subtract => "-"
  | .multiply => "*"
  | .divide => "/"
  | .remainder => "%"
  | .power => "**"

/-- The lexical class of an operator's spelling. -/
def tokenKind : BinaryOp → TokenKind
  | .inside | .instanceOf => .keyword
  | _ => .punct

def spelledBy (op : BinaryOp) (token : Token) : Bool :=
  token.kind == op.tokenKind && token.text == op.symbol

def ofToken? (token : Token) : Option BinaryOp :=
  all.find? (·.spelledBy token)

/-- Binding strength, from 1 to 11. -/
def precedence : BinaryOp → Nat
  | .nullish | .or => 1
  | .and => 2
  | .bitOr => 3
  | .bitXor => 4
  | .bitAnd => 5
  | .equal | .notEqual | .strictEqual | .strictNotEqual => 6
  | .less | .greater | .lessEqual | .greaterEqual | .inside | .instanceOf => 7
  | .shiftLeft | .shiftRight | .shiftRightUnsigned => 8
  | .add | .subtract => 9
  | .multiply | .divide | .remainder => 10
  | .power => 11

/-- Only powers group to the right. -/
def isRightAssociative : BinaryOp → Bool
  | .power => true
  | _ => false

/-- The operators that may skip their right operand. -/
def isLogical : BinaryOp → Bool
  | .nullish | .or | .and => true
  | _ => false

def label : BinaryOp → String
  | .nullish => "Nullish"
  | .or => "Or"
  | .and => "And"
  | .bitOr => "BitOr"
  | .bitXor => "BitXor"
  | .bitAnd => "BitAnd"
  | .equal => "Eq"
  | .notEqual => "NotEq"
  | .strictEqual => "StrictEq"
  | .strictNotEqual => "StrictNotEq"
  | .less => "Lt"
  | .greater => "Gt"
  | .lessEqual => "LtEq"
  | .greaterEqual => "GtEq"
  | .inside => "In"
  | .instanceOf => "InstanceOf"
  | .shiftLeft => "Shl"
  | .shiftRight => "Shr"
  | .shiftRightUnsigned => "UShr"
  | .add => "Add"
  | .subtract => "Sub"
  | .multiply => "Mul"
  | .divide => "Div"
  | .remainder => "Rem"
  | .power => "Exp"

end BinaryOp

/-- Operators before one operand. -/
inductive UnaryOp where
  | not
  | bitNot
  | plus
  | minus
  | typeOf
  | void
  | delete
deriving DecidableEq, Repr

namespace UnaryOp

def all : List UnaryOp :=
  [.not, .bitNot, .plus, .minus, .typeOf, .void, .delete]

def symbol : UnaryOp → String
  | .not => "!"
  | .bitNot => "~"
  | .plus => "+"
  | .minus => "-"
  | .typeOf => "typeof"
  | .void => "void"
  | .delete => "delete"

def isWord : UnaryOp → Bool
  | .typeOf | .void | .delete => true
  | _ => false

def tokenKind (op : UnaryOp) : TokenKind :=
  if op.isWord then .keyword else .punct

def spelledBy (op : UnaryOp) (token : Token) : Bool :=
  token.kind == op.tokenKind && token.text == op.symbol

def ofToken? (token : Token) : Option UnaryOp :=
  all.find? (·.spelledBy token)

def label : UnaryOp → String
  | .not => "Not"
  | .bitNot => "BitNot"
  | .plus => "Plus"
  | .minus => "Minus"
  | .typeOf => "TypeOf"
  | .void => "Void"
  | .delete => "Delete"

end UnaryOp

/-- Operators that step a variable. -/
inductive UpdateOp where
  | increment
  | decrement
deriving DecidableEq, Repr

namespace UpdateOp

def symbol : UpdateOp → String
  | .increment => "++"
  | .decrement => "--"

def ofToken? (token : Token) : Option UpdateOp :=
  [.increment, .decrement].find? fun op => token.isPunct op.symbol

def label : UpdateOp → String
  | .increment => "Increment"
  | .decrement => "Decrement"

end UpdateOp

/-- Operators that store a value. -/
inductive AssignOp where
  | assign
  | add
  | subtract
  | multiply
  | divide
  | remainder
  | power
  | shiftLeft
  | shiftRight
  | shiftRightUnsigned
  | bitAnd
  | bitOr
  | bitXor
  | and
  | or
  | nullish
deriving DecidableEq, Repr

namespace AssignOp

def all : List AssignOp :=
  [ .assign, .add, .subtract, .multiply, .divide, .remainder, .power, .shiftLeft, .shiftRight,
    .shiftRightUnsigned, .bitAnd, .bitOr, .bitXor, .and, .or, .nullish ]

def symbol : AssignOp → String
  | .assign => "="
  | .add => "+="
  | .subtract => "-="
  | .multiply => "*="
  | .divide => "/="
  | .remainder => "%="
  | .power => "**="
  | .shiftLeft => "<<="
  | .shiftRight => ">>="
  | .shiftRightUnsigned => ">>>="
  | .bitAnd => "&="
  | .bitOr => "|="
  | .bitXor => "^="
  | .and => "&&="
  | .or => "||="
  | .nullish => "??="

def ofToken? (token : Token) : Option AssignOp :=
  all.find? fun op => token.isPunct op.symbol

def label : AssignOp → String
  | .assign => "Assign"
  | .add => "Add"
  | .subtract => "Sub"
  | .multiply => "Mul"
  | .divide => "Div"
  | .remainder => "Rem"
  | .power => "Exp"
  | .shiftLeft => "Shl"
  | .shiftRight => "Shr"
  | .shiftRightUnsigned => "UShr"
  | .bitAnd => "BitAnd"
  | .bitOr => "BitOr"
  | .bitXor => "BitXor"
  | .and => "And"
  | .or => "Or"
  | .nullish => "Nullish"

end AssignOp

end MacroScript
