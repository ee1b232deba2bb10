import MacroScript.Tree

/-!
# Binding strength of expressions

Every form of expression has a strength, and every place where an expression may
stand requires one.  An expression that is weaker than its place requires is put
in parentheses.

Three further questions need parentheses on their own: a statement must not begin
like a block or a function, the callee of a construction must not contain a call,
and the operator `??` must not meet `||` or `&&` directly.
-/

namespace MacroScript

namespace Strength

def sequence : Nat := 1

/-- Assignments and arrow functions. -/
def assignment : Nat := 2

def conditional : Nat := 3

/-- Binary operators, by their precedence. -/
def binary (op : BinaryOp) : Nat :=
  4 + op.precedence

/-- Operators before their operand. -/
def unary : Nat := 16

/-- Operators behind their operand. -/
def postfixed : Nat := 17

/-- Calls, constructions and members. -/
def call : Nat := 18

/-- Everything that cannot be torn apart. -/
def primary : Nat := 19

/-- The strength required of the left operand.  On the left of a power, a unary
operator needs parentheses. -/
def leftOperand (op : BinaryOp) : Nat :=
  if op.isRightAssociative then postfixed else binary op

def rightOperand (op : BinaryOp) : Nat :=
  if op.isRightAssociative then binary op else binary op + 1

end Strength

namespace Expr

def strength : Expr → Nat
  | .sequence .. => Strength.sequence
  | .assign .. | .arrow _ => Strength.assignment
  | .conditional .. => Strength.conditional
  | .binary op .. => Strength.binary op
  | .unary .. => Strength.unary
  | .update _ before .. => if before then Strength.unary else Strength.postfixed
  | .call .. | .construct .. | .member .. => Strength.call
  | .identifier _ | .literal _ | .this _ | .array .. | .object .. | .function _
  | .invocation _ => Strength.primary

/-- Whether an operand mixes `??` with another logical operator. -/
def mixesNullish (parent : BinaryOp) : Expr → Bool
  | .binary op .. => op.isLogical && ((parent == .nullish) != (op == .nullish))
  | _ => false

/-- Whether an expression begins with a brace or the word `function`, so that it
could be taken for a block or a declaration. -/
def startsAmbiguously : Expr → Bool
  | .object .. | .function _ => true
  | .binary _ left _ _ => left.startsAmbiguously
  | .assign _ target _ _ => target.startsAmbiguously
  | .conditional test _ _ _ => test.startsAmbiguously
  | .call callee _ _ _ => callee.startsAmbiguously
  | .member base _ _ _ => base.startsAmbiguously
  | .update _ before argument _ => !before && argument.startsAmbiguously
  | .sequence (first :: _) _ => first.startsAmbiguously
  | _ => false

def containsCall : Expr → Bool
  | .call .. => true
  | .member base _ _ _ => base.containsCall
  | _ => false

/-- Whether an expression is a number written with digits only, which would take
a following dot as its own. -/
def isBareInteger : Expr → Bool
  | .literal value => value.kind == .number && value.raw.toList.all Char.isDigit
  | _ => false

/-- Whether a blank must separate a unary operator from its operand. -/
def needsSpaceAfter (op : UnaryOp) (argument : Expr) : Bool :=
  op.isWord ||
    match op, argument with
    | .minus, .unary .minus _ _ | .plus, .unary .plus _ _ => true
    | .minus, .update .decrement before _ _ | .plus, .update .increment before _ _ => before
    | _, _ => false

end Expr

end MacroScript
