import MacroScript.Scope

/-!
# Macro definitions

A macro is an ordered list of rules.  A rule has a pattern, which the argument
tokens of a call must match, and a template, which is the raw token list that
replaces the call.

A pattern is a sequence of elements: a token that must occur as it stands, a
named capture of a given kind, or a group that repeats with a separator.  The
variables of a pattern are listed with the number of groups around them.
-/

namespace MacroScript

/-- What a capture takes from the arguments. -/
inductive CaptureKind where
  /-- One literal token. -/
  | literal
  /-- One name. -/
  | ident
  /-- The longest expression that can be read. -/
  | expr
  /-- One statement. -/
  | stmt
deriving DecidableEq, Repr

namespace CaptureKind

def word : CaptureKind → String
  | .literal => "literal"
  | .ident => "ident"
  | .expr => "expr"
  | .stmt => "stmt"

def ofWord? (word : String) : Option CaptureKind :=
  [.literal, .ident, .expr, .stmt].find? (·.word == word)

end CaptureKind

inductive PatternElement where
  /-- A token of the same class and text. -/
  | token (token : Token)
  /-- A named capture. -/
  | capture (name : String) (kind : CaptureKind) (span : Span)
  /-- A group that occurs any number of times, with a separator in between. -/
  | repetition (content : List PatternElement) (separator : Token) (span : Span)
deriving Repr

/-- The argument pattern of a rule. -/
abbrev Pattern := List PatternElement

mutual

/-- The variables of an element that stands inside `depth` groups, each with
the number of groups around it. -/
def PatternElement.captures (depth : Nat) : PatternElement → List (String × Nat)
  | .token _ => []
  | .capture name _ _ => [(name, depth)]
  | .repetition content _ _ => Pattern.captures (depth + 1) content

/-- The variables of a pattern that stands inside `depth` groups. -/
def Pattern.captures (depth : Nat) : List PatternElement → List (String × Nat)
  | [] => []
  | element :: rest => element.captures depth ++ Pattern.captures depth rest

end

structure Rule where
  pattern : Pattern
  template : List Token
  span : Span
deriving Repr

/-- A declared macro, with the scopes that were open at its declaration. -/
structure MacroDef where
  name : String
  rules : List Rule
  scopes : ScopeStack
  span : Span
deriving Repr

/-- The macros of a session, in the order of their declarations. -/
structure Registry where
  definitions : Array MacroDef := #[]
deriving Inhabited

namespace Registry

def size (registry : Registry) : Nat :=
  registry.definitions.size

def get? (registry : Registry) (id : MacroId) : Option MacroDef :=
  registry.definitions[id]?

/-- Add a macro; its number is the former size. -/
def add (registry : Registry) (definition : MacroDef) : Registry :=
  ⟨registry.definitions.push definition⟩

@[simp]
theorem size_add (registry : Registry) (definition : MacroDef) :
    (registry.add definition).size = registry.size + 1 := by
  simp [add, size]

theorem get?_add (registry : Registry) (definition : MacroDef) (id : MacroId) :
    (registry.add definition).get? id =
      if id = registry.size then some definition else registry.get? id :=
  Array.getElem?_push

end Registry

end MacroScript
