import MacroScript.Grammar.Parser

/-!
# Names and hygiene

What a name means while a parser with macros is at work.  Outside of an
expansion a binding is only noted, so that it hides colors further out.  Inside
an expansion a name is resolved by the origin of its token: a name of the body
looks up its color in the scopes of the macro's declaration, and a name of the
arguments keeps the color it carries.

A binding written in the body receives the color of the expansion.  The color
is recorded in the innermost scope of the place of origin, so that later names
of the body find it.
-/

namespace MacroScript.Grammar

namespace Context

def tokenColor (context : Context) (cursor : Cursor) (index : Nat) (name : String) :
    Except Fault (Option Color) :=
  match context.hygiene with
  | none => .ok none
  | some hygiene => do
    match ← hygiene.origin index with
    | .body => .ok (context.session.scopes.findColor? hygiene.declarationScopes name)
    | .invocation => .ok (cursor.tokenAt index).color

/-- Record a decision for a name in the innermost scope of a stack. -/
def mark (context : Context) (stack : ScopeStack) (name : String) (color : Option Color) :
    Context :=
  match stack with
  | [] => context
  | innermost :: _ =>
    { context with session := context.session.markColor innermost name color }

/-- Record the binding of a name by the token at an index. -/
def bindName (context : Context) (cursor : Cursor) (index : Nat) (name : String) :
    Except Fault Context :=
  match context.hygiene with
  | none => .ok (context.mark context.scopes name none)
  | some hygiene => do
    match ← hygiene.origin index with
    | .body =>
      let (color, claimed, session) := context.session.claimColor hygiene
      .ok
        ({ context with session, hygiene := some claimed }.mark hygiene.declarationScopes name
          (some color))
    | .invocation =>
      .ok (context.mark hygiene.invocationScopes name (cursor.tokenAt index).color)

/-- The macro that the name token at an index calls.  An expansion first looks
where the token was written, then in the scopes of the parser. -/
def findMacro? (context : Context) (index : Nat) (name : String) :
    Except Fault (Option MacroId) :=
  let own := context.session.scopes.findMacro? context.scopes name
  match context.hygiene with
  | none => .ok own
  | some hygiene => do
    let origin ← hygiene.origin index
    .ok (context.session.scopes.findMacro? (hygiene.scopes origin) name <|> own)

end Context

/-- Use a computation on the context; the plain language has none. -/
def withContext {α : Type} (otherwise : α) (ask : Context → Cursor → Except Fault α) :
    Parser α := fun state =>
  match state.context with
  | none => .ok otherwise state
  | some context =>
    match ask context state.cursor with
    | .ok value => .ok value state
    | .error fault => .error fault state

/-- Color a name by the meaning of its token. -/
def resolveName (identifier : Identifier) (index : Nat) : Parser Identifier := do
  let color ← withContext none fun context cursor =>
    context.tokenColor cursor index identifier.name
  return identifier.applyColor? color

/-- Record a binding, then color its name. -/
def declareName (identifier : Identifier) (index : Nat) : Parser Identifier := do
  let updated ← withContext none fun context cursor =>
    (context.bindName cursor index identifier.name).map some
  modify fun state => { state with context := updated <|> state.context }
  resolveName identifier index

def bindingName : Parser Identifier := do
  let place ← index
  let identifier ← expectName
  declareName identifier place

def referenceName : Parser Identifier := do
  let place ← index
  let identifier ← expectName
  resolveName identifier place

end MacroScript.Grammar
