import MacroScript.Json
import MacroScript.Tree

/-!
# Encoded trees

The JSON form of a syntax tree.  Statements and expressions are objects whose
first member, `type`, names the kind of node; a choice inside a node is an
object with one member.  A missing part is null, and only the source spelling
of a name is left out when there is none.
-/

namespace MacroScript

def Span.toJson (span : Span) : Json :=
  .object
    [ ("start", .nat span.start), ("end", .nat span.stop), ("line", .nat span.line),
      ("column", .nat span.column) ]

/-- The name of a lexical class in an encoded tree. -/
def TokenKind.encodedName : TokenKind → String
  | .name => "Name"
  | .keyword => "Keyword"
  | .number => "Num"
  | .bigint => "BigInt"
  | .string => "String"
  | .regex => "Regex"
  | .punct => "Punct"
  | .eof => "Eof"

def Token.toJson (token : Token) : Json :=
  .object
    [ ("kind", .string token.kind.encodedName), ("value", .string token.text),
      ("span", token.span.toJson), ("newline_before", .bool token.newlineBefore),
      ("color", .ofOption .nat token.color) ]

namespace Tree

/-- A node with a kind and further members. -/
def node (type : String) (members : List (String × Json)) : Json :=
  .object (("type", .string type) :: members)

def choice (tag : String) (content : Json) : Json :=
  .object [(tag, content)]

def identifierMembers (identifier : Identifier) : List (String × Json) :=
  [("name", .string identifier.name), ("span", identifier.span.toJson)] ++
    (identifier.sourceName.map fun name => ("source_name", Json.string name)).toList

def identifierJson (identifier : Identifier) : Json :=
  .object (identifierMembers identifier)

def invocationMembers (invocation : Invocation) : List (String × Json) :=
  [ ("name", identifierJson invocation.name), ("macro_id", .nat invocation.macroId),
    ("tokens", .ofList Token.toJson invocation.tokens),
    ("scope_stack", .ofList .nat invocation.scopes.reverse), ("span", invocation.span.toJson) ]

mutual

def exprJson : Expr → Json
  | .identifier identifier => node "Identifier" (identifierMembers identifier)
  | .literal literal =>
    node "Literal"
      [ ("kind", .string literal.kind.label), ("raw", .string literal.raw),
        ("span", literal.span.toJson) ]
  | .this span => node "This" [("span", span.toJson)]
  | .array elements span =>
    node "Array" [("elements", .array (exprsJson elements)), ("span", span.toJson)]
  | .object properties span =>
    node "Object" [("properties", .array (propertiesJson properties)), ("span", span.toJson)]
  | .function function => node "Function" (functionMembers function)
  | .arrow arrow => node "Arrow" (arrowMembers arrow)
  | .unary op argument span =>
    node "Unary"
      [("operator", .string op.label), ("argument", exprJson argument), ("span", span.toJson)]
  | .update op before argument span =>
    node "Update"
      [ ("operator", .string op.label), ("prefix", .bool before),
        ("argument", exprJson argument), ("span", span.toJson) ]
  | .binary op left right span =>
    node "Binary"
      [ ("operator", .string op.label), ("left", exprJson left), ("right", exprJson right),
        ("span", span.toJson) ]
  | .assign op target value span =>
    node "Assign"
      [ ("operator", .string op.label), ("target", exprJson target), ("value", exprJson value),
        ("span", span.toJson) ]
  | .conditional test consequent alternate span =>
    node "Conditional"
      [ ("test", exprJson test), ("consequent", exprJson consequent),
        ("alternate", exprJson alternate), ("span", span.toJson) ]
  | .call callee arguments isOptional span =>
    node "Call"
      [ ("callee", exprJson callee), ("arguments", .array (exprsJson arguments)),
        ("optional", .bool isOptional), ("span", span.toJson) ]
  | .construct callee arguments span =>
    node "New"
      [ ("callee", exprJson callee), ("arguments", .array (exprsJson arguments)),
        ("span", span.toJson) ]
  | .member object key isOptional span =>
    node "Member"
      [ ("object", exprJson object), ("property", memberKeyJson key),
        ("optional", .bool isOptional), ("span", span.toJson) ]
  | .sequence expressions span =>
    node "Sequence" [("expressions", .array (exprsJson expressions)), ("span", span.toJson)]
  | .invocation invocation => node "MacroInvocation" (invocationMembers invocation)

def exprsJson : List Expr → List Json
  | [] => []
  | expr :: rest => exprJson expr :: exprsJson rest

def exprJson? : Option Expr → Json
  | none => .null
  | some expr => exprJson expr

def propertyKeyJson : PropertyKey Expr → Json
  | .identifier name => choice "Identifier" (.string name)
  | .string raw => choice "String" (.string raw)
  | .number raw => choice "Number" (.string raw)
  | .computed value => choice "Computed" (exprJson value)

def propertyJson : Property Expr → Json
  | ⟨key, value, shorthand, span⟩ =>
    .object
      [ ("key", propertyKeyJson key), ("value", exprJson value), ("shorthand", .bool shorthand),
        ("span", span.toJson) ]

def propertiesJson : List (Property Expr) → List Json
  | [] => []
  | property :: rest => propertyJson property :: propertiesJson rest

def memberKeyJson : MemberKey Expr → Json
  | .named name => choice "Named" (.string name)
  | .computed value => choice "Computed" (exprJson value)

def functionMembers : Function Stmt → List (String × Json)
  | ⟨name, params, body, span⟩ =>
    [ ("id", .ofOption identifierJson name), ("params", .ofList identifierJson params),
      ("body", blockJson body), ("span", span.toJson) ]

def arrowMembers : Arrow Expr Stmt → List (String × Json)
  | ⟨params, body, span⟩ =>
    [ ("params", .ofList identifierJson params), ("body", arrowBodyJson body),
      ("span", span.toJson) ]

def arrowBodyJson : ArrowBody Expr Stmt → Json
  | .expression value => choice "Expression" (exprJson value)
  | .block block => choice "Block" (blockJson block)

def blockMembers : Block Stmt → List (String × Json)
  | ⟨body, span⟩ => [("body", .array (stmtsJson body)), ("span", span.toJson)]

def blockJson : Block Stmt → Json
  | ⟨body, span⟩ => .object [("body", .array (stmtsJson body)), ("span", span.toJson)]

def blockJson? : Option (Block Stmt) → Json
  | none => .null
  | some block => blockJson block

def declaratorJson : Declarator Expr → Json
  | ⟨id, init, span⟩ =>
    .object [("id", identifierJson id), ("init", exprJson? init), ("span", span.toJson)]

def declaratorsJson : List (Declarator Expr) → List Json
  | [] => []
  | declarator :: rest => declaratorJson declarator :: declaratorsJson rest

def declarationMembers : Declaration Expr → List (String × Json)
  | ⟨kind, declarators, span⟩ =>
    [ ("kind", .string kind.label), ("declarations", .array (declaratorsJson declarators)),
      ("span", span.toJson) ]

def forInitJson : ForInit Expr → Json
  | .declaration declaration => choice "Variable" (.object (declarationMembers declaration))
  | .expression value => choice "Expression" (exprJson value)

def forInitJson? : Option (ForInit Expr) → Json
  | none => .null
  | some init => forInitJson init

def forHeadJson : ForHead Expr → Json
  | .declared kind id =>
    choice "Variable" (.object [("kind", .string kind.label), ("id", identifierJson id)])
  | .target target => choice "Target" (exprJson target)

def catchJson : Catch Stmt → Json
  | ⟨param, body, span⟩ =>
    .object
      [ ("param", .ofOption identifierJson param), ("body", blockJson body),
        ("span", span.toJson) ]

def catchJson? : Option (Catch Stmt) → Json
  | none => .null
  | some handler => catchJson handler

def caseJson : Case Expr Stmt → Json
  | ⟨test, body, span⟩ =>
    .object
      [ ("test", exprJson? test), ("consequent", .array (stmtsJson body)),
        ("span", span.toJson) ]

def casesJson : List (Case Expr Stmt) → List Json
  | [] => []
  | case :: rest => caseJson case :: casesJson rest

def stmtJson : Stmt → Json
  | .expression value span =>
    node "Expression" [("expression", exprJson value), ("span", span.toJson)]
  | .declaration declaration => node "Variable" (declarationMembers declaration)
  | .function function => node "Function" (functionMembers function)
  | .returns argument span =>
    node "Return" [("argument", exprJson? argument), ("span", span.toJson)]
  | .ifElse test consequent alternate span =>
    node "If"
      [ ("test", exprJson test), ("consequent", stmtJson consequent),
        ("alternate", stmtJson? alternate), ("span", span.toJson) ]
  | .forLoop init test update body span =>
    node "For"
      [ ("init", forInitJson? init), ("test", exprJson? test), ("update", exprJson? update),
        ("body", stmtJson body), ("span", span.toJson) ]
  | .forEach kind left right body span =>
    node "ForEach"
      [ ("kind", .string kind.label), ("left", forHeadJson left), ("right", exprJson right),
        ("body", stmtJson body), ("span", span.toJson) ]
  | .whileLoop test body span =>
    node "While" [("test", exprJson test), ("body", stmtJson body), ("span", span.toJson)]
  | .doWhile body test span =>
    node "DoWhile" [("body", stmtJson body), ("test", exprJson test), ("span", span.toJson)]
  | .breaks span => node "Break" [("span", span.toJson)]
  | .continues span => node "Continue" [("span", span.toJson)]
  | .throws argument span =>
    node "Throw" [("argument", exprJson argument), ("span", span.toJson)]
  | .tryCatch block handler finalizer span =>
    node "Try"
      [ ("block", blockJson block), ("handler", catchJson? handler),
        ("finalizer", blockJson? finalizer), ("span", span.toJson) ]
  | .switch discriminant cases span =>
    node "Switch"
      [ ("discriminant", exprJson discriminant), ("cases", .array (casesJson cases)),
        ("span", span.toJson) ]
  | .block block => node "Block" (blockMembers block)
  | .empty span => node "Empty" [("span", span.toJson)]
  | .macroDeclaration declaration =>
    node "MacroDeclaration"
      [ ("name", identifierJson declaration.name), ("macro_id", .nat declaration.macroId),
        ("span", declaration.span.toJson) ]

def stmtsJson : List Stmt → List Json
  | [] => []
  | stmt :: rest => stmtJson stmt :: stmtsJson rest

def stmtJson? : Option Stmt → Json
  | none => .null
  | some stmt => stmtJson stmt

end

end Tree

def programJson (program : Program) : Json :=
  Tree.blockJson program

end MacroScript
