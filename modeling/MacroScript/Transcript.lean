import MacroScript.Hygiene
import MacroScript.Matching.Binding
import MacroScript.Token.Balanced

/-!
# Transcripts

The transcript of a template is the token list that replaces a call.  Tokens of
the template are copied, `$name` is replaced by what the variable captured, and
`$( … )` followed by a separator is copied once for every occurrence of the
variables it mentions.  Every token of a transcript is paired with its origin.

The number of rounds of a group is the number of occurrences, at the current
path, of each variable in the group that is bound deeper than the path.  They
must agree, and there must be one.
-/

namespace MacroScript

namespace Transcript

abbrev Placed := Token × Origin

/-- The settings of a transcript: the macro's name for complaints, and the
bindings of its variables. -/
structure Setting where
  macroName : String
  bindings : Bindings

/-! ## Captures -/

/-- Captured tokens in the place of a `$name` token, which decides whether a line
ends before them. -/
def inPlace (placeholder : Token) : List Token → List Placed
  | [] => []
  | first :: rest =>
    ({ first with newlineBefore := placeholder.newlineBefore }, .invocation) ::
      rest.map (·, .invocation)

def substitute (setting : Setting) (name : String) (placeholder : Token) (path : List Nat) :
    Except Fault (List Placed) :=
  match setting.bindings.get? name with
  | none => .error (.expansion setting.macroName placeholder.span (.unboundCapture name))
  | some binding =>
    if binding.depth = path.length then
      match (binding.fragment.follow? path).bind Fragment.tokens? with
      | some tokens => .ok (inPlace placeholder tokens)
      | none => .error (.internal placeholder.span (.noTokens name path))
    else
      .error
        (.expansion setting.macroName placeholder.span
          (.depthMismatch name binding.depth path.length))

/-! ## Groups -/

/-- The number of occurrences shared by the named variables that are bound deeper
than the path.  `found` is the first of them met so far. -/
def sharedCount (setting : Setting) (dollar : Token) (path : List Nat) :
    (found : Option (String × Nat)) → List String → Except Fault (Option (String × Nat))
  | found, [] => .ok found
  | found, name :: rest =>
    match (setting.bindings.get? name).filter (path.length < ·.depth) with
    | none => sharedCount setting dollar path found rest
    | some binding =>
      match (binding.fragment.follow? path).bind Fragment.occurrences? with
      | none => .error (.internal dollar.span (.noOccurrences name path))
      | some count =>
        match found with
        | none => sharedCount setting dollar path (some (name, count)) rest
        | some (first, expected) =>
          if expected = count then sharedCount setting dollar path found rest
          else
            .error
              (.expansion setting.macroName dollar.span
                (.countMismatch first expected name count))

def roundCount (setting : Setting) (dollar : Token) (group : List Token) (path : List Nat) :
    Except Fault Nat := do
  match ← sharedCount setting dollar path none (group.filterMap Token.captureName?) with
  | some (_, count) => .ok count
  | none =>
    .error
      (.expansion setting.macroName dollar.span (.noRepeatedCapture (Token.render group)))

def joinRounds (separator : Token) : List (List Placed) → List Placed
  | [] => []
  | [round] => round
  | round :: rest => round ++ (separator, .body) :: joinRounds separator rest

/-- The tokens of a group and its separator, with the tokens behind it.  The tokens
given are the ones behind the opening parenthesis. -/
def group? (dollar : Token) (tokens : List Token) :
    Except Fault (List Token × Token × List Token) :=
  match Balanced.take ")" tokens with
  | .mismatched found _ => .error (.unexpected found)
  | .unfinished _ => .error (.malformed dollar.span .unterminatedGroup)
  | .closed _ [] => .error (.malformed dollar.span .missingSeparator)
  | .closed group (separator :: rest) => .ok (group, separator, rest)

/-! ## Templates -/

/-- The transcript of a template of at most `bound` tokens. -/
def transcribeWithin (setting : Setting) :
    (bound : Nat) → (template : List Token) → (path : List Nat) → Except Fault (List Placed)
  | 0, _, _ => .ok []
  | _ + 1, [], _ => .ok []
  | bound + 1, token :: rest, path =>
    if token.isWord "$" && rest.head?.any (·.isPunct "(") then do
      let (group, separator, after) ← group? token rest.tail
      let count ← roundCount setting token group path
      let rounds ← (List.range count).mapM fun round =>
        transcribeWithin setting bound group (path ++ [round])
      let later ← transcribeWithin setting bound after path
      .ok (joinRounds separator rounds ++ later)
    else do
      let here ← match token.captureName? with
        | some name => substitute setting name token path
        | none => .ok [(token, .body)]
      let later ← transcribeWithin setting bound rest path
      .ok (here ++ later)

end Transcript

def transcribe (macroName : String) (bindings : Bindings) (template : List Token) :
    Except Fault (List Transcript.Placed) :=
  Transcript.transcribeWithin ⟨macroName, bindings⟩ template.length template []

end MacroScript
