import MacroScript.Fault
import MacroScript.Text.Whitespace

/-!
# Diagnostics

A diagnostic is the report of a fault: its kind and wording, the place it points
at, further labelled places, an optional hint, and the source text once it is
known.  The source is attached at the outermost boundary and the first one
attached is kept.
-/

namespace MacroScript

namespace FaultKind

def label : FaultKind → String
  | .malformed => "Syntax"
  | .expansion => "Expansion"
  | .internal => "Internal"

def code : FaultKind → String
  | .malformed => "macrojs::syntax"
  | .expansion => "macrojs::expansion"
  | .internal => "macrojs::internal"

/-- Drop every trailing `error` of a word that is given backwards. -/
def dropErrorSuffixes : List Char → List Char
  | 'r' :: 'o' :: 'r' :: 'r' :: 'e' :: rest => dropErrorSuffixes rest
  | rest => rest

/-- The kind of fault that a word names.  Case, surrounding whitespace and
trailing `error`s are ignored. -/
def ofName? (name : String) : Option FaultKind :=
  let lowered := (Text.trim name.toList).map Char.toLower
  match String.ofList (dropErrorSuffixes lowered.reverse).reverse with
  | "syntax" => some .malformed
  | "expansion" => some .expansion
  | "internal" | "internalcompiler" => some .internal
  | _ => none

end FaultKind

structure Source where
  name : String
  text : String
deriving DecidableEq, Repr

structure Diagnostic where
  kind : FaultKind
  text : String
  macroName : Option String := none
  span : Option Span := none
  help : Option String := none
  notes : List Note := []
  source : Option Source := none
deriving DecidableEq, Repr

/-- A labelled region of the attached source. -/
structure Label where
  text : String
  offset : Nat
  length : Nat
deriving DecidableEq, Repr

namespace Diagnostic

def ofFault (fault : Fault) : Diagnostic :=
  { kind := fault.cause.kind
    text := fault.cause.text
    macroName := fault.cause.macroName?
    span := fault.span
    notes := fault.notes }

/-- Attach a source, unless one is attached already. -/
def attachSource (diagnostic : Diagnostic) (source : Source) : Diagnostic :=
  { diagnostic with source := some (diagnostic.source.getD source) }

def withHelp (diagnostic : Diagnostic) (help : String) : Diagnostic :=
  { diagnostic with help := some help }

def addNote (diagnostic : Diagnostic) (note : Note) : Diagnostic :=
  { diagnostic with notes := diagnostic.notes ++ [note] }

/-- Fill in the place of a report that has none. -/
def orAt (diagnostic : Diagnostic) (span : Span) : Diagnostic :=
  { diagnostic with span := some (diagnostic.span.getD span) }

/-- The position of a report in parentheses, when it has one. -/
def positionSuffix (diagnostic : Diagnostic) : String :=
  match diagnostic.span with
  | some span => " (" ++ span.position ++ ")"
  | none => ""

/-- The report on one line.  Internal faults show no position. -/
def display (diagnostic : Diagnostic) : String :=
  match diagnostic.kind with
  | .malformed => diagnostic.text ++ diagnostic.positionSuffix
  | .expansion =>
    "in " ++ diagnostic.macroName.getD "" ++ ": " ++ diagnostic.text ++
      diagnostic.positionSuffix
  | .internal => "internal compiler error: " ++ diagnostic.text

/-- The labelled regions: the place of the report, then its notes. -/
def allLabels (diagnostic : Diagnostic) : List Label :=
  (diagnostic.span.map fun span =>
      Label.mk diagnostic.text span.start span.labelLength).toList ++
    diagnostic.notes.map fun note =>
      Label.mk note.label note.span.start note.span.labelLength

/-- The labelled regions of the attached source, when there is a source and at
least one region. -/
def labels? (diagnostic : Diagnostic) : Option (List Label) :=
  if diagnostic.source.isSome && !diagnostic.allLabels.isEmpty then some diagnostic.allLabels
  else none

end Diagnostic

end MacroScript
