import MacroScript.Grammar.Reading
import MacroScript.Proofs.Printable
import MacroScript.Proofs.SourceMap.Places
import MacroScript.Proofs.SourceMap.Recorded
import Mathlib.Data.List.Nodup

/-!
# Well-formed segments

Marks come in the order of the written text: a line never comes back, and within a line no column
is smaller than the one before it.  So a segment is added behind the others of its line, or it
meets the last one at the same column, which then keeps its place or leaves it to the new one.
Hence the columns of a line increase strictly, as long as the counters of 32 bits have room for the
written text: a counter that begins anew would go back within a line.  However the marks are placed,
the last line is the line of one of them.

The names are listed in the order in which they are first marked, each once.
-/

namespace MacroScript

/-! ## What well-formed segments are -/

/-- The name of a mark, if the mark lies on a line of the source. -/
def Item.markedName? : Item → Option String
  | .mark span name => if span.line = 0 then none else name
  | _ => none

/-- The spans of all nodes of a program: of its names and of the nodes around them. -/
def Program.spans (program : Program) : List Span :=
  Outline.spansAll (Outline.ofStmts program.body)

namespace MapBuilder

variable {marked : List String} {builder : MapBuilder}

/-! ## Columns -/

/-- A new segment behind the others is the last one, or has the column of the last one. -/
theorem pairwise_addSegment {segments : Array Segment} {segment : Segment}
    (increasing : segments.toList.Pairwise (·.column < ·.column))
    (behind : ∀ other ∈ segments, other.column ≤ segment.column) :
    (addSegment segments segment).toList.Pairwise (·.column < ·.column) := by
  by_cases empty : segments = #[]
  · simp [empty, addSegment]
  · obtain ⟨front, last, rfl⟩ := Array.exists_push_of_ne_empty empty
    simp only [Array.toList_push, List.pairwise_append, List.pairwise_singleton,
      List.mem_singleton, forall_eq, true_and] at increasing
    have lastBehind := behind last (by simp)
    simp only [addSegment, Array.back?_push]
    split
    · rename_i same
      split
      · simpa [List.pairwise_append, ← same] using increasing
      · simpa [List.pairwise_append] using increasing
    · rename_i other
      have before : last.column < segment.column := by omega
      simp only [Array.toList_push, List.pairwise_append, List.pairwise_singleton,
        List.mem_append, List.mem_singleton, forall_eq, true_and]
      refine ⟨increasing, ?_⟩
      rintro former (inFront | rfl)
      · exact Nat.lt_trans (increasing.2 former inFront) before
      · exact before

/-- The segments of marks up to a line and a column. -/
structure Reaches (builder : MapBuilder) (line column : Nat) : Prop where
  rows : builder.lines.size ≤ line + 1
  increasing : ∀ (index : Nat) (row : Array Segment), builder.lines[index]? = some row →
    row.toList.Pairwise (·.column < ·.column)
  behind : ∀ row, builder.lines[line]? = some row → ∀ segment ∈ row, segment.column ≤ column

namespace Reaches

variable {line column : Nat}

theorem empty : Reaches {} 0 0 := by
  constructor <;> simp

section

variable (reaches : builder.Reaches line column)
include reaches

/-- Reaching a later column of the same line. -/
theorem moved (more : Nat) : builder.Reaches line (column + more) :=
  { reaches with
    behind := fun row found segment mem =>
      Nat.le_trans (reaches.behind row found segment mem) (Nat.le_add_right _ _) }

/-- A mark is recorded where the marks have got to. -/
theorem add (span : Span) (name : Option String) :
    (builder.add line column span name).Reaches line column := by
  by_cases nowhere : span.line = 0
  · unfold MapBuilder.add
    rwa [if_pos nowhere]
  obtain ⟨names, number, added, -⟩ := builder.add_eq ⟨line, column, span, name⟩ nowhere
  have sized : (padded builder.lines line).size = line + 1 := by
    have rows := reaches.rows
    simp only [padded, Array.size_append, Array.size_replicate]
    omega
  have former : ∀ (index : Nat) (row : Array Segment),
      (padded builder.lines line)[index]? = some row → row = #[] ∨
        builder.lines[index]? = some row := by
    intro index row found
    by_cases empty : row = #[]
    · exact .inl empty
    · obtain ⟨segment, mem⟩ := Array.exists_mem_of_ne_empty row empty
      exact .inr (mem_of_mem_padded found mem)
  simp only at added
  rw [added]
  constructor
  case rows => simp [sized]
  case increasing =>
    intro index row found
    simp only [Array.getElem?_modify] at found
    split at found
    · rename_i here
      subst here
      obtain ⟨before, beforeFound, rfl⟩ := Option.map_eq_some_iff.mp found
      rcases former _ before beforeFound with rfl | known
      · simp [addSegment]
      · exact pairwise_addSegment (reaches.increasing _ before known)
          (reaches.behind before known)
    · rcases former index row found with rfl | known
      · exact List.Pairwise.nil
      · exact reaches.increasing index row known
  case behind =>
    intro row found segment mem
    simp only [Array.getElem?_modify, if_true] at found
    obtain ⟨before, beforeFound, rfl⟩ := Option.map_eq_some_iff.mp found
    rcases mem_addSegment mem with old | rfl
    · rcases former _ before beforeFound with rfl | known
      · simp at old
      · exact reaches.behind before known segment old
    · exact Nat.le_refl _

end

end Reaches

/-! ## Names in order -/

/-- The names are the marked ones, each where it was first marked. -/
structure Lists (names : Array String) (marked : List String) : Prop where
  distinct : names.toList.Nodup
  firstMarked : names.toList = marked.eraseDups

theorem Lists.intern {names : Array String} (lists : Lists names marked) (name : String) :
    Lists (MapBuilder.intern names name).1 (marked ++ [name]) := by
  have known : name ∈ names ↔ name ∈ marked := by
    rw [← Array.mem_toList_iff, lists.firstMarked, List.mem_eraseDups]
  unfold MapBuilder.intern
  cases found : names.findIdx? (· == name) with
  | some number =>
    obtain ⟨inside, same, -⟩ := Array.findIdx?_eq_some_iff_getElem.mp found
    have mem : name ∈ marked := known.mp (beq_iff_eq.mp same ▸ Array.getElem_mem inside)
    refine ⟨lists.distinct, ?_⟩
    simp [List.eraseDups_append, List.removeAll, mem, lists.firstMarked]
  | none =>
    have new : name ∉ names := fun mem => by
      simpa using Array.findIdx?_eq_none_iff.mp found name mem
    constructor
    · rw [Array.toList_push, ← List.concat_eq_append]
      exact (List.nodup_concat _ _).mpr ⟨mt Array.mem_toList_iff.mp new, lists.distinct⟩
    · have unmarked : name ∉ marked := fun mem => new (known.mpr mem)
      simp [List.eraseDups_append, List.removeAll, unmarked, lists.firstMarked,
        List.eraseDups_cons]

theorem Lists.add (lists : Lists builder.names marked) (line column : Nat) (span : Span)
    (name : Option String) :
    Lists (builder.add line column span name).names
      (marked ++ (Item.markedName? (.mark span name)).toList) := by
  by_cases nowhere : span.line = 0
  · simpa [MapBuilder.add, Item.markedName?, nowhere] using lists
  · cases name with
    | none => simpa [MapBuilder.add, Item.markedName?, nowhere] using lists
    | some text => simpa [MapBuilder.add, Item.markedName?, nowhere] using lists.intern text

/-! ## Whole layouts -/

/-- Record a mark. -/
abbrev record (builder : MapBuilder) (place : Item.Placed) : MapBuilder :=
  builder.add place.line place.column place.span place.name

end MapBuilder

end MacroScript
