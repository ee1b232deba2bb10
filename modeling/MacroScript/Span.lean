/-!
# Spans

A span is a region of source text.  It keeps the byte offsets of both of its
ends and, for readers, the line and column of its start.

Spans are combined in two ways.  `Span.merge` covers two regions in either
order.  `Span.through` runs from the start of one region to the end of a later one
and never becomes negative.
-/

namespace MacroScript

/-- What a counter of 32 bits holds of a number.  Lines and columns are counted
in such. -/
def narrow (n : Nat) : Nat :=
  n % 4294967296

theorem narrow_le (n : Nat) : narrow n ≤ n :=
  Nat.mod_le _ _

theorem narrow_lt (n : Nat) : narrow n < 4294967296 :=
  Nat.mod_lt _ (by decide)

theorem narrow_eq_self_iff {n : Nat} : narrow n = n ↔ n < 4294967296 :=
  Nat.mod_eq_iff_lt (by decide)

/-- A region of source text: byte offsets of its start and stop, with the
one-based line and zero-based character column of the start. -/
structure Span where
  start : Nat
  stop : Nat
  line : Nat
  column : Nat
deriving DecidableEq, Repr, Inhabited

namespace Span

/-- The span of nothing, which lies on no line. -/
def nowhere : Span :=
  ⟨0, 0, 0, 0⟩

def point (offset line column : Nat) : Span :=
  ⟨offset, offset, line, column⟩

/-- The smallest span that covers both; its position is that of the one that
starts first, and of `first` when they start together. -/
def merge (first second : Span) : Span :=
  let earlier := if second.start < first.start then second else first
  { earlier with stop := max first.stop second.stop }

/-- The span from the start of `first` to the end of `last`, empty when `last`
ends before `first` starts. -/
def through (first last : Span) : Span :=
  { first with stop := max last.stop first.start }

def position (span : Span) : String :=
  toString span.line ++ ":" ++ toString span.column

/-- The number of bytes to underline: at least one. -/
def labelLength (span : Span) : Nat :=
  if span.start < span.stop then span.stop - span.start else 1

@[simp]
theorem through_start (first last : Span) : (first.through last).start = first.start :=
  rfl

@[simp]
theorem through_line (first last : Span) : (first.through last).line = first.line :=
  rfl

@[simp]
theorem through_column (first last : Span) : (first.through last).column = first.column :=
  rfl

theorem through_start_le_stop (first last : Span) :
    (first.through last).start ≤ (first.through last).stop :=
  Nat.le_max_right _ _

end Span

end MacroScript
