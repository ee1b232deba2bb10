import MacroScript.Layout.Item
import Mathlib.Data.List.Count
import Mathlib.Data.String.Basic
import Mathlib.Tactic.Common

/-!
# Where marks stand

The writer counts a line at every line end that it writes and a column for every other character.
A token whose text holds a line end is the exception: it is counted as columns of one line.  The
place of a mark is right exactly when no such token stands before it, as long as the counters of
32 bits have room for the text.
-/

namespace MacroScript

/-- The line and the column behind a text that begins at the given ones. -/
def placeAfter : (line column : Nat) → List Char → Nat × Nat
  | line, column, [] => (line, column)
  | line, column, c :: rest =>
    if c = '\n' then placeAfter (line + 1) 0 rest else placeAfter line (column + 1) rest

theorem placeAfter_append (line column : Nat) (first second : List Char) :
    placeAfter line column (first ++ second) =
      placeAfter (placeAfter line column first).1 (placeAfter line column first).2 second := by
  induction first generalizing line column with
  | nil => rfl
  | cons c rest ih =>
    simp only [List.cons_append, placeAfter]
    split
    · exact ih (line + 1) 0
    · exact ih line (column + 1)

theorem placeAfter_of_not_mem (line column : Nat) {text : List Char} (flat : '\n' ∉ text) :
    placeAfter line column text = (line, column + text.length) := by
  induction text generalizing column with
  | nil => rfl
  | cons c rest ih =>
    obtain ⟨head, tail⟩ := List.ne_and_not_mem_of_not_mem_cons flat
    rw [placeAfter, if_neg (Ne.symm head), ih _ tail, List.length_cons, Nat.add_assoc,
      Nat.add_comm 1]

theorem placeAfter_line (line column : Nat) (text : List Char) :
    (placeAfter line column text).1 = line + text.count '\n' := by
  induction text generalizing line column with
  | nil => rfl
  | cons c rest ih =>
    rw [placeAfter]
    split
    · rename_i isEnd
      rw [ih, isEnd, List.count_cons_self]
      omega
    · rename_i other
      rw [ih, List.count_cons_of_ne other]

namespace Item

variable {items : List Item} {item : Item}

/-- A token that goes over the end of a line. -/
def breaksLine : Item → Bool
  | .token text => text.toList.contains '\n'
  | _ => false

/-- The place that is counted behind an item. -/
def countedAfter (place : Nat × Nat) : Item → Nat × Nat
  | .newline => (narrow (place.1 + 1), 0)
  | .mark _ _ => place
  | item => (place.1, narrow (place.2 + item.text.length))

/-- The text of items in characters. -/
theorem toList_render (items : List Item) :
    (render items).toList = items.flatMap fun item => item.text.toList := by
  rw [render, String.toList_join, List.flatMap_map]

theorem render_cons (item : Item) (items : List Item) :
    render (item :: items) = item.text ++ render items := by
  apply String.toList_injective
  rw [String.toList_append, toList_render, toList_render, List.flatMap_cons]

theorem render_append (first second : List Item) :
    render (first ++ second) = render first ++ render second := by
  apply String.toList_injective
  rw [String.toList_append, toList_render, toList_render, toList_render, List.flatMap_append]

/-! ## Counted places -/

/-- A mark has the place that is counted behind the items before it. -/
theorem exists_split_of_mem_placesFrom {line column : Nat} {place : Placed}
    (mem : place ∈ placesFrom line column items) :
    ∃ before after, items = before ++ .mark place.span place.name :: after ∧
      before.foldl countedAfter (line, column) = (place.line, place.column) := by
  induction items generalizing line column with
  | nil => cases mem
  | cons item rest ih =>
    have behind (inRest : place ∈ placesFrom (countedAfter (line, column) item).1
        (countedAfter (line, column) item).2 rest) :
        ∃ before after, item :: rest = before ++ .mark place.span place.name :: after ∧
          before.foldl countedAfter (line, column) = (place.line, place.column) := by
      obtain ⟨before, after, rfl, counted⟩ := ih inRest
      exact ⟨item :: before, after, rfl, counted⟩
    cases item with
    | mark span name =>
      rcases List.mem_cons.mp mem with rfl | inRest
      · exact ⟨[], rest, rfl, rfl⟩
      · exact behind inRest
    | token text
    | space
    | newline
    | indent depth
    | stray fault => exact behind mem

variable (place : Nat × Nat)

theorem countedAfter_le (item : Item) :
    (countedAfter place item).1 ≤ place.1 + item.text.length ∧
      (countedAfter place item).2 ≤ place.2 + item.text.length := by
  cases item with
  | newline => exact ⟨narrow_le _, Nat.zero_le _⟩
  | mark span name => exact ⟨Nat.le_refl _, Nat.le_refl _⟩
  | _ => exact ⟨Nat.le_add_right _ _, narrow_le _⟩

/-- Counted columns stay within 32 bits. -/
theorem counted_lt (items : List Item) (start : place.2 < 4294967296) :
    (items.foldl countedAfter place).2 < 4294967296 := by
  induction items generalizing place with
  | nil => exact start
  | cons item rest ih =>
    apply ih
    cases item with
    | newline => exact Nat.zero_lt_succ _
    | mark span name => exact start
    | _ => exact narrow_lt _

/-! ## Right places -/

theorem not_mem_indentText (depth : Nat) : '\n' ∉ (indentText depth).toList := by
  rw [indentText, String.toList_ofList]
  intro mem
  exact absurd (List.eq_of_mem_replicate mem) (by decide)

/-- The counters have room for a text behind a place. -/
structure HasRoom (place : Nat × Nat) (text : String) : Prop where
  lines : place.1 + text.length < 4294967296
  columns : place.2 + text.length < 4294967296

theorem HasRoom.cons {place : Nat × Nat} (room : HasRoom place (render (item :: items))) :
    HasRoom place item.text ∧ HasRoom (countedAfter place item) (render items) := by
  obtain ⟨lines, columns⟩ := room
  have bound := countedAfter_le place item
  rw [render_cons, String.length_append] at lines columns
  exact ⟨⟨by omega, by omega⟩, by omega, by omega⟩

theorem placeAfter_text (flat : item.breaksLine = false) {place : Nat × Nat}
    (room : HasRoom place item.text) :
    placeAfter place.1 place.2 item.text.toList = countedAfter place item := by
  have column := narrow_eq_self_iff.mpr room.columns
  have behind (absent : '\n' ∉ item.text.toList) :
      placeAfter place.1 place.2 item.text.toList =
        (place.1, narrow (place.2 + item.text.length)) := by
    rw [placeAfter_of_not_mem _ _ absent, column]
    rfl
  cases item with
  | token text => exact behind (by simpa [breaksLine, Item.text] using flat)
  | indent depth => exact behind (not_mem_indentText depth)
  | space => exact behind (by decide)
  | stray fault => exact behind (by simp [Item.text])
  | mark span name => rfl
  | newline =>
    have line := narrow_eq_self_iff.mpr room.lines
    exact congrArg (·, 0) line.symm

/-- The counted place is right behind items without tokens that go over the end of a line. -/
theorem placeAfter_render (flat : ∀ item ∈ items, item.breaksLine = false) {place : Nat × Nat}
    (room : HasRoom place (render items)) :
    placeAfter place.1 place.2 (render items).toList = items.foldl countedAfter place := by
  induction items generalizing place with
  | nil => rfl
  | cons item rest ih =>
    obtain ⟨first, others⟩ := List.forall_mem_cons.mp flat
    rw [render_cons, String.toList_append, placeAfter_append, placeAfter_text first room.cons.1,
      ih others room.cons.2, List.foldl_cons]

/-- No line is counted twice. -/
theorem countedAfter_line_le (item : Item) :
    (countedAfter place item).1 ≤ place.1 + item.text.toList.count '\n' := by
  cases item with
  | newline => exact narrow_le _
  | _ => exact Nat.le_add_right _ _

theorem countedAfter_line_lt (broken : item.breaksLine = true) :
    (countedAfter place item).1 < place.1 + item.text.toList.count '\n' := by
  cases item with
  | token text =>
    have mem : '\n' ∈ text.toList := by simpa [breaksLine] using broken
    exact Nat.lt_add_of_pos_right (List.count_pos_iff.mpr mem)
  | _ => cases broken

theorem counted_line_le (items : List Item) :
    (items.foldl countedAfter place).1 ≤ place.1 + (render items).toList.count '\n' := by
  rw [toList_render]
  induction items generalizing place with
  | nil => exact Nat.le_refl _
  | cons item rest ih =>
    have step := countedAfter_line_le place item
    have run := ih (countedAfter place item)
    rw [List.foldl_cons, List.flatMap_cons, List.count_append]
    omega

/-- Behind a token that goes over the end of a line the counted line is too small. -/
theorem counted_line_lt (mem : item ∈ items) (broken : item.breaksLine = true) :
    (items.foldl countedAfter place).1 < (placeAfter place.1 place.2 (render items).toList).1 := by
  obtain ⟨before, after, rfl⟩ := List.append_of_mem mem
  have first := counted_line_le place before
  have second := countedAfter_line_lt (before.foldl countedAfter place) broken
  have third := counted_line_le (countedAfter (before.foldl countedAfter place) item) after
  rw [placeAfter_line]
  rw [toList_render] at first third ⊢
  rw [List.foldl_append, List.foldl_cons, List.flatMap_append, List.flatMap_cons,
    List.count_append, List.count_append]
  omega

/-- The counted place is right exactly where no token before it goes over the end of a line. -/
theorem placeAfter_render_iff {place : Nat × Nat} (room : HasRoom place (render items)) :
    placeAfter place.1 place.2 (render items).toList = items.foldl countedAfter place ↔
      ∀ item ∈ items, item.breaksLine = false := by
  constructor
  · intro same item mem
    by_contra broken
    have fewer := counted_line_lt place mem (Bool.eq_true_of_not_eq_false broken)
    rw [same] at fewer
    exact Nat.lt_irrefl _ fewer
  · exact fun flat => placeAfter_render flat room

end Item

end MacroScript
