import MacroScript.Text.LineIndex
import Mathlib.Data.List.Induction
import Mathlib.Tactic.Common

/-!
# Line indices locate exactly

The place of an offset can be found without an index, by walking the text character by character.
Looking an offset up in the line index of a text comes to the same place, wherever a character ends.
-/

namespace MacroScript.Text

/-! ## Walking a text -/

namespace Position

/-- The place before the first character. -/
def first : Position :=
  ⟨0, 1, 0⟩

/-- The place after the character `c`, when `rest` follows it. -/
def next (position : Position) (c : Char) (rest : List Char) : Position :=
  if endsLine c rest then
    ⟨position.offset + c.utf8Size, position.line + 1, 0⟩
  else
    ⟨position.offset + c.utf8Size, position.line, position.column + 1⟩

@[simp]
theorem next_offset (position : Position) (c : Char) (rest : List Char) :
    (position.next c rest).offset = position.offset + c.utf8Size := by
  unfold next
  split <;> rfl

/-- The place behind the first part of a text. -/
def behind (position : Position) : (before after : List Char) → Position
  | [], _ => position
  | c :: before, after => (position.next c (before ++ after)).behind before after

variable (position : Position)

theorem behind_offset (before after : List Char) :
    (position.behind before after).offset = position.offset + byteLength before := by
  induction before generalizing position with
  | nil => rfl
  | cons c rest ih => rw [behind, ih, next_offset, byteLength_cons, Nat.add_assoc]

theorem behind_append (first second after : List Char) :
    position.behind (first ++ second) after =
      (position.behind first (second ++ after)).behind second after := by
  induction first generalizing position with
  | nil => rfl
  | cons c rest ih => rw [List.cons_append, behind, behind, ih, List.append_assoc]

theorem behind_concat (before : List Char) (c : Char) (after : List Char) :
    position.behind (before ++ [c]) after = (position.behind before (c :: after)).next c after :=
  behind_append position before [c] after

end Position

/-! ## Counting and halving -/

theorem byteLength_pos {text : List Char} (nonempty : text ≠ []) : 0 < byteLength text := by
  cases text with
  | nil => exact absurd rfl nonempty
  | cons c rest => exact Nat.add_pos_left c.utf8Size_pos _

theorem charactersIn?_append (before after : List Char) :
    charactersIn? (before ++ after) (byteLength before) = some before.length := by
  induction before with
  | nil => cases after <;> rfl
  | cons c rest ih =>
    have size := c.utf8Size_pos
    rw [List.cons_append, charactersIn?, if_pos (by simp), byteLength_cons,
      Nat.add_sub_cancel_left, ih]
    · rfl
    · simp only [byteLength_cons]
      omega

theorem charactersBetween?_append (front line after : List Char) :
    charactersBetween? (front ++ line ++ after) (byteLength front) (byteLength (front ++ line)) =
      some line.length := by
  have passed : charactersIn? (front ++ line ++ after) (byteLength front) = some front.length := by
    rw [List.append_assoc]
    exact charactersIn?_append front (line ++ after)
  have reached := charactersIn?_append (front ++ line) after
  rw [charactersBetween?, passed, reached]
  simp

/-- The test holds up to the point and nowhere behind it.  In every round the point stays within
what is left. -/
theorem partitionPoint_eq {test : Nat → Bool} {base size point : Nat} (above : base ≤ point)
    (below : point ≤ base + size)
    (divides : ∀ i, base ≤ i → i < base + size → (test i = true ↔ i < point)) :
    partitionPoint test base size = point := by
  fun_induction partitionPoint test base size with
  | case1 base => omega
  | case2 base holds _ =>
    have inside := (divides base (Nat.le_refl _) (by omega)).mp holds
    omega
  | case3 base fails _ =>
    have outside := mt (divides base (Nat.le_refl _) (by omega)).mpr fails
    omega
  | case4 base size nonempty several half holds ih =>
    have inside := (divides (base + half) (by omega) (by omega)).mp holds
    exact ih (by omega) (by omega) fun i first last => divides i (by omega) (by omega)
  | case5 base size nonempty several half fails ih =>
    have outside := mt (divides (base + half) (by omega) (by omega)).mpr fails
    exact ih above (by omega) fun i first last => divides i first (by omega)

/-- Members that are reached stand before those that are not. -/
theorem partitionPoint_append {reached others : List Nat} {offset : Nat}
    (atMost : ∀ start ∈ reached, start ≤ offset) (above : ∀ start ∈ others, offset < start) :
    partitionPoint (fun i => (reached ++ others)[i]?.any (· ≤ offset)) 0
      (reached ++ others).length = reached.length := by
  apply partitionPoint_eq (Nat.zero_le _) (by simp)
  intro i _ inside
  rw [List.length_append] at inside
  by_cases early : i < reached.length
  · rw [List.getElem?_append_left early, List.getElem?_eq_getElem early]
    simpa [early] using atMost _ (List.getElem_mem early)
  · have within : i - reached.length < others.length := by omega
    rw [List.getElem?_append_right (Nat.le_of_not_lt early), List.getElem?_eq_getElem within]
    simpa [early] using above _ (List.getElem_mem within)

namespace LineIndex

theorem lt_of_mem_startsFrom {offset start : Nat} {text : List Char}
    (mem : start ∈ startsFrom offset text) : offset < start := by
  induction text generalizing offset with
  | nil => cases mem
  | cons c rest ih =>
    have size := c.utf8Size_pos
    rw [startsFrom] at mem
    split at mem
    · rcases List.mem_cons.mp mem with rfl | later
      · omega
      · exact Nat.lt_of_le_of_lt (Nat.le_add_right _ _) (ih later)
    · exact Nat.lt_of_le_of_lt (Nat.le_add_right _ _) (ih mem)

/-- The lines that have begun within the first part of a text, and the last of them.  The induction
adds a character at the end of that part. -/
theorem exists_starts (before after : List Char) :
    ∃ begun front line, before = front ++ line ∧
      0 :: startsFrom 0 (before ++ after) = begun ++ startsFrom (byteLength before) after ∧
      begun.getLast? = some (byteLength front) ∧ (∀ start ∈ begun, start ≤ byteLength before) ∧
      Position.first.behind before after = ⟨byteLength before, begun.length, line.length⟩ := by
  induction before using List.reverseRecOn generalizing after with
  | nil => exact ⟨[0], [], [], rfl, rfl, rfl, by simp, rfl⟩
  | append_singleton before c ih =>
    obtain ⟨begun, front, line, split, starts, last, reached, place⟩ := ih (c :: after)
    rw [Position.behind_concat, place, Position.next, List.append_assoc, List.singleton_append,
      starts, startsFrom, byteLength_append]
    split
    · refine ⟨begun ++ [byteLength before + c.utf8Size], before ++ [c], [], by simp, by simp,
        by simp, ?_, by simp⟩
      intro start mem
      rcases List.mem_append.mp mem with old | new
      · exact Nat.le_trans (reached start old) (Nat.le_add_right _ _)
      · exact Nat.le_of_eq (by simpa using new)
    · refine ⟨begun, front, line ++ [c], by simp [split], by simp, last, ?_, by simp⟩
      exact fun start mem => Nat.le_trans (reached start mem) (Nat.le_add_right _ _)

/-- Looking an offset up comes to the place that walking there comes to, as far as it fits. -/
theorem locate_ofText (before after : List Char) :
    (ofText (before ++ after)).locate (before ++ after) (byteLength before) =
      (Position.first.behind before after).narrowed := by
  obtain ⟨begun, front, line, rfl, starts, last, reached, place⟩ := exists_starts before after
  have above : ∀ start ∈ startsFrom (byteLength (front ++ line)) after,
      byteLength (front ++ line) < start := fun _ mem => lt_of_mem_startsFrom mem
  have start : (begun ++ startsFrom (byteLength (front ++ line)) after)[begun.length - 1]? =
      some (byteLength front) := by
    have nonempty : begun ≠ [] := by
      rintro rfl
      cases last
    rw [List.getElem?_append_left (Nat.sub_one_lt_of_lt (List.length_pos_iff.mpr nonempty)),
      ← List.getLast?_eq_getElem?, last]
  rw [place, locate, ofText, starts]
  simp only [List.getElem?_toArray, List.size_toArray, partitionPoint_append reached above, start,
    Option.getD_some, charactersBetween?_append, Position.narrowed]

end LineIndex

end MacroScript.Text
