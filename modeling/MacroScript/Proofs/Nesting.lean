import MacroScript.Proofs.Extent.Grammar
import MacroScript.Proofs.Lossless

/-!
# Spans nest

The nodes of a program are arranged on the tokens of its source.  The tokens stand one behind the
other in the text, so what holds of indices of tokens holds of places in the text too: a node begins
and ends with a token, its parts lie inside it, and parts that follow each other are apart.
-/

namespace MacroScript

open MacroScript.Extent MacroScript.Grammar MacroScript.Outcome

/-- The span is a part of the source that runs from the start of a token, whose line and column it
has, to the end of a token. -/
structure Span.Delimited (span : Span) (source : String) (tokens : List Token) : Prop where
  nonempty : span.start < span.stop
  inside : span.stop ≤ source.utf8ByteSize
  begins : ∃ token ∈ tokens, token.span.start = span.start ∧ token.span.line = span.line ∧
    token.span.column = span.column
  ends : ∃ token ∈ tokens, token.span.stop = span.stop

/-- All nodes of an outline are delimited by tokens.  The parts of each node lie inside it, one
behind the other. -/
inductive Outline.Nested (source : String) (tokens : List Token) : Outline → Prop
  | intro {outline : Outline} (delimited : outline.span.Delimited source tokens)
      (inside : ∀ part ∈ outline.parts, part.span.Within outline.span)
      (ordered : outline.parts.Pairwise fun first second => first.span.stop ≤ second.span.start)
      (nested : ∀ part ∈ outline.parts, Nested source tokens part) : Nested source tokens outline

/-! ## Pages of a source -/

/-- The tokens of the page stand one behind the other in the source. -/
structure Extent.Page.OfSource {e : Extent} (page : Page e) (source : String)
    (tokens : List Token) : Prop where
  mem : ∀ index, index < page.size → page.tokenAt index ∈ tokens
  nonempty : ∀ index, index < page.size →
    (page.tokenAt index).span.start < (page.tokenAt index).span.stop
  inside : ∀ index, index < page.size → (page.tokenAt index).span.stop ≤ source.utf8ByteSize
  ordered : ∀ {first second}, first < second → second < page.size →
    (page.tokenAt first).span.stop ≤ (page.tokenAt second).span.start

namespace Extent.Page.OfSource

variable {e : Extent} {page : Page e} {source : String} {tokens : List Token}
  (ofSource : page.OfSource source tokens) {first second next low high : Nat} {span : Span}

include ofSource

theorem start_le (le : first ≤ second) (inside : second < page.size) :
    (page.tokenAt first).span.start ≤ (page.tokenAt second).span.start := by
  rcases Nat.eq_or_lt_of_le le with rfl | lt
  · exact Nat.le_refl _
  · exact Nat.le_trans (Nat.le_of_lt (ofSource.nonempty _ (Nat.lt_trans lt inside)))
      (ofSource.ordered lt inside)

theorem stop_le (le : first ≤ second) (inside : second < page.size) :
    (page.tokenAt first).span.stop ≤ (page.tokenAt second).span.stop := by
  rcases Nat.eq_or_lt_of_le le with rfl | lt
  · exact Nat.le_refl _
  · exact Nat.le_trans (ofSource.ordered lt inside) (Nat.le_of_lt (ofSource.nonempty _ inside))

/-- The tokens with which a node begins and ends. -/
theorem exists_ends (covers : page.Covers first next span) :
    ∃ last, next = last + 1 ∧ first ≤ last ∧ last < page.size ∧
      span = { (page.tokenAt first).span with stop := (page.tokenAt last).span.stop } := by
  cases covers with
  | token inside => exact ⟨first, rfl, Nat.le_refl _, inside, rfl⟩
  | @tokens last ordered inside =>
    refine ⟨last, rfl, ordered, inside, ?_⟩
    have behind : (page.tokenAt first).span.start ≤ (page.tokenAt last).span.stop :=
      Nat.le_trans (ofSource.start_le ordered inside) (Nat.le_of_lt (ofSource.nonempty _ inside))
    rw [Span.through, Nat.max_eq_left behind]

theorem delimited (covers : page.Covers first next span) : span.Delimited source tokens := by
  obtain ⟨last, -, le, inside, rfl⟩ := ofSource.exists_ends covers
  have firstInside := Nat.lt_of_le_of_lt le inside
  refine ⟨?_, ofSource.inside last inside, ⟨_, ofSource.mem first firstInside, rfl, rfl, rfl⟩,
    ⟨_, ofSource.mem last inside, rfl⟩⟩
  exact Nat.lt_of_lt_of_le (ofSource.nonempty first firstInside) (ofSource.stop_le le inside)

/-- A node among the tokens of another one lies inside it. -/
theorem within {inner outer : Span} (innerCovers : page.Covers low high inner)
    (outerCovers : page.Covers first next outer) (begins : first ≤ low) (ends : high ≤ next) :
    inner.Within outer := by
  obtain ⟨innerLast, rfl, innerLe, innerInside, rfl⟩ := ofSource.exists_ends innerCovers
  obtain ⟨last, rfl, -, inside, rfl⟩ := ofSource.exists_ends outerCovers
  exact ⟨ofSource.start_le begins (Nat.lt_of_le_of_lt innerLe innerInside),
    ofSource.stop_le (Nat.le_of_succ_le_succ ends) inside⟩

/-- A node behind the tokens of another one begins behind it. -/
theorem apart {one two : Span} (oneCovers : page.Covers first next one)
    (twoCovers : page.Covers low high two) (le : next ≤ low) : one.stop ≤ two.start := by
  obtain ⟨last, rfl, -, -, rfl⟩ := ofSource.exists_ends oneCovers
  obtain ⟨_, -, lowLe, inside, rfl⟩ := ofSource.exists_ends twoCovers
  exact ofSource.ordered le (Nat.lt_of_le_of_lt lowLe inside)

/-- Nodes that are arranged on the page are nested, and they are apart from each other. -/
theorem nested {low high : Nat} {outlines : List Outline}
    (arranged : page.Arranged low high outlines) :
    (∀ outline ∈ outlines, outline.Nested source tokens ∧
      ∃ first next, low ≤ first ∧ next ≤ high ∧ page.Covers first next outline.span) ∧
    outlines.Pairwise fun first second => first.span.stop ≤ second.span.start := by
  -- One node in front of others that are known to be behind it.
  have step : ∀ {low first next high : Nat} {outline : Outline} {rest : List Outline},
      low ≤ first → page.Covers first next outline.span → outline.Nested source tokens →
      next ≤ high →
      ((∀ other ∈ rest, other.Nested source tokens ∧
        ∃ start stop, next ≤ start ∧ stop ≤ high ∧ page.Covers start stop other.span) ∧
        rest.Pairwise fun first second => first.span.stop ≤ second.span.start) →
      (∀ other ∈ outline :: rest, other.Nested source tokens ∧
        ∃ start stop, low ≤ start ∧ stop ≤ high ∧ page.Covers start stop other.span) ∧
        (outline :: rest).Pairwise fun first second => first.span.stop ≤ second.span.start := by
    intro low first next high outline rest le covers nested before later
    refine ⟨List.forall_mem_cons.mpr ⟨⟨nested, first, next, le, before, covers⟩, ?_⟩,
      List.pairwise_cons.mpr ⟨?_, later.2⟩⟩
    · intro other mem
      obtain ⟨otherNested, start, stop, begins, ends, otherCovers⟩ := later.1 other mem
      have passed := Nat.le_of_lt (Nat.lt_of_lt_of_le covers.lt begins)
      exact ⟨otherNested, start, stop, Nat.le_trans le passed, ends, otherCovers⟩
    · intro other mem
      obtain ⟨-, start, stop, begins, -, otherCovers⟩ := later.1 other mem
      exact ofSource.apart covers otherCovers begins
  induction arranged with
  | nil => simp
  | leaf le covers _ later ih =>
    have alone : Outline.Nested source tokens (.leaf _) :=
      ⟨ofSource.delimited covers, nofun, .nil, nofun⟩
    exact step le covers alone later.le ih
  | node le covers inner later innerIh ih =>
    refine step le covers ⟨ofSource.delimited covers, ?_, innerIh.2, ?_⟩ later.le ih
    · intro part mem
      obtain ⟨-, start, stop, begins, ends, partCovers⟩ := innerIh.1 part mem
      exact ofSource.within partCovers covers begins ends
    · exact fun part mem => (innerIh.1 part mem).1

end Extent.Page.OfSource

/-! ## Programs -/

/-- The words of a source are the tokens of a page, and they stand before its end. -/
theorem ofSource_of_tokenize {source : String} {tokens : List Token} {e : Extent} {page : Page e}
    (scanned : tokenize source = .ok tokens) (start : page.start = .ofTokens tokens) :
    page.OfSource source tokens := by
  have atEnd := ((scans_tokenize source).follows scanned (List.nil_append _).symm rfl).2.1
  have known := scanned_tokenize scanned
  obtain ⟨words, finish, rfl, isEnd, ordinary⟩ := exists_finish_tokenize scanned
  have whole : page.start = { tokens := words.toArray, finish } := by
    rw [start]
    simp [Cursor.ofTokens, isEnd]
  have size : page.size = words.length := by
    rw [Page.size, whole]
    simp
  have word : ∀ index (inside : index < words.length), page.tokenAt index = words[index] := by
    intro index inside
    rw [Page.tokenAt, whole]
    simp [Cursor.tokenAt, inside]
  have mem : ∀ index, index < page.size → page.tokenAt index ∈ words := by
    intro index inside
    rw [word index (size ▸ inside)]
    exact List.getElem_mem _
  obtain ⟨ordered, -, before⟩ := List.pairwise_append.mp known.ordered
  constructor
  · exact fun index inside => List.mem_append_left _ (mem index inside)
  · intro index inside
    exact known.nonempty _ (List.mem_append_left _ (mem index inside))
      (ordinary _ (mem index inside))
  · intro index inside
    rw [← (atEnd finish (by simp) isEnd).1]
    exact before _ (mem index inside) finish (by simp)
  · intro first second lt inside
    rw [size] at inside
    rw [word second inside, word first (Nat.lt_trans lt inside)]
    exact List.pairwise_iff_getElem.mp ordered _ _ _ _ lt

/-- A program without statements was read where the input ends. -/
theorem program_eq_empty {state after : State} {read : Program}
    (run : program state = .ok read after) (isEmpty : read.body = []) :
    state.cursor.peek.isEnd = true ∧
      read.span = state.cursor.peek.span.through state.cursor.previousSpan := by
  obtain ⟨start, _, ⟨⟩, bodyRun⟩ := bind_eq_ok_iff.mp run
  obtain ⟨bound, _, ⟨⟩, itemsRun⟩ := bind_eq_ok_iff.mp bodyRun
  obtain ⟨body, final, seriesRun, spanRun⟩ := bind_eq_ok_iff.mp itemsRun
  obtain ⟨span, _, ⟨⟩, ⟨⟩⟩ := bind_eq_ok_iff.mp spanRun
  obtain ⟨token, _, ⟨⟩, restRun⟩ := bind_eq_ok_iff.mp seriesRun
  simp only at isEmpty
  subst isEmpty
  by_cases isEnd : state.cursor.peek.isEnd = true
  · rw [if_pos isEnd] at restRun
    obtain ⟨-, rfl⟩ := pure_eq_ok_iff.mp restRun
    exact ⟨isEnd, rfl⟩
  · rw [if_neg isEnd, if_neg isEnd] at restRun
    obtain ⟨first, _, -, othersRun⟩ := bind_eq_ok_iff.mp restRun
    obtain ⟨others, _, -, lastRun⟩ := bind_eq_ok_iff.mp othersRun
    cases (pure_eq_ok_iff.mp lastRun).1

/-- The spans of a program nest.  Only the empty program is no node: its span is the place where
the input ends. -/
theorem spans_nest {source : String} {tokens : List Token} {program : Program}
    (scanned : tokenize source = .ok tokens) (read : parse source = .ok program) :
    (program.body ≠ [] → (Outline.ofBlock program).Nested source tokens) ∧
    (program.body = [] → ∃ finish, tokens = [finish] ∧ finish.isEnd = true ∧
      program.span = finish.span ∧ finish.span.start = source.utf8ByteSize ∧
        finish.span.stop = source.utf8ByteSize) := by
  constructor
  · intro nonempty
    have contains : Extent.all.ContainsTokens tokens := fun _ _ => trivial
    obtain ⟨page, start, index, contents⟩ := contents_of_parse scanned contains read
    have ofSource := ofSource_of_tokenize scanned start
    exact ((ofSource.nested (contents.whole nonempty).arranged).1 _ List.mem_cons_self).1
  · intro isEmpty
    have atEnd := ((scans_tokenize source).follows scanned (List.nil_append _).symm rfl).2.1
    obtain ⟨words, finish, rfl, isEnd, ordinary⟩ := exists_finish_tokenize scanned
    have whole : Cursor.ofTokens (words ++ [finish]) = { tokens := words.toArray, finish } := by
      simp [Cursor.ofTokens, isEnd]
    simp only [parse, scanned, bind, Except.bind, whole] at read
    split at read
    · rename_i result after run
      obtain rfl := Except.ok.inj read
      obtain ⟨stopped, span⟩ := program_eq_empty run isEmpty
      cases words with
      | cons word rest => exact Bool.noConfusion ((ordinary word (by simp)).symm.trans stopped)
      | nil =>
        obtain ⟨start, stop⟩ := atEnd finish (by simp) isEnd
        refine ⟨finish, rfl, isEnd, ?_, start, stop⟩
        have point : max finish.span.stop finish.span.start = finish.span.stop := by
          rw [start, stop, Nat.max_self]
        rw [span]
        show finish.span.through finish.span = finish.span
        rw [Span.through, point]
    · cases read

/-- A statement that begins behind a comment, with members of an expression in parentheses and
without a semicolon at its end. -/
def groupedMember : String :=
  "/* é */ (a)\n.b = [c, \x7b d \x7d] // e"

/-- The statement runs from its parenthesis to its last bracket, and what is assigned to from the
name between the parentheses. -/
theorem spans_nest_groupedMember :
    ∃ tokens program, tokenize groupedMember = .ok tokens ∧ parse groupedMember = .ok program ∧
      (Outline.ofBlock program).Nested groupedMember tokens ∧
      program.span = ⟨9, 28, 1, 8⟩ ∧
      (Outline.ofBlock program).parts.flatMap (fun stmt => stmt.parts.flatMap fun expr =>
        expr.parts.map Outline.span) = [⟨10, 15, 1, 9⟩, ⟨18, 28, 2, 5⟩] := by
  have seen : (parse groupedMember).toOption.map (fun program => (program.body.isEmpty,
      program.span, (Outline.ofBlock program).parts.flatMap fun stmt => stmt.parts.flatMap
        fun expr => expr.parts.map Outline.span)) =
      some (false, ⟨9, 28, 1, 8⟩, [⟨10, 15, 1, 9⟩, ⟨18, 28, 2, 5⟩]) := by
    decide +kernel
  obtain ⟨program, parsed, places⟩ := Option.map_eq_some_iff.mp seen
  have read := toOption_eq_some_iff.mp parsed
  obtain ⟨tokens, scanned, -⟩ := except_bind_eq_ok_iff.mp read
  simp only [Prod.mk.injEq, List.isEmpty_eq_false_iff] at places
  exact ⟨tokens, program, scanned, read, (spans_nest scanned read).1 places.1, places.2⟩

end MacroScript
