import MacroScript.Proofs.Scanning
import Mathlib.Data.String.Basic

/-!
# Scanning loses nothing

The tokens of a source are pieces of it, in order, with only trivia between them.  So the source is
what its tokens and the trivia before each of them are put together to.  A source that has no
tokens is rejected at the first piece of it that begins none.  The scan comes to its end by itself:
every round passes over a word that is not empty.
-/

namespace MacroScript

open MacroScript.Text

variable {source : String}

/-! ## Pieces of a source -/

/-- The text of a source between two offsets. -/
def textBetween (source : String) (start stop : Nat) : String :=
  String.Pos.Raw.extract source ⟨start⟩ ⟨stop⟩

/-- The text of a source at a span. -/
def Span.textIn (span : Span) (source : String) : String :=
  textBetween source span.start span.stop

theorem byteLength_eq_utf8Len (text : List Char) : byteLength text = String.utf8Len text := by
  induction text with
  | nil => rfl
  | cons c rest ih => rw [byteLength_cons, String.utf8Len_cons, ih, Nat.add_comm]

theorem byteLength_toList (source : String) : byteLength source.toList = source.utf8ByteSize := by
  rw [byteLength_eq_utf8Len, ← String.utf8ByteSize_ofList, String.ofList_toList]

/-- A word between two parts of the source is the text at its place. -/
theorem textBetween_of_split {before word after : List Char}
    (split : source.toList = before ++ word ++ after) :
    textBetween source (byteLength before) (byteLength before + byteLength word) =
      String.ofList word := by
  have whole : source = String.ofList (before ++ word ++ after) := by
    rw [← split, String.ofList_toList]
  rw [textBetween, whole, byteLength_eq_utf8Len, byteLength_eq_utf8Len]
  exact String.extract_of_valid before word after

/-- Every token of a source is the text at its span. -/
theorem text_of_tokenize {tokens : List Token} (run : tokenize source = .ok tokens) {token : Token}
    (mem : token ∈ tokens) : token.text = token.span.textIn source := by
  obtain ⟨before, word, after, split, text, span⟩ := exists_split_of_mem_tokenize run mem
  rw [text, span, Span.textIn, Position.spanOf, Position.narrowed_offset, Position.behind_offset,
    Position.first, Nat.zero_add, textBetween_of_split split]

/-! ## Tokens and the trivia before them -/

/-- Between an offset and a token stands trivia, and the token knows whether a line ends in it. -/
structure Token.Follows (token : Token) (source : String) (offset : Nat) : Prop where
  trivia : Trivia (textBetween source token.span.start source.utf8ByteSize).toList
    (textBetween source offset token.span.start).toList
  newline : token.newlineBefore = true ↔
    ∃ c ∈ (textBetween source offset token.span.start).toList, isLineTerminator c = true

/-- The tokens and the trivia between them make up the source. -/
structure Lossless (source : String) (tokens : List Token) : Prop where
  ends : ∃ words finish, tokens = words ++ [finish] ∧ (∀ word ∈ words, word.isEnd = false) ∧
    finish.isEnd = true ∧ finish.span.start = source.utf8ByteSize ∧
      finish.span.stop = source.utf8ByteSize
  words : ∀ token ∈ tokens, token.isEnd = false →
    token.text ≠ "" ∧ token.text = token.span.textIn source
  ordered : tokens.Pairwise fun first second => first.span.stop ≤ second.span.start
  /-- Each token follows the one before it, and the first one the start of the source. -/
  gaps : ∀ pair ∈ (0 :: tokens.map (·.span.stop)).zip tokens, pair.2.Follows source pair.1
  rounds : tokens.length ≤ source.length + 1

namespace Scan.Scans

variable {position : Position} {before text : List Char} {answer : Except Fault (List Token)}
  {tokens : List Token}

theorem follows_of_split {gap rest : List Char} {token : Token}
    (split : source.toList = before ++ gap ++ rest) (trivia : Trivia rest gap)
    (start : token.span.start = byteLength before + byteLength gap)
    (newline : token.newlineBefore = gap.any isLineTerminator) :
    token.Follows source (byteLength before) := by
  have size : source.utf8ByteSize = byteLength (before ++ gap) + byteLength rest := by
    rw [← byteLength_toList, split, byteLength_append]
  have later : source.toList = (before ++ gap) ++ rest ++ [] := by rw [split, List.append_nil]
  have restText := textBetween_of_split later
  have gapText := textBetween_of_split split
  rw [← size, byteLength_append] at restText
  constructor
  · rw [start, restText, gapText, String.toList_ofList, String.toList_ofList]
    exact trivia
  · rw [start, gapText, String.toList_ofList, newline, List.any_eq_true]

/-- Each token follows what was passed before it.  The part of the source before the text is the
part that has been passed. -/
theorem follows (scans : Scans position text answer) (run : answer = .ok tokens)
    (split : source.toList = before ++ text) (offset : position.offset = byteLength before) :
    (∀ pair ∈ (byteLength before :: tokens.map (·.span.stop)).zip tokens,
      pair.2.Follows source pair.1) ∧
    (∀ token ∈ tokens, token.isEnd = true →
      token.span.start = source.utf8ByteSize ∧ token.span.stop = source.utf8ByteSize) ∧
    tokens.length ≤ text.length + 1 := by
  induction scans generalizing before tokens with
  | @finish position gap trivia =>
    obtain rfl := Except.ok.inj run
    have start : (position.behind gap []).offset = byteLength before + byteLength gap := by
      rw [Position.behind_offset, offset]
    refine ⟨?_, ?_, by simp⟩
    · simp only [List.map_cons, List.map_nil, List.zip_cons_cons, List.zip_nil_right,
        List.mem_singleton, forall_eq]
      exact follows_of_split (by rw [split, List.append_nil]) trivia start rfl
    · simp only [List.mem_singleton, forall_eq]
      intro _
      have size : source.utf8ByteSize = byteLength before + byteLength gap := by
        rw [← byteLength_toList, split, byteLength_append]
      simp [wordAt, Position.spanOf, start, size]
  | @word position gap word rest kind answer trivia nonempty notEnd later ih =>
    cases answer with
    | error fault => cases run
    | ok others =>
      obtain rfl := Except.ok.inj run
      have start : (position.behind gap (word ++ rest)).offset =
          byteLength before + byteLength gap := by rw [Position.behind_offset, offset]
      have stop : ((position.behind gap (word ++ rest)).behind word rest).offset =
          byteLength (before ++ gap ++ word) := by
        rw [Position.behind_offset, start, byteLength_append, byteLength_append]
      have passed : source.toList = (before ++ gap ++ word) ++ rest := by
        rw [split]
        simp
      obtain ⟨gaps, finish, rounds⟩ := ih rfl passed stop
      refine ⟨?_, ?_, ?_⟩
      · rw [List.map_cons, List.zip_cons_cons, List.forall_mem_cons]
        refine ⟨follows_of_split (by rw [split, List.append_assoc]) trivia start rfl, ?_⟩
        rw [← stop, Position.behind_offset] at gaps
        exact gaps
      · refine List.forall_mem_cons.mpr ⟨?_, finish⟩
        intro isEnd
        exact absurd (beq_iff_eq.mp isEnd) notEnd
      · have size := List.length_pos_iff.mpr nonempty
        simp only [List.length_cons, List.length_append]
        omega
  | complain => cases run

/-- A text without tokens is rejected at a piece of it. -/
theorem exists_piece (scans : Scans position text answer) {fault : Fault}
    (run : answer = .error fault) :
    ∃ before word after problem, text = before ++ word ++ after ∧ word ≠ [] ∧
      fault = .malformed
        ((position.behind before (word ++ after)).narrowed.spanOf (byteLength word)) problem := by
  induction scans with
  | finish => cases run
  | @word position gap word rest kind answer trivia nonempty notEnd later ih =>
    cases answer with
    | ok others => cases run
    | error other =>
      obtain rfl := Except.error.inj run
      obtain ⟨before, piece, after, problem, rfl, written, rfl⟩ := ih rfl
      refine ⟨gap ++ word ++ before, piece, after, problem, by simp, written, ?_⟩
      rw [Position.behind_append, Position.behind_append, List.append_assoc]
  | @complain position gap word rest problem trivia nonempty =>
    obtain rfl := Except.error.inj run
    exact ⟨gap, word, rest, problem, by simp, nonempty, rfl⟩

end Scan.Scans

/-- Every source is split into tokens without loss, or rejected at a piece of it.  The scan ends
before it has used up the rounds that it is given: with any larger number of them it comes to the
same answer. -/
theorem tokenize_lossless (source : String) :
    ((∃ tokens, tokenize source = .ok tokens ∧ Lossless source tokens) ∨
      ∃ before word after problem, source.toList = before ++ word ++ after ∧ word ≠ [] ∧
        tokenize source = .error (.malformed
          ((Position.first.behind before (word ++ after)).narrowed.spanOf (byteLength word))
          problem)) ∧
    ∀ rounds, source.length < rounds →
      Scan.tokensFrom ((LineIndex.ofText source.toList).locate source.toList) rounds none 0
        source.toList = tokenize source := by
  have scans := scans_tokenize source
  refine ⟨?_, fun rounds enough =>
    Scan.tokensFrom_of_lt none 0 (by rwa [String.length_toList]) (Nat.lt_succ_self _)⟩
  cases run : tokenize source with
  | error fault =>
    obtain ⟨before, word, after, problem, split, nonempty, rfl⟩ := scans.exists_piece run
    exact .inr ⟨before, word, after, problem, split, nonempty, rfl⟩
  | ok tokens =>
    obtain ⟨gaps, atEnd, rounds⟩ := scans.follows run (List.nil_append _).symm rfl
    have scanned := scanned_tokenize run
    refine .inl ⟨tokens, rfl, ?_, ?_, scanned.ordered, gaps, ?_⟩
    · obtain ⟨words, finish, rfl, isEnd, ordinary⟩ := exists_finish_tokenize run
      exact ⟨words, finish, rfl, ordinary, isEnd, atEnd finish (by simp) isEnd⟩
    · intro token mem notEnd
      refine ⟨?_, text_of_tokenize run mem⟩
      obtain ⟨before, word, after, -, text, span⟩ := exists_split_of_mem_tokenize run mem
      have long := scanned.nonempty token mem notEnd
      rw [text, ne_eq, ← String.toList_eq_nil_iff, String.toList_ofList]
      rintro rfl
      simp [span, Position.spanOf] at long
    · rwa [String.length_toList] at rounds

/-- A source with both kinds of comments and with lines that end in three ways. -/
def commentedLines : String :=
  "// é\r\nx/**/= /*\u2028*/ 1;\ny"

theorem tokenize_lossless_commentedLines :
    ∃ tokens, tokenize commentedLines = .ok tokens ∧ Lossless commentedLines tokens ∧
      tokens.map (fun token => (token.text, token.newlineBefore)) =
        [("x", true), ("=", false), ("1", true), (";", false), ("y", true), ("", false)] := by
  have scanned : (tokenize commentedLines).toOption.map
      (List.map fun token => (token.text, token.newlineBefore)) =
        some [("x", true), ("=", false), ("1", true), (";", false), ("y", true), ("", false)] := by
    decide +kernel
  obtain ⟨answer, -⟩ := tokenize_lossless commentedLines
  rcases answer with ⟨tokens, run, lossless⟩ | ⟨_, _, _, _, -, -, run⟩
  · rw [run] at scanned
    exact ⟨tokens, run, lossless, Option.some.inj scanned⟩
  · rw [run] at scanned
    cases scanned

end MacroScript
