import MacroScript.Proofs.LineIndex
import MacroScript.Token.Scan

/-!
# Where the tokens of a text stand

Between the tokens of a text stands trivia: blanks, line ends, comments that end with their line and
comments that are closed.  `Scans` says how a text is scanned, word by word with the trivia before
each, to the end of the text or to a piece of it that begins no token.  Everything about the tokens
of a text follows from it: each ends before the next begins, and none but the end of input is empty.
No token of a text has a color.  The end of input comes last, and only there.
-/

namespace MacroScript

open MacroScript.Text

/-! ## Trivia -/

/-- Trivia before the rest of a text.  A comment that ends with its line stops before the end of
the line, and a closed comment at the first closing mark. -/
inductive Trivia (after : List Char) : List Char → Prop
  | nil : Trivia after []
  | separator {c : Char} {rest : List Char}
      (separates : (Lexeme.isBlank c || isLineTerminator c) = true) (more : Trivia after rest) :
      Trivia after (c :: rest)
  | lineComment {body rest : List Char} (inLine : ∀ c ∈ body, isLineTerminator c = false)
      (stops : ∀ c, (rest ++ after).head? = some c → isLineTerminator c = true)
      (more : Trivia after rest) : Trivia after ('/' :: '/' :: (body ++ rest))
  | blockComment {body rest : List Char} (unclosed : ¬ ['*', '/'] <:+: body)
      (more : Trivia after rest) : Trivia after ('/' :: '*' :: (body ++ '*' :: '/' :: rest))

/-! ## Recognized words -/

namespace Lexeme

/-- What was recognized is not empty. -/
def Advances (found : Option Nat) : Prop :=
  ∀ length ∈ found, 0 < length

theorem advances_none : Advances none :=
  nofun

theorem advances_some {length : Nat} (pos : 0 < length) : Advances (some length) := by
  rintro _ ⟨⟩
  exact pos

theorem advances_map (found : Option Nat) {f : Nat → Nat} (pos : ∀ length, 0 < f length) :
    Advances (found.map f) := by
  cases found with
  | none => exact advances_none
  | some length => exact advances_some (pos length)

theorem forall_mem_orElse {α : Type} {P : α → Prop} {first second : Option α}
    (one : ∀ found ∈ first, P found) (other : ∀ found ∈ second, P found) :
    ∀ found ∈ (first <|> second), P found := by
  cases first with
  | none => exact other
  | some value => exact one

section Recognizers

variable (text : List Char)

theorem advances_identifierLength? : Advances (identifierLength? text) := by
  cases text with
  | nil => exact advances_none
  | cons c rest =>
    rw [identifierLength?]
    split
    · exact advances_some (Nat.succ_pos _)
    · exact advances_none

theorem advances_digits? (isDigit : Char → Bool) : Advances (digits? isDigit text) := by
  cases text with
  | nil => exact advances_none
  | cons c rest =>
    rw [digits?]
    split
    · exact advances_some (Nat.succ_pos _)
    · exact advances_none

theorem advances_radixInteger? (lower upper : Char) (isDigit : Char → Bool) :
    Advances (radixInteger? lower upper isDigit text) := by
  unfold radixInteger?
  split
  · split
    · exact advances_map _ fun _ => Nat.succ_pos _
    · exact advances_none
  · exact advances_none

theorem advances_prefixedInteger? : Advances (prefixedInteger? text) :=
  forall_mem_orElse (advances_radixInteger? text _ _ _)
    (forall_mem_orElse (advances_radixInteger? text _ _ _) (advances_radixInteger? text _ _ _))

theorem advances_mantissa? : Advances (mantissa? text) := by
  unfold mantissa?
  split
  · rename_i whole found
    have pos := advances_digits? text Char.isDigit whole found
    split
    · exact advances_some (by omega)
    · exact advances_some pos
  · split
    · exact advances_map _ fun _ => Nat.succ_pos _
    · exact advances_none

theorem advances_decimal? : Advances (decimal? text) := by
  intro length mem
  obtain ⟨front, found, rfl⟩ := Option.map_eq_some_iff.mp mem
  exact Nat.add_pos_left (advances_mantissa? text front found) _

theorem advances_bigint? : Advances (bigint? text) := by
  unfold bigint?
  split
  · split
    · split
      · exact advances_none
      · exact advances_some (Nat.succ_pos _)
    · exact advances_none
  · exact advances_none

theorem advances_number? : Advances (number? text) := by
  unfold number?
  split
  · rename_i length found
    split
    · exact advances_none
    · exact advances_some
        (forall_mem_orElse (advances_prefixedInteger? text) (advances_decimal? text) length found)
  · exact advances_none

theorem advances_string? : Advances (string? text) := by
  unfold string?
  split
  · exact advances_map _ fun _ => Nat.succ_pos _
  · exact advances_map _ fun _ => Nat.succ_pos _
  · exact advances_none

theorem advances_regex? : Advances (regex? text) := by
  unfold regex?
  split
  · exact advances_none
  · exact advances_none
  · exact advances_map _ fun _ => Nat.add_pos_left (Nat.succ_pos _) _
  · exact advances_none

theorem advances_punctuator? : Advances (punctuator? text) := by
  intro length mem
  obtain ⟨punctuator, found, rfl⟩ := Option.map_eq_some_iff.mp mem
  have written : ∀ punctuator ∈ punctuators, 0 < punctuator.length := by decide
  exact written punctuator (List.mem_of_find?_eq_some found)

end Recognizers

/-- A word that is not empty was recognized by a rule for tokens. -/
structure IsWord (found : Rule × Nat) : Prop where
  pos : 0 < found.2
  kind : ∀ word, ∃ kind, found.1.kind? word = some kind ∧ kind ≠ .eof

theorem isWord_map {rule : Rule} {lengths : Option Nat} (advances : Advances lengths)
    (kind : ∀ word, ∃ kind, rule.kind? word = some kind ∧ kind ≠ .eof) :
    ∀ found ∈ lengths.map (rule, ·), IsWord found := by
  rintro found mem
  obtain ⟨length, known, rfl⟩ := Option.map_eq_some_iff.mp mem
  exact ⟨advances length known, kind⟩

theorem isWord_lexeme? (regexAllowed : Bool) (text : List Char) :
    ∀ found ∈ lexeme? regexAllowed text, IsWord found := by
  refine forall_mem_orElse ?_ (forall_mem_orElse ?_ (forall_mem_orElse ?_ (forall_mem_orElse ?_
    (forall_mem_orElse ?_ ?_))))
  · split
    · exact isWord_map (advances_regex? text) fun _ => ⟨_, rfl, nofun⟩
    · nofun
  · exact isWord_map (advances_bigint? text) fun _ => ⟨_, rfl, nofun⟩
  · exact isWord_map (advances_number? text) fun _ => ⟨_, rfl, nofun⟩
  · exact isWord_map (advances_string? text) fun _ => ⟨_, rfl, nofun⟩
  · refine isWord_map (advances_identifierLength? text) fun word => ⟨_, rfl, ?_⟩
    split <;> nofun
  · exact isWord_map (advances_punctuator? text) fun _ => ⟨_, rfl, nofun⟩

end Lexeme

namespace Scan

variable {offset : Nat} {tokens : List Token}

/-- A text is split into the trivia at its front and a rest. -/
theorem exists_trivia (text : List Char) :
    ∃ gap rest, text = gap ++ rest ∧ gap.length = Lexeme.triviaLength text ∧ Trivia rest gap := by
  -- The two other motives are for texts inside a comment of either kind.
  refine Lexeme.triviaLength.induct
    (fun text => ∃ gap rest, text = gap ++ rest ∧ gap.length = Lexeme.triviaLength text ∧
      Trivia rest gap)
    (fun text => ∀ length, Lexeme.blockCommentLength? text = some length →
      ∃ body gap rest, text = body ++ '*' :: '/' :: (gap ++ rest) ∧
        length = body.length + (gap.length + 2) ∧ ¬ ['*', '/'] <:+: body ∧ Trivia rest gap)
    (fun text => ∃ body gap rest, text = body ++ (gap ++ rest) ∧
      body.length + gap.length = Lexeme.lineCommentLength text ∧
        (∀ c ∈ body, isLineTerminator c = false) ∧
          (∀ c, (gap ++ rest).head? = some c → isLineTerminator c = true) ∧
            Trivia rest gap)
    ?_ ?_ ?_ ?_ ?_ ?_ ?_ ?_ ?_ ?_ ?_ ?_ text
  · exact ⟨[], [], rfl, rfl, .nil⟩
  · rintro _ ⟨body, gap, rest, rfl, length, inLine, stops, trivia⟩
    refine ⟨'/' :: '/' :: (body ++ gap), rest, by simp, ?_, .lineComment inLine stops trivia⟩
    simp [Lexeme.triviaLength, ← length]
  · intro _ length found inside
    obtain ⟨body, gap, rest, rfl, rfl, unclosed, trivia⟩ := inside length found
    refine ⟨'/' :: '*' :: (body ++ '*' :: '/' :: gap), rest, by simp, ?_,
      .blockComment unclosed trivia⟩
    simp [Lexeme.triviaLength, found]
  · intro rest found _
    have stopped : Lexeme.triviaLength ('/' :: '*' :: rest) = 0 := by
      simp [Lexeme.triviaLength, found]
    exact ⟨[], _, rfl, stopped.symm, .nil⟩
  · rintro c _ noLine noBlock separates ⟨gap, rest, rfl, length, trivia⟩
    refine ⟨c :: gap, rest, rfl, ?_, .separator separates trivia⟩
    rw [Lexeme.triviaLength, if_pos separates, List.length_cons, length]
    · exact noLine
    · exact noBlock
  · intro c rest noLine noBlock begins
    have stopped : Lexeme.triviaLength (c :: rest) = 0 := by
      rw [Lexeme.triviaLength, if_neg begins]
      · exact noLine
      · exact noBlock
    exact ⟨[], _, rfl, stopped.symm, .nil⟩
  · intro length found
    cases found
  · rintro _ ⟨gap, rest, rfl, length, trivia⟩ _ found
    rw [Lexeme.blockCommentLength?, ← length] at found
    exact ⟨[], gap, rest, rfl, by simpa using (Option.some.inj found).symm, by simp, trivia⟩
  · intro c text open_ inside length found
    rw [Lexeme.blockCommentLength?, Option.map_eq_some_iff] at found
    · obtain ⟨shorter, shorterFound, rfl⟩ := found
      obtain ⟨body, gap, rest, rfl, rfl, unclosed, trivia⟩ := inside shorter shorterFound
      refine ⟨c :: body, gap, rest, rfl, by simp; omega, ?_, trivia⟩
      rw [List.infix_cons_iff, List.prefix_cons_iff]
      rintro (here | later)
      · rcases here with impossible | ⟨more, same, more_prefix⟩
        · cases impossible
        · obtain ⟨rfl, rfl⟩ := List.cons.inj same
          obtain ⟨others, rfl⟩ := more_prefix
          exact open_ _ rfl rfl
      · exact unclosed later
    · exact open_
  · exact ⟨[], [], [], rfl, rfl, by simp, by simp, .nil⟩
  · rintro c _ ends ⟨gap, rest, rfl, length, trivia⟩
    refine ⟨[], c :: gap, rest, rfl, ?_, by simp, by simp [ends],
      .separator (by simp [ends]) trivia⟩
    simp [Lexeme.lineCommentLength, ends, length]
  · rintro c _ goesOn ⟨body, gap, rest, rfl, length, inLine, stops, trivia⟩
    refine ⟨c :: body, gap, rest, rfl, ?_, ?_, stops, trivia⟩
    · rw [Lexeme.lineCommentLength, if_neg goesOn, ← length, List.length_cons]
      omega
    · exact List.forall_mem_cons.mpr ⟨by simpa using goesOn, inLine⟩

/-! ## Scanning word by word -/

/-- A word at a place of a text. -/
def wordAt (kind : TokenKind) (place : Position) (word : List Char) (newline : Bool) : Token where
  kind
  text := String.ofList word
  span := place.narrowed.spanOf (byteLength word)
  newlineBefore := newline

/-- Scanning the text at a place comes to the answer. -/
inductive Scans : Position → List Char → Except Fault (List Token) → Prop
  | finish {position : Position} {gap : List Char} (trivia : Trivia [] gap) :
      Scans position gap (.ok [wordAt .eof (position.behind gap []) []
        (gap.any isLineTerminator)])
  | word {position : Position} {gap word rest : List Char} {kind : TokenKind}
      {answer : Except Fault (List Token)} (trivia : Trivia (word ++ rest) gap)
      (nonempty : word ≠ []) (notEnd : kind ≠ .eof)
      (later : Scans ((position.behind gap (word ++ rest)).behind word rest) rest answer) :
      Scans position (gap ++ (word ++ rest)) (answer.map (wordAt kind
        (position.behind gap (word ++ rest)) word (gap.any isLineTerminator) :: ·))
  | complain {position : Position} {gap word rest : List Char} (problem : SourceProblem)
      (trivia : Trivia (word ++ rest) gap) (nonempty : word ≠ []) :
      Scans position (gap ++ (word ++ rest)) (.error (.malformed
        ((position.behind gap (word ++ rest)).narrowed.spanOf (byteLength word)) problem))

section Scanner

variable {place : Nat → Position} {text : List Char} {position : Position}

theorem exists_of_opensComment (opens : opensComment text = true) :
    ∃ rest, text = ['/', '*'] ++ rest := by
  unfold opensComment at opens
  split at opens
  · exact ⟨_, rfl⟩
  · cases opens

/-- The offsets of a text at a place are located as walking the text does. -/
def Locates (place : Nat → Position) (position : Position) (text : List Char) : Prop :=
  ∀ before after, text = before ++ after →
    place (position.offset + byteLength before) = (position.behind before after).narrowed

theorem Locates.behind {before after : List Char}
    (locates : Locates place position (before ++ after)) :
    Locates place (position.behind before after) after := by
  rintro inner rest rfl
  rw [Position.behind_offset, Nat.add_assoc, ← byteLength_append, ← Position.behind_append]
  exact locates (before ++ inner) rest (List.append_assoc _ _ _).symm

/-- The scanner works word by word.  A round passes over the trivia and over a word that is not
empty, so there are more rounds than characters in what is left. -/
theorem scans_tokensFrom {rounds : Nat} (previous : Option Token)
    (locates : Locates place position text) (enough : text.length < rounds) :
    Scans position text (tokensFrom place rounds previous position.offset text) := by
  induction rounds generalizing previous position text with
  | zero => exact absurd enough (Nat.not_lt_zero _)
  | succ rounds ih =>
    obtain ⟨gap, rest, rfl, length, trivia⟩ := exists_trivia text
    rw [tokensFrom, ← length, List.take_left, List.drop_left]
    simp only
    cases rest with
    | nil =>
      rw [List.append_nil] at locates ⊢
      rw [locates gap [] (List.append_nil _).symm]
      exact .finish trivia
    | cons c rest =>
      have later := locates.behind
      rw [locates gap _ rfl]
      simp only
      split
      · rename_i opens
        obtain ⟨after, opened⟩ := exists_of_opensComment opens
        rw [opened] at trivia ⊢
        exact .complain _ trivia (by simp)
      · split
        · change Scans position (gap ++ ([c] ++ rest)) _
          exact .complain _ trivia (by simp)
        · rename_i rule length found
          have isWord := Lexeme.isWord_lexeme? _ _ _ found
          obtain ⟨kind, known, notEnd⟩ := isWord.kind ((c :: rest).take length)
          have nonempty : (c :: rest).take length ≠ [] := by simpa using Nat.ne_of_gt isWord.pos
          have taken := (c :: rest).take_append_drop length
          rw [known]
          generalize (c :: rest).take length = word at *
          generalize (c :: rest).drop length = after at *
          rw [← taken] at trivia later enough ⊢
          have reached : position.offset + byteLength gap + byteLength word =
              ((position.behind gap (word ++ after)).behind word after).offset := by
            rw [Position.behind_offset, Position.behind_offset]
          simp only
          rw [reached]
          refine .word trivia nonempty notEnd (ih _ (Locates.behind later) ?_)
          have size := List.length_pos_iff.mpr nonempty
          simp only [List.length_append] at enough
          omega

/-- Rounds beyond the length of the text are not needed. -/
theorem tokensFrom_of_lt {rounds more : Nat} (previous : Option Token) (offset : Nat)
    (enough : text.length < rounds) (enoughToo : text.length < more) :
    tokensFrom place rounds previous offset text = tokensFrom place more previous offset text := by
  induction rounds generalizing more previous offset text with
  | zero => exact absurd enough (Nat.not_lt_zero _)
  | succ rounds ih =>
    cases more with
    | zero => exact absurd enoughToo (Nat.not_lt_zero _)
    | succ more =>
      rw [tokensFrom, tokensFrom]
      simp only
      split
      · rfl
      · rename_i c rest behind
        split
        · rfl
        · split
          · rfl
          · rename_i rule length found
            have advances := (Lexeme.isWord_lexeme? _ _ _ found).pos
            have left : ((c :: rest).drop length).length < text.length := by
              have size := congrArg List.length behind
              rw [List.length_drop] at size ⊢
              simp only [List.length_cons] at size ⊢
              omega
            split
            · rfl
            · rw [ih _ _ (Nat.lt_of_lt_of_le left (Nat.le_of_lt_succ enough))
                (Nat.lt_of_lt_of_le left (Nat.le_of_lt_succ enoughToo))]

end Scanner

/-! ## Tokens in order -/

/-- Tokens that stand one behind the other from an offset on, without colors. -/
structure Scanned (offset : Nat) (tokens : List Token) : Prop where
  offset_le : ∀ token ∈ tokens, offset ≤ token.span.start
  ordered : tokens.Pairwise fun first second => first.span.stop ≤ second.span.start
  start_le_stop : ∀ token ∈ tokens, token.span.start ≤ token.span.stop
  nonempty : ∀ token ∈ tokens, token.isEnd = false → token.span.start < token.span.stop
  plain : ∀ token ∈ tokens, token.color = none

theorem Scanned.mono {lower : Nat} (scanned : Scanned offset tokens) (le : lower ≤ offset) :
    Scanned lower tokens :=
  { scanned with offset_le := fun token mem => Nat.le_trans le (scanned.offset_le token mem) }

/-- A token before tokens that begin behind it. -/
theorem Scanned.cons {token : Token} (start : token.span.start = offset)
    (nonempty : token.span.start < token.span.stop) (plain : token.color = none)
    (scanned : Scanned token.span.stop tokens) :
    Scanned offset (token :: tokens) where
  offset_le := by
    intro other mem
    rcases List.mem_cons.mp mem with rfl | later
    · exact Nat.le_of_eq start.symm
    · rw [← start]
      exact Nat.le_trans (Nat.le_of_lt nonempty) (scanned.offset_le other later)
  ordered := List.pairwise_cons.mpr ⟨scanned.offset_le, scanned.ordered⟩
  start_le_stop := List.forall_mem_cons.mpr ⟨Nat.le_of_lt nonempty, scanned.start_le_stop⟩
  nonempty := List.forall_mem_cons.mpr ⟨fun _ => nonempty, scanned.nonempty⟩
  plain := List.forall_mem_cons.mpr ⟨plain, scanned.plain⟩

/-- A token that is no end of input begins before all tokens behind it. -/
theorem Scanned.start_lt {before after : List Token} {first second : Token}
    (scanned : Scanned offset (before ++ first :: after)) (notEnd : first.isEnd = false)
    (later : second ∈ after) : first.span.start < second.span.start := by
  have ordered := (List.pairwise_append.mp scanned.ordered).2.1
  have follows := (List.pairwise_cons.mp ordered).1 second later
  exact Nat.lt_of_lt_of_le (scanned.nonempty first (by simp) notEnd) follows

namespace Scans

variable {position : Position} {text : List Char} {answer : Except Fault (List Token)}
variable (scans : Scans position text answer)
include scans

/-- Every token is a word of the text and has its place. -/
theorem exists_split (run : answer = .ok tokens) {token : Token} (mem : token ∈ tokens) :
    ∃ before word after, text = before ++ word ++ after ∧ token.text = String.ofList word ∧
      token.span = (position.behind before (word ++ after)).narrowed.spanOf (byteLength word) := by
  induction scans generalizing tokens with
  | @finish position gap trivia =>
    obtain rfl := Except.ok.inj run
    obtain rfl := List.mem_singleton.mp mem
    exact ⟨gap, [], [], by simp, rfl, rfl⟩
  | @word position gap word rest kind answer trivia nonempty notEnd later ih =>
    cases answer with
    | error fault => cases run
    | ok others =>
      obtain rfl := Except.ok.inj run
      rcases List.mem_cons.mp mem with rfl | inRest
      · exact ⟨gap, word, rest, by simp, rfl, rfl⟩
      · obtain ⟨before, inner, after, rfl, text, span⟩ := ih rfl inRest
        refine ⟨gap ++ word ++ before, inner, after, by simp, text, ?_⟩
        rw [span, Position.behind_append, Position.behind_append, List.append_assoc]
  | complain => cases run

theorem scanned (run : answer = .ok tokens) : Scanned position.offset tokens := by
  induction scans generalizing tokens with
  | finish trivia =>
    obtain rfl := Except.ok.inj run
    constructor <;> simp [wordAt, Position.spanOf, Position.behind_offset, Token.isEnd]
  | @word position gap word rest kind answer trivia nonempty notEnd later ih =>
    cases answer with
    | error fault => cases run
    | ok others =>
      obtain rfl := Except.ok.inj run
      have behind := ih rfl
      rw [Position.behind_offset] at behind
      refine (Scanned.cons rfl ?_ rfl behind).mono ?_
      · exact Nat.lt_add_of_pos_right (byteLength_pos nonempty)
      · rw [wordAt, Position.spanOf, Position.narrowed_offset, Position.behind_offset]
        exact Nat.le_add_right _ _
  | complain => cases run

/-- The end of input comes behind all words of a text. -/
theorem exists_finish (run : answer = .ok tokens) :
    ∃ words finish, tokens = words ++ [finish] ∧ finish.isEnd = true ∧
      ∀ word ∈ words, word.isEnd = false := by
  induction scans generalizing tokens with
  | finish trivia =>
    obtain rfl := Except.ok.inj run
    exact ⟨[], _, rfl, rfl, by simp⟩
  | @word position gap word rest kind answer trivia nonempty notEnd later ih =>
    cases answer with
    | error fault => cases run
    | ok others =>
      obtain rfl := Except.ok.inj run
      obtain ⟨words, finish, rfl, isEnd, inner⟩ := ih rfl
      refine ⟨_ :: words, finish, rfl, isEnd, List.forall_mem_cons.mpr ⟨?_, inner⟩⟩
      exact beq_eq_false_iff_ne.mpr notEnd
  | complain => cases run

end Scans

end Scan

section Tokenize

variable {source : String} {tokens : List Token}

theorem scans_tokenize (source : String) :
    Scan.Scans .first source.toList (tokenize source) := by
  refine Scan.scans_tokensFrom none ?_ (Nat.lt_succ_self _)
  rintro before after split
  rw [split, Position.first, Nat.zero_add]
  exact LineIndex.locate_ofText before after

theorem exists_split_of_mem_tokenize (run : tokenize source = .ok tokens) {token : Token}
    (mem : token ∈ tokens) :
    ∃ before word after, source.toList = before ++ word ++ after ∧
      token.text = String.ofList word ∧
        token.span =
          (Position.first.behind before (word ++ after)).narrowed.spanOf (byteLength word) :=
  (scans_tokenize source).exists_split run mem

theorem scanned_tokenize (run : tokenize source = .ok tokens) : Scan.Scanned 0 tokens :=
  (scans_tokenize source).scanned run

theorem exists_finish_tokenize (run : tokenize source = .ok tokens) :
    ∃ words finish, tokens = words ++ [finish] ∧ finish.isEnd = true ∧
      ∀ word ∈ words, word.isEnd = false :=
  (scans_tokenize source).exists_finish run

end Tokenize

end MacroScript
