import MacroScript.Proofs.Balanced
import MacroScript.Transcript

/-!
# Templates as trees

A template is a sequence of tokens that are copied, of `$name` references and of groups, each
with a template as its content and with a separator.  `Template.Reads` says how tokens are
read as such a sequence: a group reaches from `$(` to the parenthesis that closes it, and the
token behind it is its separator.

Templates with balanced brackets can be read, unless a group misses its separator.
-/

namespace MacroScript

namespace Token

variable {first second : Token}

/-- The class and the text of a token. -/
def spelling (token : Token) : TokenKind × String :=
  (token.kind, token.text)

theorem sameAs_iff : first.sameAs second = true ↔ first.spelling = second.spelling := by
  simp [sameAs, spelling]

theorem isPunct_iff_spelling {token : Token} {text : String} :
    token.isPunct text = true ↔ token.spelling = (.punct, text) := by
  simp [isPunct, spelling]

theorem captureName?_congr (same : first.spelling = second.spelling) :
    first.captureName? = second.captureName? := by
  rw [spelling, spelling, Prod.mk.injEq] at same
  unfold captureName? isName
  rw [same.1, same.2]

/-- A list of tokens refers to the same variables however its tokens are placed. -/
theorem filterMap_captureName?_congr {first second : List Token}
    (same : first.map spelling = second.map spelling) :
    first.filterMap captureName? = second.filterMap captureName? := by
  induction first generalizing second with
  | nil => rw [List.map_eq_nil_iff.mp same.symm]
  | cons token rest ih =>
    obtain ⟨other, others, rfl, spelled, others_eq⟩ := List.map_eq_cons_iff.mp same.symm
    rw [List.filterMap_cons, List.filterMap_cons, captureName?_congr spelled, ih others_eq.symm]

theorem render_congr {first second : List Token}
    (same : first.map spelling = second.map spelling) : render first = render second := by
  have texts : first.map text = second.map text := by
    have mapped := congrArg (List.map Prod.snd) same
    rwa [List.map_map, List.map_map] at mapped
  have folded : ∀ tokens : List Token, render tokens = (tokens.map text).foldl
      (fun all text => if all.isEmpty then text else all ++ " " ++ text) "" := by
    intro tokens
    rw [render, List.foldl_map]
  rw [folded, folded, texts]

end Token

namespace Template

open MacroScript.Balanced

variable {token opening : Token} {rest template : List Token} {nodes : List Node}

/-- A part of a template. -/
inductive Node where
  /-- A token that is copied. -/
  | plain (token : Token)
  /-- A `$name` token. -/
  | reference (name : String) (placeholder : Token)
  /-- A group, with its `$` token and its separator. -/
  | group (dollar : Token) (content : List Node) (separator : Token)

mutual

/-- The tokens of a part, up to the place of the parentheses. -/
def Node.tokens : Node → List Token
  | .plain token => [token]
  | .reference _ placeholder => [placeholder]
  | .group dollar content separator =>
    dollar :: .synthetic "(" dollar :: Template.tokens content ++
      [.synthetic ")" dollar, separator]

/-- The tokens of a template, up to the places of parentheses. -/
def tokens : List Node → List Token
  | [] => []
  | node :: rest => node.tokens ++ Template.tokens rest

end

/-- Whether a token and those behind it start a group. -/
def startsGroup (token : Token) (rest : List Token) : Bool :=
  token.isWord "$" && rest.head?.any (·.isPunct "(")

theorem startsGroup_cons :
    startsGroup token (opening :: rest) = true ↔
      token.isWord "$" = true ∧ opening.isPunct "(" = true := by
  simp [startsGroup]

/-- The sign of a group is not a variable. -/
theorem captureName?_of_isDollar (isDollar : token.isWord "$" = true) :
    token.captureName? = none := by
  rw [Token.isWord, Bool.and_eq_true, beq_iff_eq, beq_iff_eq] at isDollar
  simp [Token.captureName?, isDollar.2]

/-- A punctuator stands for itself. -/
theorem plain_of_kind (kind : token.kind = .punct) (rest : List Token) :
    startsGroup token rest = false ∧ token.captureName? = none := by
  simp [startsGroup, Token.isWord, Token.captureName?, Token.isName, kind]

theorem exists_of_startsGroup (starts : startsGroup token rest = true) :
    ∃ opening inside, rest = opening :: inside ∧ token.isWord "$" = true ∧
      opening.isPunct "(" = true := by
  cases rest with
  | nil => simp [startsGroup] at starts
  | cons opening inside =>
    obtain ⟨isDollar, opens⟩ := startsGroup_cons.mp starts
    exact ⟨opening, inside, rfl, isDollar, opens⟩

/-- The tokens of a template are read as its parts. -/
inductive Reads : List Token → List Node → Prop
  | nil : Reads [] []
  | plain {token : Token} {rest : List Token} {nodes : List Node}
      (alone : startsGroup token rest = false) (ordinary : token.captureName? = none)
      (later : Reads rest nodes) : Reads (token :: rest) (.plain token :: nodes)
  | reference {token : Token} {rest : List Token} {nodes : List Node} {name : String}
      (named : token.captureName? = some name) (later : Reads rest nodes) :
      Reads (token :: rest) (.reference name token :: nodes)
  | group {dollar opening closing separator : Token} {inside rest : List Token}
      {content nodes : List Node} (isDollar : dollar.isWord "$" = true)
      (opens : opening.isPunct "(" = true) (closed : Closed inside)
      (closes : closing.isPunct ")" = true) (inner : Reads inside content)
      (later : Reads rest nodes) :
      Reads (dollar :: opening :: (inside ++ closing :: separator :: rest))
        (.group dollar content separator :: nodes)

/-- Some group of a template, at whatever depth, ends the template or the group around it, so that
no separator follows. -/
inductive MissesSeparator : List Token → Prop
  | last {dollar opening closing : Token} {inside : List Token}
      (isDollar : dollar.isWord "$" = true) (opens : opening.isPunct "(" = true)
      (closed : Closed inside) (closes : closing.isPunct ")" = true) :
      MissesSeparator (dollar :: opening :: (inside ++ [closing]))
  | inside {dollar opening closing : Token} {inside rest : List Token}
      (isDollar : dollar.isWord "$" = true) (opens : opening.isPunct "(" = true)
      (closed : Closed inside) (closes : closing.isPunct ")" = true)
      (misses : MissesSeparator inside) :
      MissesSeparator (dollar :: opening :: (inside ++ closing :: rest))
  | behind {dollar opening closing separator : Token} {inside rest : List Token}
      (isDollar : dollar.isWord "$" = true) (opens : opening.isPunct "(" = true)
      (closed : Closed inside) (closes : closing.isPunct ")" = true)
      (misses : MissesSeparator rest) :
      MissesSeparator (dollar :: opening :: (inside ++ closing :: separator :: rest))
  | later {token : Token} {rest : List Token} (alone : startsGroup token rest = false)
      (misses : MissesSeparator rest) : MissesSeparator (token :: rest)

/-- A template with balanced brackets can be read, unless a group misses its separator.  The part
of it that is left may close brackets that were opened before. -/
theorem exists_reads_of_within {inner : List String} (within : Within inner template)
    (separated : ¬MissesSeparator template) : ∃ nodes, Reads template nodes := by
  induction size : template.length using Nat.strongRecOn generalizing inner template with
  | _ size ih =>
    cases template with
    | nil => exact ⟨[], .nil⟩
    | cons token rest =>
      obtain ⟨outer, restWithin⟩ := within.exists_tail
      cases starts : startsGroup token rest with
      | true =>
        obtain ⟨opening, behind, rfl, isDollar, opens⟩ := exists_of_startsGroup starts
        have opensParen : opening.closer? = some ")" := by simp [Token.closer?, opens]
        obtain ⟨inside, closing, after, rfl, closed, closes, afterWithin⟩ :=
          restWithin.exists_of_opening opensParen
        simp only [List.length_cons, List.length_append] at size
        cases after with
        | nil => exact absurd (.last isDollar opens closed closes) separated
        | cons separator after =>
          rw [List.length_cons] at size
          obtain ⟨_, lastWithin⟩ := afterWithin.exists_tail
          obtain ⟨content, inner⟩ := ih inside.length (by omega) closed
            (fun misses => separated (.inside isDollar opens closed closes misses)) rfl
          obtain ⟨nodes, later⟩ := ih after.length (by omega) lastWithin
            (fun misses => separated (.behind isDollar opens closed closes misses)) rfl
          exact ⟨_, .group isDollar opens closed closes inner later⟩
      | false =>
        rw [List.length_cons] at size
        obtain ⟨nodes, later⟩ := ih rest.length (by omega) restWithin
          (fun misses => separated (.later starts misses)) rfl
        cases named : token.captureName? with
        | none => exact ⟨_, .plain starts named later⟩
        | some name => exact ⟨_, .reference named later⟩

/-- A group is read as a group, and only if a separator follows. -/
theorem Reads.of_group {dollar closing : Token} {inside : List Token}
    (reads : Reads (dollar :: opening :: (inside ++ closing :: rest)) nodes)
    (isDollar : dollar.isWord "$" = true) (opens : opening.isPunct "(" = true)
    (closed : Closed inside) (closes : closing.isPunct ")" = true) :
    ∃ separator after content later, rest = separator :: after ∧
      nodes = .group dollar content separator :: later ∧ Reads inside content ∧
        Reads after later := by
  generalize whole : dollar :: opening :: (inside ++ closing :: rest) = template at reads
  cases reads with
  | nil => cases whole
  | plain alone _ _ =>
    obtain ⟨rfl, rfl⟩ := List.cons.inj whole
    rw [startsGroup_cons.mpr ⟨isDollar, opens⟩] at alone
    cases alone
  | reference named _ =>
    obtain ⟨rfl, -⟩ := List.cons.inj whole
    rw [captureName?_of_isDollar isDollar] at named
    cases named
  | group _ _ closedToo closesToo inner later =>
    simp only [List.cons.injEq] at whole
    obtain ⟨rfl, rfl, whole⟩ := whole
    obtain ⟨rfl, rfl⟩ := closed.append_inj (by decide) closes closedToo closesToo whole
    exact ⟨_, _, _, _, rfl, rfl, inner, later⟩

theorem Reads.of_alone (reads : Reads (token :: rest) nodes)
    (alone : startsGroup token rest = false) : ∃ later, Reads rest later := by
  cases reads with
  | plain _ _ later
  | reference _ later => exact ⟨_, later⟩
  | group isDollar opens _ _ _ _ =>
    rw [startsGroup_cons.mpr ⟨isDollar, opens⟩] at alone
    cases alone

theorem MissesSeparator.not_reads (misses : MissesSeparator template) : ¬Reads template nodes := by
  intro reads
  induction misses generalizing nodes with
  | last isDollar opens closed closes =>
    obtain ⟨_, _, _, _, none, -⟩ := reads.of_group isDollar opens closed closes
    cases none
  | inside isDollar opens closed closes _ ih =>
    obtain ⟨_, _, content, _, -, -, inner, -⟩ := reads.of_group isDollar opens closed closes
    exact ih inner
  | behind isDollar opens closed closes _ ih =>
    obtain ⟨_, _, _, nodes, same, -, -, later⟩ := reads.of_group isDollar opens closed closes
    cases same
    exact ih later
  | later alone _ ih =>
    obtain ⟨nodes, later⟩ := reads.of_alone alone
    exact ih later

/-- Among the templates with balanced brackets, those can be read in which every group has its
separator. -/
theorem exists_reads_iff (closed : Closed template) :
    (∃ nodes, Reads template nodes) ↔ ¬MissesSeparator template := by
  constructor
  · rintro ⟨nodes, reads⟩ misses
    exact misses.not_reads reads
  · exact exists_reads_of_within closed

/-- The parts of a template spell the template. -/
theorem Reads.map_spelling (reads : Reads template nodes) :
    (tokens nodes).map Token.spelling = template.map Token.spelling := by
  induction reads with
  | nil => rfl
  | plain _ _ _ ih
  | reference _ _ ih => simpa [tokens, Node.tokens] using ih
  | @group dollar opening closing separator inside rest content nodes isDollar opens closed closes
      inner later innerIh ih =>
      rw [Token.isPunct_iff_spelling] at opens closes
      simp only [tokens, Node.tokens, List.map_cons, List.map_append, innerIh, ih, opens,
        closes, List.cons_append, List.append_assoc, List.nil_append]
      rfl

end Template

end MacroScript
