import MacroScript.Proofs.Extent.Parser
import MacroScript.Proofs.Outline

/-!
# Pages

A page is what a parser reads: tokens that lie within an extent.  The nodes that it comes to are
arranged on the page.  Each node runs from the start of one token to the end of another, its parts
lie between them, and nodes that follow each other have no token in common.

`Leads` says what is known before and behind a parser, about the index of the next token and about
the nodes that have been read.  The lemmas here are one for each elementary parser and for each way
in which parsers are put together.
-/

namespace MacroScript.Extent

open MacroScript.Grammar MacroScript.Outcome

/-- Where a parser begins to read. -/
structure Page (e : Extent) where
  start : Cursor
  ready : start.Ready
  contains : e.ContainsCursor start

namespace Page

variable {e : Extent} (page : Page e)

/-- The token at an index, or the end of input. -/
abbrev tokenAt (index : Nat) : Token :=
  page.start.tokenAt index

/-- Number of tokens. -/
abbrev size : Nat :=
  page.start.tokens.size

/-- A state of a parser that reads the page and knows macros within the extent. -/
structure Holds (state : State) : Prop where
  forward : page.start.Forward state.cursor
  session : ∀ context, state.context = some context → e.ContainsSession context.session

/-! ## Nodes on a page -/

/-- The span runs from the start of the first token to the end of the last one before `next`.  The
span of a single token is left as it is. -/
inductive Covers : (first next : Nat) → Span → Prop
  | token {first : Nat} (inside : first < page.size) :
      Covers first (first + 1) (page.tokenAt first).span
  | tokens {first last : Nat} (ordered : first ≤ last) (inside : last < page.size) :
      Covers first (last + 1) ((page.tokenAt first).span.through (page.tokenAt last).span)

/-- The nodes lie one behind the other in the given range of tokens, and so do the parts of each
node in its own range.  There are macro nodes only where the extent allows for them. -/
inductive Arranged : (low high : Nat) → List Outline → Prop
  | nil {low high : Nat} (le : low ≤ high) : Arranged low high []
  | leaf {low first next high : Nat} {name : Leaf} {rest : List Outline} (le : low ≤ first)
      (covers : page.Covers first next name.span) (allowed : name.isMacro = true → e.Macros)
      (later : Arranged next high rest) : Arranged low high (.leaf name :: rest)
  | node {low first next high : Nat} {span : Span} {parts rest : List Outline} (le : low ≤ first)
      (covers : page.Covers first next span) (inner : Arranged first next parts)
      (later : Arranged next high rest) : Arranged low high (.node span parts :: rest)

/-- A span that begins like the token at the index. -/
def Starts (first : Nat) (span : Span) : Prop :=
  ∀ last, span.through last = (page.tokenAt first).span.through last

/-- What is known at an index: at least so many tokens were read since `first`, and the nodes that
were read from them. -/
structure At (first gained : Nat) (done : List Outline) (index : Nat) : Prop where
  moved : first + gained ≤ index
  arranged : page.Arranged first index done

variable {page}

namespace Covers

variable {first next : Nat} {span : Span}
variable (covers : page.Covers first next span)
include covers

theorem lt : first < next := by
  cases covers with
  | token => exact Nat.lt_succ_self _
  | tokens ordered => exact Nat.lt_succ_of_le ordered

theorem contains : e.Contains span := by
  cases covers with
  | token => exact page.contains.tokenAt _
  | tokens => exact e.through (page.contains.tokenAt _) (page.contains.tokenAt _)

theorem starts : page.Starts first span := by
  cases covers with
  | token
  | tokens => exact fun _ => rfl

end Covers

namespace Arranged

variable {low middle high : Nat} {outlines others : List Outline} {outline : Outline}

section

variable (arranged : page.Arranged low high outlines)
include arranged

theorem le : low ≤ high := by
  induction arranged with
  | nil le => exact le
  | leaf le covers _ _ ih
  | node le covers _ _ _ ih => exact Nat.le_trans le (Nat.le_trans (Nat.le_of_lt covers.lt) ih)

omit arranged in
theorem lt (arranged : page.Arranged low high (outline :: outlines)) : low < high := by
  cases arranged with
  | leaf le covers _ later
  | node le covers _ later => exact Nat.lt_of_le_of_lt le (Nat.lt_of_lt_of_le covers.lt later.le)

theorem earlier {lower : Nat} (before : lower ≤ low) : page.Arranged lower high outlines := by
  cases arranged with
  | nil le => exact .nil (Nat.le_trans before le)
  | leaf le covers allowed later => exact .leaf (Nat.le_trans before le) covers allowed later
  | node le covers inner later => exact .node (Nat.le_trans before le) covers inner later

omit arranged in
theorem append (one : page.Arranged low middle outlines)
    (two : page.Arranged middle high others) : page.Arranged low high (outlines ++ others) := by
  induction one with
  | nil le => exact two.earlier le
  | leaf le covers allowed _ ih => exact .leaf le covers allowed (ih two)
  | node le covers inner _ _ ih => exact .node le covers inner (ih two)

theorem upTo {higher : Nat} (le : high ≤ higher) : page.Arranged low higher outlines :=
  List.append_nil outlines ▸ arranged.append (.nil le)

/-- All nodes lie within the extent. -/
theorem contains : ∀ span ∈ Outline.spansAll outlines, e.Contains span := by
  induction arranged with
  | nil => simp [Outline.spansAll]
  | leaf _ covers _ _ ih => simpa [Outline.spansAll, Outline.spans, covers.contains] using ih
  | node _ covers _ _ inner ih =>
    rw [Outline.spansAll, Outline.spans, List.forall_mem_append, List.forall_mem_cons]
    exact ⟨⟨covers.contains, inner⟩, ih⟩

theorem leaves :
    ∀ name ∈ Outline.leavesAll outlines,
      e.Contains name.span ∧ (name.isMacro = true → e.Macros) := by
  induction arranged with
  | nil => simp [Outline.leavesAll]
  | leaf _ covers allowed _ ih =>
    rw [Outline.leavesAll, Outline.leaves, List.forall_mem_append, List.forall_mem_singleton]
    exact ⟨⟨covers.contains, allowed⟩, ih⟩
  | node _ _ _ _ inner ih =>
    rw [Outline.leavesAll, Outline.leaves, List.forall_mem_append]
    exact ⟨inner, ih⟩

end

/-- A single node has a first token. -/
theorem exists_first (arranged : page.Arranged low high [outline]) :
    ∃ first, low ≤ first ∧ first < high ∧ page.Starts first outline.span ∧
      page.Arranged first high [outline] ∧ page.Arranged first high outline.parts := by
  cases arranged with
  | leaf le covers allowed later =>
    have inside := Nat.lt_of_lt_of_le covers.lt later.le
    exact ⟨_, le, inside, covers.starts, .leaf (Nat.le_refl _) covers allowed later,
      .nil (Nat.le_of_lt inside)⟩
  | node le covers inner later =>
    exact ⟨_, le, Nat.lt_of_lt_of_le covers.lt later.le, covers.starts,
      .node (Nat.le_refl _) covers inner later, inner.upTo later.le⟩

end Arranged

namespace At

variable {first gained index further : Nat} {done : List Outline}

theorem start : page.At first 0 [] first :=
  ⟨Nat.le_refl _, .nil (Nat.le_refl _)⟩

section

variable (at' : page.At first gained done index)
include at'

theorem later (le : index ≤ further) : page.At first gained done further :=
  ⟨Nat.le_trans at'.moved le, at'.arranged.upTo le⟩

theorem weaken {fewer : Nat} (le : fewer ≤ gained) : page.At first fewer done index :=
  ⟨Nat.le_trans (Nat.add_le_add_left le _) at'.moved, at'.arranged⟩

theorem since {earlier : Nat} (le : earlier ≤ first) : page.At earlier gained done index :=
  ⟨Nat.le_trans (Nat.add_le_add_right le _) at'.moved, at'.arranged.earlier le⟩

omit at' in
/-- Nodes that are read behind others. -/
theorem append {least : Nat} {more : List Outline} (one : page.At first gained done index)
    (two : page.At index least more further) :
    page.At first (gained + least) (done ++ more) further where
  moved := by
    have early := one.moved
    have late := two.moved
    omega
  arranged := one.arranged.append two.arranged

theorem contains {outline : Outline} (mem : outline ∈ done) : e.Contains outline.span := by
  apply at'.arranged.contains
  clear at'
  induction done with
  | nil => cases mem
  | cons other rest ih =>
    rw [Outline.spansAll, List.mem_append]
    rcases List.mem_cons.mp mem with rfl | later
    · exact .inl (by cases outline <;> exact List.mem_cons_self)
    · exact .inr (ih later)

theorem contains_expr {expr : Expr} (mem : .ofExpr expr ∈ done) : e.Contains expr.span := by
  rw [← Outline.ofExpr_span]
  exact at'.contains mem

end

theorem parts {span : Span} {parts : List Outline}
    (at' : page.At first gained [.node span parts] index) : page.At first gained parts index := by
  refine ⟨at'.moved, ?_⟩
  cases at'.arranged with
  | node le _ inner later => exact (inner.upTo later.le).earlier le

/-- A leaf with the span of a node that has no parts. -/
theorem leaf {name : Leaf} (at' : page.At first gained [.node name.span []] index)
    (allowed : name.isMacro = true → e.Macros) : page.At first gained [.leaf name] index := by
  refine ⟨at'.moved, ?_⟩
  cases at'.arranged with
  | node le covers _ later => exact .leaf le covers allowed later

end At

namespace Holds

variable {state : State}
variable (holds : page.Holds state)
include holds

theorem tokenAt (index : Nat) : state.cursor.tokenAt index = page.tokenAt index :=
  holds.forward.tokenAt index

theorem ready : state.cursor.Ready :=
  holds.forward.ready page.ready

/-- A cursor further on. -/
theorem moved {cursor : Cursor} (forward : state.cursor.Forward cursor) :
    page.Holds { state with cursor } :=
  ⟨holds.forward.trans forward, holds.session⟩

/-- Contexts are changed without touching the macros. -/
theorem changed {change : Context → Context}
    (kept : ∀ context, e.ContainsSession context.session →
      e.ContainsSession (change context).session) :
    page.Holds { state with context := state.context.map change } where
  forward := holds.forward
  session context found := by
    obtain ⟨former, known, rfl⟩ := Option.map_eq_some_iff.mp found
    exact kept former (holds.session former known)

theorem containsState : e.ContainsState state where
  ready := holds.ready
  cursor := by
    constructor
    · rw [holds.forward.tokens]
      exact page.contains.tokens
    · rw [holds.forward.finish]
      exact page.contains.finish
  session := holds.session

end Holds

/-- The page on which a state begins. -/
def ofState {state : State} (contains : e.ContainsState state) : Page e :=
  ⟨state.cursor, contains.ready, contains.cursor⟩

theorem holds_ofState {state : State} (contains : e.ContainsState state) :
    (ofState contains).Holds state :=
  ⟨.refl contains.ready, contains.session⟩

/-! ## Parsers of a page -/

variable {α β : Type} {parts : α → List Outline}

/-- From indices that satisfy `before` the parser comes to `good` values, and each leads to an index
where `behind` holds.  Its faults lie within the extent. -/
def Leads (page : Page e) (before : Nat → Prop) (good : α → Prop) (behind : α → Nat → Prop)
    (parser : Parser α) : Prop :=
  ∀ state, page.Holds state → before state.cursor.index →
    Meets page.Holds e.ContainsFault
      (fun value after => good value ∧ behind value after.cursor.index) (parser state)

/-- The parser adds the parts of its value to what has been read, and gains at least so many
tokens. -/
def Adds (page : Page e) (least : Nat) (parts : α → List Outline) (good : α → Prop)
    (parser : Parser α) : Prop :=
  ∀ first, page.Leads (· = first) good (fun value => page.At first least (parts value)) parser

namespace Leads

variable {before : Nat → Prop} {good : α → Prop} {behind : α → Nat → Prop} {later : β → Prop}
  {final : β → Nat → Prop} {parser other : Parser α} {first gained : Nat} {condition : Bool}
  {read : List Outline} {value : α}

protected theorem bind {next : α → Parser β} (one : page.Leads before good behind parser)
    (two : ∀ value, good value → page.Leads (behind value) later final (next value)) :
    page.Leads before later final (parser >>= next) :=
  fun state holds known => (one state holds known).bind fun value middle reached =>
    two value reached.2.1 middle reached.1 reached.2.2

protected theorem pure {value : α} (holds : good value)
    (reached : ∀ index, before index → behind value index) :
    page.Leads before good behind (pure value) :=
  fun _ stateHolds known => ⟨stateHolds, holds, reached _ known⟩

theorem mono {weaker : α → Prop} {broader : α → Nat → Prop}
    (leads : page.Leads before good behind parser) (implies : ∀ value, good value → weaker value)
    (covers : ∀ value index, good value → behind value index → broader value index) :
    page.Leads before weaker broader parser :=
  fun state holds known => (leads state holds known).imp
    (fun value _ reached => ⟨reached.1, implies value reached.2.1,
      covers value _ reached.2.1 reached.2.2⟩)
    fun _ _ => id

theorem given {stronger : Nat → Prop} (leads : page.Leads before good behind parser)
    (implies : ∀ index, stronger index → before index) : page.Leads stronger good behind parser :=
  fun state holds known => leads state holds (implies _ known)

theorem opening (leads : page.Leads (page.At first 0 []) good behind parser) :
    page.Leads (· = first) good behind parser := by
  rintro state holds rfl
  exact leads state holds .start

/-- The first parser may rely on the condition. -/
theorem checked (one : condition = true → page.Leads before good behind parser)
    (two : page.Leads before good behind other) :
    page.Leads before good behind (if condition then parser else other) := by
  cases condition
  · exact two
  · exact one rfl

theorem ite (one : page.Leads before good behind parser)
    (two : page.Leads before good behind other) :
    page.Leads before good behind (if condition then parser else other) :=
  checked (fun _ => one) two

/-- The parser does what another one does that is chosen by the state. -/
theorem choose (choice : State → Parser α) (chosen : ∀ state, parser state = choice state state)
    (each : ∀ state, page.Holds state → before state.cursor.index →
      page.Leads (· = state.cursor.index) good behind (choice state)) :
    page.Leads before good behind parser := by
  intro state holds known
  rw [chosen state]
  exact each state holds known state holds rfl

/-- What is known of a parser wherever it begins. -/
theorem anywhere {goodFrom : Nat → α → Prop} {behindFrom : Nat → α → Nat → Prop}
    (leads : ∀ first, page.Leads (· = first) (goodFrom first) (behindFrom first) parser)
    (covers : ∀ first value index, before first → goodFrom first value →
      behindFrom first value index → good value ∧ behind value index) :
    page.Leads before good behind parser :=
  fun state holds known => (leads _ state holds rfl).imp
    (fun value _ reached => ⟨reached.1, covers _ value _ known reached.2.1 reached.2.2⟩)
    fun _ _ => id

theorem followedBy {change : State → State} (leads : page.Leads before good behind parser)
    (kept : ∀ state, page.Holds state → page.Holds (change state))
    (stands : ∀ state, (change state).cursor.index = state.cursor.index) :
    page.Leads before good behind (followedBy parser change) := by
  intro state holds known
  refine comes_followedBy ((leads state holds known).imp ?_ ?_)
  · intro value after reached
    exact ⟨kept after reached.1, reached.2.1, (stands after).symm ▸ reached.2.2⟩
  · exact fun _ after => And.imp_left (kept after)

/-- The value is complete: what has been read are its parts. -/
theorem done (holds : good value) (same : parts value = read) :
    page.Leads (page.At first (gained + 1) read) good (fun value => page.At first 1 (parts value))
      (pure value) := by
  refine Leads.pure holds fun index known => ?_
  rw [same]
  exact known.weaken (Nat.le_add_left 1 gained)

/-- The same where no token need have been read. -/
theorem list (holds : good value) (same : parts value = read) :
    page.Leads (page.At first gained read) good (fun value => page.At first 0 (parts value))
      (pure value) := by
  refine Leads.pure holds fun index known => ?_
  rw [same]
  exact known.weaken (Nat.zero_le gained)

end Leads

/-- What a parser adds is put behind what has been read. -/
theorem Adds.more {least first gained : Nat} {good : α → Prop} {read : List Outline}
    {parser : Parser α} (adds : page.Adds least parts good parser) :
    page.Leads (page.At first gained read) good
      (fun value => page.At first (gained + least) (read ++ parts value)) parser := by
  apply Leads.anywhere adds
  intro middle value index known holds added
  exact ⟨holds, known.append added⟩

end Page

end MacroScript.Extent

namespace MacroScript.Grammar

open MacroScript.Extent MacroScript.Extent.Page MacroScript.Outcome

variable {e : Extent} {page : Page e} {α : Type} {before : Nat → Prop} {good : α → Prop}
  {behind : α → Nat → Prop} {first gained : Nat} {read : List Outline} {parser : Parser Bool}
  {test : Token → Bool}

/-! ## Elementary parsers -/

/-- A parser that looks at the position and stays there. -/
theorem leads_look (look : Cursor → α) :
    page.Leads before (fun _ => True) (fun _ => before)
      fun state => .ok (look state.cursor) state :=
  fun _ holds known => ⟨holds, trivial, known⟩

/-- A parser that complains about the position. -/
theorem leads_complain (fault : Cursor → Fault)
    (contains : ∀ cursor, e.ContainsCursor cursor → e.ContainsFault (fault cursor)) :
    page.Leads before good behind (fun state => .error (fault state.cursor) state : Parser α) :=
  fun _ holds _ => ⟨holds, contains _ holds.containsState.cursor⟩

theorem leads_peek : page.Leads before e.ContainsToken (fun _ => before) peek :=
  fun _ holds known => ⟨holds, holds.containsState.cursor.tokenAt _, known⟩

theorem first_peek :
    page.Leads (· = first) (· = page.tokenAt first) (fun _ => (· = first)) peek := by
  rintro state holds rfl
  exact ⟨holds, holds.tokenAt _, rfl⟩

theorem opens_peek :
    page.Leads (· = first) (fun token => page.Starts first token.span) (fun _ => (· = first))
      peek :=
  first_peek.mono (fun _ same _ => same ▸ rfl) fun _ _ _ => id

theorem leads_peekAt (offset : Nat) :
    page.Leads before (fun _ => True) (fun _ => before) (peekAt offset) :=
  leads_look fun cursor => cursor.peekAt offset

theorem leads_index : page.Leads before (fun _ => True) (fun _ => before) index :=
  leads_look Cursor.index

theorem leads_remaining : page.Leads before (fun _ => True) (fun _ => before) remaining :=
  leads_look Cursor.remaining

theorem leads_atPunct (text : String) :
    page.Leads before (fun _ => True) (fun _ => before) (atPunct text) :=
  leads_look fun cursor => cursor.atPunct text

theorem leads_atReserved (text : String) :
    page.Leads before (fun _ => True) (fun _ => before) (atReserved text) :=
  leads_look fun cursor => cursor.atReserved text

theorem leads_unexpected : page.Leads before good behind (unexpected : Parser α) :=
  leads_complain (fun cursor => .unexpected cursor.peek) fun _ contains =>
    containsFault_malformed (contains.tokenAt _) _

theorem leads_expected (wanted : String) :
    page.Leads before good behind (expected wanted : Parser α) :=
  leads_complain
    (fun cursor => .malformed cursor.peek.span (.expected wanted cursor.peek.display))
    fun _ contains => containsFault_malformed (contains.tokenAt _) _

theorem leads_malformed {span : Span} (contains : ∀ index, before index → e.Contains span)
    (problem : SourceProblem) : page.Leads before good behind (malformed span problem : Parser α) :=
  fun _ holds known => ⟨holds, containsFault_malformed (contains _ known) problem⟩

theorem leads_finishSpan {start : Span} (begins : e.Contains start) :
    page.Leads before e.Contains (fun _ => before) (finishSpan start) :=
  fun _ holds known => ⟨holds, e.through begins holds.containsState.cursor.previousSpan, known⟩

/-- A node is finished: all that was read since its first token is inside it. -/
theorem closes_finishSpan {start : Span} (begins : page.Starts first start) :
    page.Leads (page.At first (gained + 1) read) (page.Starts first)
      (fun span => page.At first (gained + 1) [.node span read]) (finishSpan start) := by
  intro state holds known
  refine ⟨holds, begins, known.moved, ?_⟩
  have moved := known.moved
  have inside := holds.forward.inside
  obtain ⟨last, place⟩ : ∃ last, state.cursor.index = last + 1 :=
    ⟨state.cursor.index - 1, by omega⟩
  have previous : state.cursor.previousSpan = (page.tokenAt last).span := by
    rw [← holds.tokenAt]
    simp only [Cursor.previousSpan, Cursor.previous?, place, Cursor.tokenAt]
  rw [previous, begins]
  rw [place] at known moved inside ⊢
  exact .node (Nat.le_refl _) (.tokens (by omega) inside) known.arranged (.nil (Nat.le_refl _))

theorem first_advance :
    page.Leads (· = first) (· = page.tokenAt first) (fun _ => page.At first 0 []) advance := by
  rintro state holds rfl
  have forward := holds.ready.forward_advance
  exact ⟨holds.moved forward, holds.tokenAt _, At.start.later forward.index⟩

theorem opens_advance :
    page.Leads (· = first) (fun token => page.Starts first token.span) (fun _ => page.At first 0 [])
      advance :=
  first_advance.mono (fun _ same _ => same ▸ rfl) fun _ _ _ => id

theorem leads_advance :
    page.Leads (page.At first gained read) e.ContainsToken (fun _ => page.At first gained read)
      advance := by
  intro state holds known
  have forward := holds.ready.forward_advance
  exact ⟨holds.moved forward, holds.containsState.cursor.tokenAt _, known.later forward.index⟩

/-- One token is read for certain. -/
theorem takes_advance (real : (page.tokenAt first).isEnd = false) :
    page.Leads (· = first) (· = page.tokenAt first) (fun _ => (· = first + 1)) advance := by
  rintro state holds rfl
  have inside : state.cursor.index < state.cursor.tokens.size :=
    holds.ready.lt_of_not_end (holds.tokenAt _ ▸ real)
  exact ⟨holds.moved holds.ready.forward_advance, holds.tokenAt _,
    Cursor.advance_index_of_lt inside⟩

theorem opens_real (real : (page.tokenAt first).isEnd = false) :
    page.Leads (· = first) (fun token => page.Starts first token.span) (fun _ => page.At first 1 [])
      advance := by
  refine (takes_advance real).mono (fun _ same _ => same ▸ rfl) ?_
  rintro _ _ - rfl
  exact ⟨Nat.le_refl _, .nil (Nat.le_succ _)⟩

/-- A token is looked for, and it is read if it is there. -/
def Looks (page : Page e) (test : Token → Bool) (parser : Parser Bool) : Prop :=
  ∀ before : Nat → Prop, page.Leads before (fun _ => True)
    (fun found index => if found then ∃ former, before former ∧ index = former + 1 ∧
        test (page.tokenAt former) = true
      else before index ∧ test (page.tokenAt index) = false) parser

theorem looks_of_run (real : ∀ token, test token = true → token.isEnd = false)
    (runs : ∀ state, parser state = if test state.cursor.peek then
        .ok true { state with cursor := { state.cursor with index := state.cursor.index + 1 } }
      else .ok false state) : Looks page test parser := by
  intro before state holds known
  rw [runs]
  cases next : test state.cursor.peek with
  | false => exact ⟨holds, trivial, known, holds.tokenAt _ ▸ next⟩
  | true =>
    have inside := holds.ready.lt_of_not_end (real _ next)
    exact ⟨holds.moved (Cursor.forward_succ inside), trivial, _, known, rfl,
      holds.tokenAt _ ▸ next⟩

theorem looks_eatPunct (text : String) : Looks page (·.isPunct text) (eatPunct text) := by
  refine looks_of_run (fun _ => Token.isEnd_of_isPunct) fun state => ?_
  cases next : state.cursor.peek.isPunct text <;>
    simp [eatPunct, Cursor.eatPunct, Cursor.atPunct, next]

theorem looks_eatReserved (text : String) : Looks page (·.isReserved text) (eatReserved text) := by
  refine looks_of_run (fun _ => Token.isEnd_of_isReserved) fun state => ?_
  cases next : state.cursor.peek.isReserved text <;>
    simp [eatReserved, Cursor.eatReserved, Cursor.atReserved, next]

/-- Whether the token is there or not, what has been read stays read. -/
theorem Looks.more (looks : Looks page test parser) :
    page.Leads (page.At first gained read) (fun _ => True) (fun _ => page.At first gained read)
      parser := by
  refine (looks _).mono (fun _ => id) fun found index _ reached => ?_
  cases found with
  | false => exact reached.1
  | true =>
    obtain ⟨former, known, rfl, -⟩ := reached
    exact known.later (Nat.le_succ former)

theorem leads_eatPunct (text : String) :
    page.Leads (page.At first gained read) (fun _ => True) (fun _ => page.At first gained read)
      (eatPunct text) :=
  (looks_eatPunct text).more

theorem leads_eatReserved (text : String) :
    page.Leads (page.At first gained read) (fun _ => True) (fun _ => page.At first gained read)
      (eatReserved text) :=
  (looks_eatReserved text).more

theorem leads_takeBalanced (closer : String) :
    page.Leads (page.At first gained read) e.ContainsTokens
      (fun _ => page.At first (gained + 1) read) (takeBalanced closer) := by
  intro state holds known
  have contains := holds.containsState.cursor
  cases run : takeBalanced closer state with
  | ok tree after =>
    obtain ⟨next, last, rest, split, forward, index, rfl⟩ := takeBalanced_eq_ok holds.ready run
    have behind : state.cursor.index + 1 ≤ next.index := by
      rw [index]
      exact Nat.succ_le_succ (Nat.le_add_right _ _)
    refine ⟨holds.moved forward, fun token mem => contains.rest token ?_,
      Nat.le_trans (Nat.succ_le_succ known.moved) behind, known.arranged.upTo forward.index⟩
    rw [split]
    exact List.mem_append_left _ mem
  | error fault after =>
    have divides := Balanced.divides_takeWithin closer [] state.cursor.rest
    simp only [takeBalanced, Balanced.take] at run
    cases outcome : Balanced.takeWithin closer [] state.cursor.rest with
    | closed tree rest => simp [outcome] at run
    | mismatched found rest =>
      simp only [outcome, EStateM.Result.error.injEq] at run
      obtain ⟨rfl, rfl⟩ := run
      rw [outcome] at divides
      have shorter := (List.suffix_cons found rest).trans divides
      exact ⟨holds.moved (holds.ready.forward_suffix shorter),
        containsFault_malformed (contains.rest found (divides.subset List.mem_cons_self)) _⟩
    | unfinished rest =>
      simp only [outcome, EStateM.Result.error.injEq] at run
      obtain ⟨rfl, rfl⟩ := run
      rw [outcome] at divides
      have moved := holds.moved (holds.ready.forward_suffix divides)
      exact ⟨moved, containsFault_malformed (moved.containsState.cursor.tokenAt _) _⟩

/-! ## Single tokens -/

/-- The parser reads one token. -/
def Takes (page : Page e) (parser : Parser Token) : Prop :=
  ∀ first, page.Leads (· = first) (· = page.tokenAt first) (fun _ => (· = first + 1)) parser

theorem Takes.opens {parser : Parser Token} (takes : Takes page parser) :
    page.Leads (· = first) (fun token => page.Starts first token.span)
      (fun _ => page.At first 1 []) parser := by
  refine (takes first).mono (fun _ same _ => same ▸ rfl) ?_
  rintro _ _ - rfl
  exact ⟨Nat.le_refl _, .nil (Nat.le_succ _)⟩

theorem Takes.more {parser : Parser Token} (takes : Takes page parser) :
    page.Leads (page.At first gained read) e.ContainsToken
      (fun _ => page.At first (gained + 1) read) parser := by
  apply Leads.anywhere takes
  rintro former _ _ known rfl rfl
  exact ⟨page.contains.tokenAt _, Nat.succ_le_succ known.moved,
    known.arranged.upTo (Nat.le_succ former)⟩

theorem takes_expectPunct (text : String) : Takes page (expectPunct text) := by
  intro first
  have asked : page.Leads (· = first) (· = (page.tokenAt first).isPunct text)
      (fun _ => (· = first)) (atPunct text) := by
    rintro state holds rfl
    exact ⟨holds, congrArg (Token.isPunct · text) (holds.tokenAt _), rfl⟩
  apply asked.bind
  rintro _ rfl
  exact .checked (fun next => takes_advance (Token.isEnd_of_isPunct next)) (leads_expected text)

theorem takes_expectReserved (text : String) : Takes page (expectReserved text) := by
  intro first
  have asked : page.Leads (· = first) (· = (page.tokenAt first).isReserved text)
      (fun _ => (· = first)) (atReserved text) := by
    rintro state holds rfl
    exact ⟨holds, congrArg (Token.isReserved · text) (holds.tokenAt _), rfl⟩
  apply asked.bind
  rintro _ rfl
  exact .checked (fun next => takes_advance (Token.isEnd_of_isReserved next)) (leads_expected text)

theorem leads_expectPunct (text : String) :
    page.Leads (page.At first gained read) e.ContainsToken
      (fun _ => page.At first (gained + 1) read) (expectPunct text) :=
  (takes_expectPunct text).more

theorem leads_expectReserved (text : String) :
    page.Leads (page.At first gained read) e.ContainsToken
      (fun _ => page.At first (gained + 1) read) (expectReserved text) :=
  (takes_expectReserved text).more

theorem leads_endStatement :
    page.Leads (page.At first gained read) (fun _ => True) (fun _ => page.At first gained read)
      endStatement :=
  (leads_eatPunct ";").bind fun _ _ => .ite (.pure trivial fun _ => id)
    (leads_peek.bind fun _ _ => .ite (.pure trivial fun _ => id) leads_unexpected)

/-! ## Local changes of the state -/

theorem leads_setAllowIn (allowed : Bool) :
    page.Leads before (fun _ => True) (fun _ => before) (setAllowIn allowed) :=
  fun _ holds known => ⟨⟨⟨holds.forward.tokens, holds.forward.finish, holds.forward.index,
    holds.forward.inside⟩, holds.session⟩, trivial, known⟩

section Changes

variable {parser : Parser α} (leads : page.Leads before good behind parser)
include leads

/-- The flag does not matter to what is known. -/
theorem leads_followedBy_allowIn (allowed : Bool) :
    page.Leads before good behind (followedBy parser fun state =>
      { state with cursor := { state.cursor with allowIn := allowed } }) :=
  leads.followedBy (fun _ holds => ⟨⟨holds.forward.tokens, holds.forward.finish,
    holds.forward.index, holds.forward.inside⟩, holds.session⟩) fun _ => rfl

theorem leads_allowingIn : page.Leads before good behind (allowingIn parser) :=
  (leads_look Cursor.allowIn).bind fun former _ => (leads_setAllowIn true).bind fun _ _ =>
    leads_followedBy_allowIn leads former

theorem leads_forbiddingIn : page.Leads before good behind (forbiddingIn parser) :=
  (leads_setAllowIn false).bind fun _ _ => leads_followedBy_allowIn leads true

theorem leads_inScope : page.Leads before good behind (inScope parser) := by
  intro state holds known
  have entered : page.Holds { state with context := state.context.map Context.enterScope } :=
    holds.changed fun _ contains => contains.of_macros rfl
  have closed : page.Leads before good behind (followedBy parser fun after =>
      { after with context := after.context.map Context.exitScope }) := by
    refine leads.followedBy (fun after afterHolds => afterHolds.changed fun context contains => ?_)
      fun _ => rfl
    rw [Context.exitScope_session]
    exact contains
  exact closed _ entered known

end Changes

/-! ## Lists -/

section Lists

variable {item : Parser α} {outline : α → Outline}
  (adds : page.Adds 1 (fun value => [outline value]) good item)
include adds

theorem adds_itemsUntil (stop : Token → Bool) (bound : Nat) :
    page.Adds 0 (fun items => items.map outline) (fun items => ∀ value ∈ items, good value)
      (itemsUntil stop item bound) := by
  induction bound with
  | zero => exact fun first => .opening (.list (by simp) rfl)
  | succ bound ih =>
    intro first
    apply Leads.bind leads_peek
    intro token _
    apply Leads.ite (.opening (.list (by simp) rfl))
    apply Leads.ite leads_unexpected
    exact (adds first).bind fun _ holds => ih.more.bind fun _ rest =>
      .list (List.forall_mem_cons.mpr ⟨holds, rest⟩) rfl

theorem adds_commaItems (closer : String) (bound : Nat) :
    page.Adds 0 (fun items => items.map outline) (fun items => ∀ value ∈ items, good value)
      (commaItems closer item bound) := by
  induction bound with
  | zero => exact fun first => .opening (.list (by simp) rfl)
  | succ bound ih =>
    intro first
    apply Leads.bind (leads_atPunct closer)
    intro closed _
    apply Leads.ite (.opening (.list (by simp) rfl))
    apply Leads.bind (adds first)
    intro value holds
    apply Leads.bind (leads_eatPunct ",")
    intro more _
    apply Leads.ite
    · exact ih.more.bind fun _ rest => .list (List.forall_mem_cons.mpr ⟨holds, rest⟩) rfl
    · exact .list (by simpa using holds) rfl

/-- At least one item is read. -/
theorem adds_commaSequence (bound : Nat) :
    page.Adds 1 (fun items => items.map outline) (fun items => ∀ value ∈ items, good value)
      (commaSequence item (bound + 1)) := by
  have step : ∀ {others : Parser (List α)},
      page.Adds 0 (fun items => items.map outline) (fun items => ∀ value ∈ items, good value)
        others →
      page.Adds 1 (fun items => items.map outline) (fun items => ∀ value ∈ items, good value) (do
        let value ← item
        if ← eatPunct "," then
          let rest ← others
          return value :: rest
        else
          return [value]) := by
    intro others rest first
    apply Leads.bind (adds first)
    intro value holds
    apply Leads.bind (leads_eatPunct ",")
    intro more _
    apply Leads.ite
    · exact rest.more.bind fun _ known => .done (List.forall_mem_cons.mpr ⟨holds, known⟩) rfl
    · exact .done (by simpa using holds) rfl
  induction bound with
  | zero => exact step fun first => .opening (.list (by simp) rfl)
  | succ bound ih =>
    exact step fun first => (ih first).mono (fun _ => id) fun _ _ _ known =>
      known.weaken (Nat.zero_le 1)

end Lists

end MacroScript.Grammar
