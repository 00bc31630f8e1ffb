import GoTrivia.Proofs.Printing.Fitted
import GoTrivia.Proofs.Printing.Merging
import GoTrivia.Proofs.Printing.Running
import GoTrivia.Proofs.Token.Words
import GoTrivia.Proofs.Tree.Tokens

/-!
# Tokens that touch

A token is written right behind the one before it, unless the layout has asked for a space or a
line in between.  Which texts may touch is left open here: it is a relation of two texts that has
room for what the printer does whatever was asked for (`Lenient`).

**Seams.** Between two slots of a node that are filled one behind the other, the shape asks for a
blank, or what ends the first may touch what begins the second (`Seamed`).  If that holds of all
nodes of a tree, then tokens of the tree touch in print only where they may.

**The invariant.** In front of a token the printer was asked for a blank, or the token may touch
the one before it (`Clear`).  A node that prints nothing hands on what it was asked for, so the
first token in a node is the business of whoever prints the node, and any other that of the node.
-/

set_option autoImplicit false

namespace GoTrivia

open Print (Mark State Printer ListPlan firstToken? firstTokenSlots? slotToken? isLines isCloser)
open Print (beginsWithParen printSlot printSlots printElements lastOffset)
open SlotTree

/-! ## Marks side by side -/

namespace Print

/-- Texts that may stand behind anything.  In front of most of them no space is written, whatever
was asked for. -/
def followers : List String := ["(", ")", "]", "\x7d", ",", ";"]

/-- A relation of texts that may touch.  Behind an opening bracket and a comma, and in front of some
punctuation, anything may stand. -/
structure Lenient (meets : String → String → Prop) : Prop where
  empty : ∀ next, meets "" next
  opening : ∀ text next, ∀ c ∈ text.toList.getLast?, c ∈ openings → meets text next
  comma : ∀ next, meets "," next
  follower : ∀ text, ∀ next ∈ followers, meets text next

/-- Whether a mark may stand right behind another one.  A token has a token or a blank behind it,
and a line comment the end of its line. -/
def Beside (meets : String → String → Prop) : Mark → Mark → Prop
  | .token text, .token next => meets text next
  | .token _, .comment _ => False
  | .token _, .tab => False
  | .comment text, mark => isLineComment text = true → mark = .lineFeed
  | _, _ => True

variable {meets : String → String → Prop}

/-- Anything may stand behind blanks. -/
theorem isChain_blanks {blanks : List Mark} (blank : ∀ mark ∈ blanks, mark.isItem = false)
    (mark : Mark) : (blanks ++ [mark]).IsChain (Beside meets) := by
  induction blanks with
  | nil => exact .singleton mark
  | cons first blanks ih =>
    obtain ⟨here, others⟩ := List.forall_mem_cons.mp blank
    have beside : ∀ next, Beside meets first next := by
      cases first with
      | token | comment => cases here
      | space | tab | lineFeed => exact fun _ => trivial
    rw [List.cons_append, List.isChain_cons]
    exact ⟨fun next _ => beside next, ih others⟩

namespace State

/-- Nothing was written behind a token with this text. -/
def Touches (state : State) (text : String) : Prop :=
  state.marks.toList.getLast? = some (.token text)

/-- A token may come next: it may touch what comes before it, or a blank was asked for. -/
def Clear (meets : String → String → Prop) (next : String) (state : State) : Prop :=
  ∀ text, state.Touches text → meets text next ∨ 0 < state.breaks ∨ 0 < state.layoutBreaks ∨
    state.spaced = true ∨ state.layoutSpaced = true

/-- Tokens touch only where they may, and the printer knows what it has written. -/
structure Kempt (meets : String → String → Prop) (state : State) : Prop where
  beside : state.marks.toList.IsChain (Beside meets)
  ends : ∀ text, state.Touches text → text = "" ∨ state.last = text.toList.getLast?
  closes : ∀ text, state.marks.toList.getLast? = some (.comment text) →
    isLineComment text = true → 0 < state.breaks ∧ state.last.isSome = true
  fresh : state.atLineStart = true → ∀ mark ∈ state.marks.toList.getLast?, mark.isItem = false

theorem Kempt.start (table : List CommentEntry) : Kempt meets (.start table) where
  beside := .nil
  ends _ touches := by cases touches
  closes _ last := by cases last
  fresh _ _ last := by cases last

theorem Clear.of_not_touches {state : State} {next : String}
    (off : ∀ text, ¬state.Touches text) : state.Clear meets next :=
  fun text touches => (off text touches).elim

/-! ## Writing -/

/-- The blanks that are written in front of an item. -/
theorem exists_blanks (state : State) (n : Nat) (onLine : Bool) (mark : Mark) :
    ∃ blanks, (state.writeBehind n onLine mark).marks.toList =
        state.marks.toList ++ (blanks ++ [mark]) ∧
      (∀ mark ∈ blanks, mark.isItem = false) ∧
      (blanks.head? = some .tab → state.atLineStart = true) ∧
      (0 < n → state.last.isSome = true → blanks.head? = some .lineFeed) ∧
      (onLine = true → blanks = [] → state.atLineStart = true) := by
  have item (ready : State) : (ready.writeItem mark).marks.toList = ready.marks.toList ++ [mark] :=
    Array.toList_push
  have replicated (blank : Mark) (isBlank : blank.isItem = false) (m : Nat) :
      ∀ mark ∈ List.replicate m blank, mark.isItem = false :=
    fun mark mem => List.eq_of_mem_replicate mem ▸ isBlank
  by_cases broken : 0 < n ∧ state.last.isSome = true
  · obtain ⟨pos, some⟩ := broken
    have breaks : state.breakLines n =
        { state.writeTimes .lineFeed (min n 2) with atLineStart := true } := by
      unfold breakLines
      rw [if_neg]
      simp [Nat.ne_of_gt pos, Option.isSome_iff_ne_none.mp some]
    obtain ⟨m, count⟩ : ∃ m, min n 2 = m + 1 := ⟨min n 2 - 1, by omega⟩
    refine ⟨List.replicate (min n 2) .lineFeed ++
      List.replicate (state.breakLines n).depth .tab, ?_, ?_, ?_, ?_, ?_⟩
    · have starts : (state.breakLines n).atLineStart = true := by rw [breaks]
      have feeds : (state.breakLines n).marks.toList =
          state.marks.toList ++ List.replicate (min n 2) .lineFeed := by
        rw [breaks]
        exact marks_writeTimes _ _ _
      rw [writeBehind, item, if_pos starts, indent, marks_writeTimes, feeds]
      simp only [List.append_assoc]
    · exact List.forall_mem_append.mpr ⟨replicated _ rfl _, replicated _ rfl _⟩
    · simp [count, List.replicate_succ]
    · simp [count, List.replicate_succ]
    · simp [count, List.replicate_succ]
  · have same : state.breakLines n = state := by
      unfold breakLines
      rw [if_pos]
      rw [not_and, Bool.not_eq_true, Option.isSome_eq_false_iff] at broken
      rcases Nat.eq_zero_or_pos n with none | pos
      · simp [none]
      · simp [broken pos]
    rw [writeBehind, item, same]
    cases starts : state.atLineStart with
    | true =>
      refine ⟨List.replicate state.depth .tab, ?_, replicated _ rfl _, fun _ => rfl,
        fun pos some => (broken ⟨pos, some⟩).elim, fun _ _ => rfl⟩
      rw [if_pos rfl, indent, marks_writeTimes, List.append_assoc]
    | false =>
      cases onLine with
      | true =>
        refine ⟨[.space], ?_, replicated .space rfl 1, by simp,
          fun pos some => (broken ⟨pos, some⟩).elim, by simp⟩
        simp [write]
      | false =>
        exact ⟨[], by simp, by simp, by simp, fun pos some => (broken ⟨pos, some⟩).elim, by simp⟩

/-- An item is written where it may stand, if it is kept off the token in front of it or may touch
it, and if the line of a comment is ended. -/
theorem Kempt.isChain_writeBehind {state : State} (kempt : Kempt meets state) (ready : State)
    (marks : ready.marks = state.marks) (last : ready.last = state.last)
    (start : ready.atLineStart = state.atLineStart) {n : Nat} {onLine : Bool} (mark : Mark)
    (off : ∀ text, state.Touches text → onLine = true ∨ (0 < n ∧ state.last.isSome = true) ∨
      Beside meets (.token text) mark)
    (line : state.breaks ≤ n) :
    (ready.writeBehind n onLine mark).marks.toList.IsChain (Beside meets) ∧
      (ready.writeBehind n onLine mark).marks.toList.getLast? = some mark := by
  obtain ⟨blanks, split, blank, tabs, feeds, apart⟩ := ready.exists_blanks n onLine mark
  rw [marks] at split
  rw [last] at feeds
  rw [start] at tabs apart
  rw [split]
  refine ⟨List.isChain_append.mpr ⟨kempt.beside, isChain_blanks blank mark, ?_⟩, by simp⟩
  intro before isLast first isFirst
  have inside (text : String) (touches : state.Touches text) : state.atLineStart = false := by
    by_contra starts
    cases kempt.fresh (Bool.not_eq_false _ ▸ starts) _ touches
  cases before with
  | space | tab | lineFeed => trivial
  | comment text =>
    intro isLine
    obtain ⟨pos, some⟩ := kempt.closes text isLast isLine
    have begins := feeds (Nat.lt_of_lt_of_le pos line) some
    rw [List.head?_append, begins] at isFirst
    exact (Option.some.inj isFirst).symm
  | token text =>
    have inside := inside text isLast
    cases blanks with
    | nil =>
      obtain rfl : mark = first := by simpa using isFirst
      rcases off text isLast with wants | ⟨pos, some⟩ | beside
      · cases (apart wants rfl).symm.trans inside
      · cases feeds pos some
      · exact beside
    | cons next blanks =>
      obtain rfl : next = first := by simpa using isFirst
      have isBlank := blank next List.mem_cons_self
      cases next with
      | token | comment => cases isBlank
      | tab => cases (tabs rfl).symm.trans inside
      | space | lineFeed => trivial

/-- Behind a comment no token is touched. -/
theorem Kempt.comment {state : State} (kempt : Kempt meets state) (text : String) :
    Kempt meets (state.comment text) ∧ ∀ before, ¬(state.comment text).Touches before := by
  let ready : State := { state with
    breaks := 0
    layoutBreaks := if 0 < state.breaks then 0 else state.layoutBreaks }
  obtain ⟨beside, last⟩ := kempt.isChain_writeBehind ready rfl rfl rfl (.comment text)
    (fun _ _ => .inl rfl) (Nat.le_refl _)
  have marks : (state.comment text).marks =
      (ready.writeBehind state.breaks true (.comment text)).marks := by
    unfold State.comment
    split <;> rfl
  rw [← marks] at beside last
  refine ⟨⟨beside, fun before touches => ?_, fun other isLast isLine => ?_, fun starts => ?_⟩,
    fun before touches => ?_⟩
  · cases last.symm.trans touches
  · obtain rfl : text = other := by simpa using last.symm.trans isLast
    have visible : text ≠ "" := by
      rintro rfl
      cases isLine
    unfold State.comment
    rw [if_pos isLine]
    exact ⟨Nat.zero_lt_one, last_writeItem _ visible⟩
  · unfold State.comment at starts
    split at starts <;> cases starts
  · cases last.symm.trans touches

theorem Kempt.flushRows (offset : Nat) (rows : List CommentEntry) {state : State}
    (kempt : Kempt meets state) :
    Kempt meets (State.flushRows offset rows state) ∧
      (∀ next, state.Clear meets next → (State.flushRows offset rows state).Clear meets next) ∧
      ∀ text, (State.flushRows offset rows state).Touches text → state.Touches text := by
  have comments (texts : List String) {state : State} (kempt : Kempt meets state) :
      Kempt meets (texts.foldl State.comment state) ∧
        (∀ next, state.Clear meets next → (texts.foldl State.comment state).Clear meets next) ∧
        ∀ text, (texts.foldl State.comment state).Touches text → state.Touches text := by
    induction texts generalizing state with
    | nil => exact ⟨kempt, fun _ => id, fun _ => id⟩
    | cons text texts ih =>
      obtain ⟨kempt, off⟩ := kempt.comment text
      obtain ⟨kempt, clear, touches⟩ := ih kempt
      exact ⟨kempt, fun next _ => clear next (.of_not_touches off),
        fun before found => (off before (touches before found)).elim⟩
  induction rows generalizing state with
  | nil => exact ⟨⟨kempt.beside, kempt.ends, kempt.closes, kempt.fresh⟩, fun _ => id, fun _ => id⟩
  | cons row rows ih =>
    unfold State.flushRows
    split
    · have asked : Kempt meets { state with breaks := max state.breaks row.spacing.lineBreaks } :=
        ⟨kempt.beside, kempt.ends, fun text last isLine =>
          (kempt.closes text last isLine).imp_left
            fun pos => Nat.lt_of_lt_of_le pos (Nat.le_max_left ..), kempt.fresh⟩
      obtain ⟨kempt, clear, touches⟩ := comments row.texts asked
      obtain ⟨after, clear', touches'⟩ := ih kempt
      refine ⟨after, fun next isClear => clear' next (clear next fun text found => ?_),
        fun text found => touches text (touches' text found)⟩
      refine (isClear text found).imp_right fun asked => asked.imp_left fun pos => ?_
      exact Nat.lt_of_lt_of_le pos (Nat.le_max_left ..)
    · exact ⟨⟨kempt.beside, kempt.ends, kempt.closes, kempt.fresh⟩, fun _ => id, fun _ => id⟩

theorem touches_put (state : State) (text before : String)
    (touches : (state.put text).Touches before) : before = text := by
  obtain ⟨blanks, split, -⟩ := State.exists_blanks { state with
    delimiters := if isCloser text then state.delimiters.tail else state.delimiters
    breaks := 0
    spaced := false
    layoutBreaks := 0
    layoutSpaced := false } (max state.breaks state.layoutBreaks)
      (state.wantsSpace text && text ≠ "," && text ≠ ";") (.token text)
  have last : (state.put text).marks.toList.getLast? = some (.token text) := by
    show (State.writeBehind _ _ _ _).marks.toList.getLast? = _
    rw [split]
    simp
  simpa using touches.symm.trans last

/-- A token is written where it may come next. -/
theorem Kempt.put (lenient : Lenient meets) {state : State} (kempt : Kempt meets state)
    {text : String} (clear : state.Clear meets text) : Kempt meets (state.put text) := by
  let ready : State := { state with
    delimiters := if isCloser text then state.delimiters.tail else state.delimiters
    breaks := 0
    spaced := false
    layoutBreaks := 0
    layoutSpaced := false }
  have off : ∀ before, state.Touches before →
      (state.wantsSpace text && text ≠ "," && text ≠ ";") = true ∨
        (0 < max state.breaks state.layoutBreaks ∧ state.last.isSome = true) ∨
          meets before text := by
    intro before touches
    by_cases follows : text ∈ followers
    · exact .inr (.inr (lenient.follower before text follows))
    by_cases empty : before = ""
    · exact .inr (.inr (empty ▸ lenient.empty text))
    have last := (kempt.ends before touches).resolve_left empty
    have broken : 0 < max state.breaks state.layoutBreaks →
        0 < max state.breaks state.layoutBreaks ∧ state.last.isSome = true := fun pos => by
      rw [last, List.getLast?_isSome, ne_eq, String.toList_eq_nil_iff]
      exact ⟨pos, empty⟩
    by_cases opens : state.afterOpener = true
    · obtain ⟨c, isLast, isOpening⟩ : ∃ c ∈ before.toList.getLast?, c ∈ openings := by
        rw [afterOpener, last, Bool.or_eq_true, Bool.or_eq_true, beq_iff_eq, beq_iff_eq,
          beq_iff_eq] at opens
        rcases opens with (found | found) | found <;> exact ⟨_, found, by decide⟩
      exact .inr (.inr (lenient.opening before text c isLast isOpening))
    simp only [followers, List.mem_cons, List.not_mem_nil, or_false, not_or] at follows
    have wants : (state.wantsSpace text && text ≠ "," && text ≠ ";") =
        (state.spaced || state.layoutSpaced) := by
      simp [wantsSpace, isCloser, follows, opens]
    rcases clear before touches with beside | pos | pos | spaced | spaced
    · exact .inr (.inr beside)
    · exact .inr (.inl (broken (Nat.lt_of_lt_of_le pos (Nat.le_max_left ..))))
    · exact .inr (.inl (broken (Nat.lt_of_lt_of_le pos (Nat.le_max_right ..))))
    · exact .inl (by rw [wants, spaced, Bool.true_or])
    · exact .inl (by rw [wants, spaced, Bool.or_true])
  obtain ⟨beside, last⟩ := kempt.isChain_writeBehind ready rfl rfl rfl (.token text) off
    (Nat.le_max_left _ _)
  refine ⟨beside, fun before touches => ?_, fun other isLast => ?_, fun starts => ?_⟩
  · obtain rfl := touches_put state text before touches
    by_cases empty : before = ""
    · exact .inl empty
    · obtain ⟨c, isLast⟩ : ∃ c, before.toList.getLast? = some c :=
        Option.isSome_iff_exists.mp (by simpa [List.getLast?_isSome] using empty)
      refine .inr ?_
      show before.toList.getLast?.or _ = _
      rw [isLast]
      rfl
  · cases last.symm.trans isLast
  · cases starts

/-! ## Asking for a layout -/

/-- Asking for a layout writes nothing, and nothing asked for is forgotten. -/
structure Asks (state asked : State) : Prop where
  marks : asked.marks = state.marks
  last : asked.last = state.last
  atLineStart : asked.atLineStart = state.atLineStart
  tokens : asked.tokens = state.tokens
  breaks : asked.breaks = state.breaks
  spaced : asked.spaced = state.spaced
  layoutBreaks : state.layoutBreaks ≤ asked.layoutBreaks
  layoutSpaced : state.layoutSpaced = true → asked.layoutSpaced = true

namespace Asks

variable {state asked : State}

theorem touches (asks : Asks state asked) {text : String} :
    asked.Touches text ↔ state.Touches text := by
  rw [Touches, asks.marks, Touches]

theorem kempt (asks : Asks state asked) (kempt : Kempt meets state) : Kempt meets asked where
  beside := asks.marks ▸ kempt.beside
  ends text touches := asks.last ▸ kempt.ends text (asks.touches.mp touches)
  closes text last := by
    rw [asks.breaks, asks.last]
    exact kempt.closes text (asks.marks ▸ last)
  fresh starts := asks.marks ▸ kempt.fresh (asks.atLineStart ▸ starts)

theorem clear (asks : Asks state asked) {next : String} (clear : state.Clear meets next) :
    asked.Clear meets next := by
  intro text touches
  rw [asks.breaks, asks.spaced]
  rcases clear text (asks.touches.mp touches) with meets | pos | pos | spaced | spaced
  · exact .inl meets
  · exact .inr (.inl pos)
  · exact .inr (.inr (.inl (Nat.lt_of_lt_of_le pos asks.layoutBreaks)))
  · exact .inr (.inr (.inr (.inl spaced)))
  · exact .inr (.inr (.inr (.inr (asks.layoutSpaced spaced))))

theorem trans {other : State} (asks : Asks state asked) (more : Asks asked other) :
    Asks state other where
  marks := more.marks.trans asks.marks
  last := more.last.trans asks.last
  atLineStart := more.atLineStart.trans asks.atLineStart
  tokens := more.tokens.trans asks.tokens
  breaks := more.breaks.trans asks.breaks
  spaced := more.spaced.trans asks.spaced
  layoutBreaks := Nat.le_trans asks.layoutBreaks more.layoutBreaks
  layoutSpaced := more.layoutSpaced ∘ asks.layoutSpaced

end Asks

theorem asks_refl (state : State) : Asks state state :=
  ⟨rfl, rfl, rfl, rfl, rfl, rfl, Nat.le_refl _, id⟩

theorem asks_askLine (state : State) : Asks state state.askLine :=
  ⟨rfl, rfl, rfl, rfl, rfl, rfl, Nat.le_max_left .., id⟩

theorem asks_askSpace (state : State) : Asks state state.askSpace :=
  ⟨rfl, rfl, rfl, rfl, rfl, rfl, Nat.le_refl _, fun _ => rfl⟩

theorem clear_askLine (state : State) (next : String) : state.askLine.Clear meets next :=
  fun _ _ => .inr (.inr (.inl (Nat.lt_of_lt_of_le Nat.zero_lt_one (Nat.le_max_right ..))))

theorem clear_askSpace (state : State) (next : String) : state.askSpace.Clear meets next :=
  fun _ _ => .inr (.inr (.inr (.inr rfl)))

theorem SetOff.asks {state next : State} (off : SetOff state next) : Asks state next := by
  cases off with
  | nothing => exact state.asks_refl
  | space => exact state.asks_askSpace
  | line => exact state.asks_askLine

theorem asks_askGap (state : State) (tokens : Nat) (gap : Gap) (content : Bool) :
    Asks state (state.askGap tokens gap content) :=
  (setOff_askGap state tokens gap content).asks

theorem asks_askElement (state : State) (tokens : Nat) (plan : ListPlan) (first : Bool) :
    Asks state (state.askElement tokens plan first) :=
  (setOff_askElement state tokens plan first).asks

/-- Another element behind the first one is set off by a blank. -/
theorem clear_askElement (state : State) (tokens : Nat) (plan : ListPlan) (next : String) :
    (state.askElement tokens plan false).Clear meets next := by
  unfold askElement
  split
  · exact state.clear_askLine next
  · exact state.clear_askSpace next

theorem asks_askContinuation (state : State) (tokens : Nat) (kind : NodeKind) (anchor : Anchor)
    (slot : PositionalSlot) : Asks state (state.askContinuation tokens kind anchor slot) := by
  unfold askContinuation
  split
  · exact { state.asks_refl with }
  · exact state.asks_refl

theorem asks_enter (state : State) (kind : NodeKind) : Asks state (state.enter kind) := by
  unfold enter
  split
  · exact { state.asks_refl with }
  · exact state.asks_refl

theorem tokens_token (state : State) (offset : Nat) (text : String) :
    (state.token offset text).tokens = state.tokens + 1 := by
  rw [token_eq_put]
  exact congrArg (· + 1)
    ((tokens_writeBehind _ _ _ _).trans (tokens_flush state offset))

theorem Kempt.token (lenient : Lenient meets) {state : State} (kempt : Kempt meets state)
    (offset : Nat) {text : String} (clear : state.Clear meets text) :
    Kempt meets (state.token offset text) := by
  obtain ⟨flushed, stays, -⟩ := kempt.flushRows offset state.table
  rw [token_eq_put]
  exact flushed.put lenient (stays text clear)

theorem touches_token (state : State) (offset : Nat) (text : String) {before : String}
    (touches : (state.token offset text).Touches before) : before = text := by
  rw [token_eq_put] at touches
  exact touches_put _ _ _ touches

/-! ## What is printed -/

/-- The first token, if there is one, may come next. -/
def StartsClear (meets : String → String → Prop) (first : Option Lexeme) (state : State) : Prop :=
  ∀ lexeme ∈ first, state.Clear meets lexeme.text

/-- Something was printed that begins with a token and consists of some.  What is touched behind it
is the last of them or the separator behind that.  If no token was printed, what was asked for is
still asked for. -/
structure Printed (meets : String → String → Prop) (first : Option Lexeme) (content : List Lexeme)
    (state after : State) : Prop where
  kempt : Kempt meets after
  tokens : state.tokens ≤ after.tokens
  silent : after.tokens = state.tokens → first = none ∧ content = [] ∧
    ∀ next, state.Clear meets next → after.Clear meets next
  ends : ∀ text, after.Touches text → text = "," ∨ text ∈ content.getLast?.map (·.text) ∨
    (after.tokens = state.tokens ∧ state.Touches text)

namespace Printed

variable {first later : Option Lexeme} {content rest : List Lexeme} {state between after : State}

theorem of_asks (kempt : Kempt meets state) (asks : Asks state after) :
    Printed meets none [] state after where
  kempt := asks.kempt kempt
  tokens := Nat.le_of_eq asks.tokens.symm
  silent _ := ⟨rfl, rfl, fun _ => asks.clear⟩
  ends _ touches := .inr (.inr ⟨asks.tokens, asks.touches.mp touches⟩)

theorem trans (printed : Printed meets first content state between)
    (more : Printed meets later rest between after) :
    Printed meets (first.or later) (content ++ rest) state after where
  kempt := more.kempt
  tokens := Nat.le_trans printed.tokens more.tokens
  silent same := by
    have le := printed.tokens
    have le' := more.tokens
    obtain ⟨rfl, rfl, clear⟩ := printed.silent (by omega)
    obtain ⟨rfl, rfl, clear'⟩ := more.silent (by omega)
    exact ⟨rfl, rfl, fun next => clear' next ∘ clear next⟩
  ends text touches := by
    rcases more.ends text touches with comma | last | ⟨same, touches⟩
    · exact .inl comma
    · refine .inr (.inl ?_)
      obtain ⟨lexeme, isLast, isText⟩ := Option.map_eq_some_iff.mp last
      rw [List.getLast?_append, isLast]
      exact congrArg some isText
    · obtain ⟨-, rfl, -⟩ := more.silent same
      rw [List.append_nil, same]
      exact printed.ends text touches

theorem asked (asks : Asks state between) (printed : Printed meets first content between after) :
    Printed meets first content state after where
  kempt := printed.kempt
  tokens := asks.tokens ▸ printed.tokens
  silent same := by
    obtain ⟨none, empty, clear⟩ := printed.silent (same.trans asks.tokens.symm)
    exact ⟨none, empty, fun next => clear next ∘ asks.clear⟩
  ends text touches := by
    rw [← asks.tokens, ← asks.touches]
    exact printed.ends text touches

theorem asks (printed : Printed meets first content state between) (asks : Asks between after) :
    Printed meets first content state after where
  kempt := asks.kempt printed.kempt
  tokens := asks.tokens.symm ▸ printed.tokens
  silent same := by
    obtain ⟨none, empty, clear⟩ := printed.silent (asks.tokens.symm.trans same)
    exact ⟨none, empty, fun next => asks.clear ∘ clear next⟩
  ends text touches := by
    rw [asks.tokens]
    exact printed.ends text (asks.touches.mp touches)

/-- Only what comes first matters. -/
theorem of_or (printed : Printed meets (first.or later) content state after) :
    Printed meets first content state after where
  kempt := printed.kempt
  tokens := printed.tokens
  silent same := (printed.silent same).imp_left fun none => (Option.or_eq_none_iff.mp none).1
  ends := printed.ends

theorem token (lenient : Lenient meets) (kempt : Kempt meets state) {lexeme : Lexeme}
    (clear : state.Clear meets lexeme.text) :
    Printed meets (some lexeme) [lexeme] state (state.token lexeme.span.start lexeme.text) where
  kempt := kempt.token lenient _ clear
  tokens := by
    rw [tokens_token]
    exact Nat.le_succ _
  silent same := by
    rw [tokens_token] at same
    omega
  ends text touches := .inr (.inl (touches_token _ _ _ touches ▸ rfl))

/-- The separators of a list are commas. -/
theorem separator (lenient : Lenient meets) (kempt : Kempt meets state) {plan : ListPlan}
    (commas : ∀ text ∈ plan.separator, text = ",") (offset : Nat) (last : Bool) :
    Printed meets none [] state (state.separator plan offset last) := by
  unfold State.separator
  cases found : plan.separator with
  | none => exact of_asks kempt state.asks_refl
  | some text =>
    obtain rfl := commas text found
    dsimp only
    split
    · refine ⟨kempt.token lenient offset fun text _ => .inl (lenient.follower text "," (by decide)),
        ?_, fun same => ?_, fun text touches => .inl (touches_token _ _ _ touches)⟩
      · rw [tokens_token]
        exact Nat.le_succ _
      · rw [tokens_token] at same
        omega
    · exact of_asks kempt state.asks_refl

end Printed

end State

end Print

/-! ## Seams -/

namespace AnchorShape

/-- Whether the content of an anchor is set off by a blank, unless it begins with a bracket. -/
def isSpaced (shape : AnchorShape) : Bool :=
  match shape.gap, shape.slot with
  | .space, _ | .line, _ | .spaceUnlessParen, .child => true
  | _, _ => false

/-- Whether an anchor holds a list on lines of its own. -/
def isLined (shape : AnchorShape) : Bool :=
  match shape.slot with
  | .list layout => layout.style == .lines
  | _ => false

end AnchorShape

/-- The text of the last token in a slot. -/
def lastText? (slot : PositionalSlot) : Option String := (tokensSlot slot).getLast?.map (·.text)

/-- Slots with seams between them at which tokens may touch or are set off by a blank, behind a slot
that ends with a text. -/
def Seamed (meets : String → String → Prop) :
    Option String → List AnchorShape → List PositionalSlot → Prop
  | last, shape :: shapes, slot :: slots =>
    (shape.isSpaced = true ∨ shape.isLined = true ∨
      ∀ text ∈ last, ∀ lexeme ∈ slotToken? slot, meets text lexeme.text) ∧
    Seamed meets ((lastText? slot).or last) shapes slots
  | _, _, _ => True

/-- Nodes with such slots. -/
def AllSeamed (meets : String → String → Prop) (nodes : List Positional) : Prop :=
  ∀ node ∈ nodes, Seamed meets none (standardShape node.kind).anchors node.slots

/-! ## Seams in shapes -/

/-- Whether an anchor holds a token. -/
def AnchorShape.isToken (shape : AnchorShape) : Bool :=
  match shape.slot with
  | .token _ => true
  | _ => false

/-- Anchors back to one that holds a token. -/
def backTo (anchor : Anchor) : List AnchorShape → List AnchorShape
  | [] => []
  | shape :: earlier =>
    shape :: if shape.anchor = anchor ∧ shape.isToken = true then [] else backTo anchor earlier

/-- Those of the earlier anchors, the latest first, that may be the last with a text in front of an
anchor that is filled. -/
def AnchorShape.neighbours (shape : AnchorShape) (earlier : List AnchorShape) : List AnchorShape :=
  match shape.presence with
  | .together other => backTo other earlier
  | _ => earlier

/-- Whether each of these anchors is set off by a blank or may touch whichever of the earlier ones
is the last with a text. -/
def joinsAll (joins : AnchorShape → AnchorShape → Bool) :
    List AnchorShape → List AnchorShape → Bool
  | _, [] => true
  | earlier, shape :: shapes =>
    (shape.isSpaced || shape.isLined || (shape.neighbours earlier).all (joins · shape)) &&
      joinsAll joins (if shape.presence = .required ∧ shape.isToken = true then [shape]
        else shape :: earlier) shapes

/-- A slot that fits its anchor, with what its first and its last text are like. -/
structure Edged (begins ends : AnchorShape → String → Prop) (free : Anchor → String → Prop)
    (filled : Anchor → Bool) (shape : AnchorShape) (slot : PositionalSlot) : Prop
    extends Fitted free filled shape slot where
  begins : ∀ lexeme ∈ slotToken? slot, begins shape lexeme.text
  ends : ∀ text ∈ lastText? slot, ends shape text

/-- The last text stands at one of the earlier anchors, and behind that there is none. -/
def LastAt (ends : AnchorShape → String → Prop) (filled : Anchor → Bool)
    (earlier : List AnchorShape) (text : String) : Prop :=
  ∃ newer shape older, earlier = newer ++ shape :: older ∧ ends shape text ∧
    ∀ other ∈ newer, other.isToken = true → filled other.anchor = false

section Edges

variable {begins ends : AnchorShape → String → Prop} {free : Anchor → String → Prop}
  {filled : Anchor → Bool} {shape : AnchorShape} {earlier : List AnchorShape} {text : String}

theorem mem_backTo {anchor : Anchor} {newer older : List AnchorShape}
    (none : ∀ other ∈ newer, other.isToken = true → other.anchor ≠ anchor) :
    shape ∈ backTo anchor (newer ++ shape :: older) := by
  induction newer with
  | nil => exact List.mem_cons_self
  | cons other newer ih =>
    obtain ⟨here, others⟩ := List.forall_mem_cons.mp none
    rw [List.cons_append, backTo, if_neg fun found => here found.2 found.1]
    exact List.mem_cons_of_mem _ (ih others)

/-- In front of an anchor that is filled, the last text stands at one of its neighbours. -/
theorem LastAt.exists_neighbour {slot : PositionalSlot} (last : LastAt ends filled earlier text)
    (fitted : Fitted free filled shape slot) (present : slot.isPresent = true) :
    ∃ previous ∈ shape.neighbours earlier, ends previous text := by
  obtain ⟨newer, previous, older, rfl, isEnd, none⟩ := last
  refine ⟨previous, ?_, isEnd⟩
  unfold AnchorShape.neighbours
  split
  · next other isTogether =>
    refine mem_backTo fun shape mem isToken same => ?_
    have absent := none shape mem isToken
    rw [same, ← fitted.together other isTogether, ← fitted.own, present] at absent
    cases absent
  · simp

theorem isPresent_of_slotToken? {slot : PositionalSlot} {lexeme : Lexeme}
    (starts : lexeme ∈ slotToken? slot) : slot.isPresent = true := by
  cases slot with
  | token token => exact Option.isSome_iff_exists.mpr ⟨lexeme, starts⟩
  | child child =>
    cases child with
    | none => cases starts
    | some child => rfl
  | list elements =>
    cases elements with
    | nil => cases starts
    | cons element elements => rfl

/-- Behind an anchor the last text stands there or where it stood before. -/
theorem LastAt.or {slot : PositionalSlot} (edged : Edged begins ends free filled shape slot)
    {last : Option String} (before : ∀ text ∈ last, LastAt ends filled earlier text) :
    ∀ text ∈ (lastText? slot).or last, LastAt ends filled
      (if shape.presence = .required ∧ shape.isToken = true then [shape] else shape :: earlier)
        text := by
  intro text isLast
  cases found : lastText? slot with
  | some own =>
    obtain rfl : own = text := by simpa [found] using isLast
    have isEnd := edged.ends own found
    split
    · exact ⟨[], shape, [], rfl, isEnd, by simp⟩
    · exact ⟨[], shape, earlier, rfl, isEnd, by simp⟩
  | none =>
    rw [found, Option.none_or] at isLast
    have vacant (isToken : shape.isToken = true) : filled shape.anchor = false := by
      have isKind := edged.kind
      unfold AnchorShape.isToken at isToken
      rw [← edged.own]
      cases slot with
      | token token =>
        cases token with
        | none => rfl
        | some lexeme => cases found
      | child | list =>
        split at isToken
        · next isSlot => simp [isSlot, Slot.fits] at isKind
        · cases isToken
    split
    · next required => cases (vacant required.2).symm.trans (edged.required required.1)
    · obtain ⟨newer, previous, older, rfl, isEnd, none⟩ := before text isLast
      exact ⟨shape :: newer, previous, older, rfl, isEnd,
        List.forall_mem_cons.mpr ⟨vacant, none⟩⟩

/-- Slots have seams as their anchors do. -/
theorem seamed_of_joinsAll {meets : String → String → Prop}
    {joins : AnchorShape → AnchorShape → Bool}
    (sound : ∀ previous shape text next, joins previous shape = true → ends previous text →
      begins shape next → meets text next) {shapes : List AnchorShape}
    {slots : List PositionalSlot}
    (edged : List.Forall₂ (Edged begins ends free filled) shapes slots)
    (joined : joinsAll joins earlier shapes = true) {last : Option String}
    (before : ∀ text ∈ last, LastAt ends filled earlier text) : Seamed meets last shapes slots := by
  induction edged generalizing earlier last with
  | nil => exact trivial
  | @cons shape slot shapes slots here _ ih =>
    rw [joinsAll, Bool.and_eq_true, Bool.or_eq_true, Bool.or_eq_true] at joined
    refine ⟨?_, ih joined.2 (LastAt.or here before)⟩
    rcases joined.1 with (spaced | lined) | all
    · exact .inl spaced
    · exact .inr (.inl lined)
    · refine .inr (.inr fun text isLast lexeme starts => ?_)
      obtain ⟨previous, mem, isEnd⟩ := (before text isLast).exists_neighbour here.toFitted
        (isPresent_of_slotToken? starts)
      exact sound previous shape text lexeme.text (List.all_eq_true.mp all previous mem) isEnd
        (here.begins lexeme starts)

end Edges

/-! ## The walk -/

open Print (Lenient)
open Print.State (Clear StartsClear Printed Asks Kempt)

variable {meets : String → String → Prop} {free : FreeTexts}

/-- A gap that is asked for sets off what comes next. -/
theorem clear_askGap {state : State} {tokens : Nat} (more : state.tokens ≠ tokens)
    {shape : AnchorShape} (spaced : shape.isSpaced = true) {content : Bool}
    (filled : shape.slot = .child → content = true) (next : String) :
    (state.askGap tokens shape.gap content).Clear meets next := by
  unfold State.askGap
  rw [if_neg more]
  unfold AnchorShape.isSpaced at spaced
  split at spaced
  · next isGap => rw [isGap]; exact state.clear_askSpace next
  · next isGap => rw [isGap]; exact state.clear_askLine next
  · next isGap isChild =>
    rw [isGap, filled isChild]
    exact state.clear_askSpace next
  · cases spaced

/-- A node that begins with anything but a bracket does not begin with a bracket. -/
theorem beginsWithParen_eq_false {tree : Positional} {lexeme : Lexeme}
    (starts : lexeme ∈ firstToken? tree) (other : lexeme.text ≠ "(") :
    (!beginsWithParen tree) = true := by
  have first : firstToken? tree = some lexeme := starts
  simp [beginsWithParen, first, other]

/-- What holds in front of the slots of a node that are still to be printed. -/
structure Unprinted (meets : String → String → Prop) (tokens : Nat) (last : Option String)
    (shapes : List AnchorShape) (slots : List PositionalSlot) (state : State) : Prop where
  kempt : Kempt meets state
  since : tokens ≤ state.tokens
  seamed : Seamed meets last shapes slots
  begins : state.tokens = tokens → StartsClear meets (firstTokenSlots? slots) state
  behind : state.tokens ≠ tokens → ∀ text, state.Touches text → text = "," ∨ text ∈ last

namespace Unprinted

variable {tokens : Nat} {last : Option String} {shape : AnchorShape} {shapes : List AnchorShape}
  {slot : PositionalSlot} {slots : List PositionalSlot} {state between : State}

/-- In front of a token the layout asks for a blank, unless the token may come anyway. -/
theorem clear_or_spaced (lenient : Lenient meets)
    (unprinted : Unprinted meets tokens last (shape :: shapes) (slot :: slots) state)
    {lexeme : Lexeme} (starts : lexeme ∈ slotToken? slot) :
    state.Clear meets lexeme.text ∨
      (state.tokens ≠ tokens ∧ (shape.isSpaced = true ∨ shape.isLined = true)) := by
  by_cases same : state.tokens = tokens
  · refine .inl (unprinted.begins same lexeme ?_)
    rw [firstTokenSlots?, show slotToken? slot = some lexeme from starts]
    rfl
  rcases unprinted.seamed.1 with spaced | lined | touching
  · exact .inr ⟨same, .inl spaced⟩
  · exact .inr ⟨same, .inr lined⟩
  · refine .inl fun text touches => .inl ?_
    rcases unprinted.behind same text touches with rfl | isLast
    · exact lenient.comma lexeme.text
    · exact touching text isLast lexeme starts

/-- The gap in front of a token or a child sets it off. -/
theorem startsClear_askGap (lenient : Lenient meets) {free : Anchor → String → Prop}
    {filled : Anchor → Bool}
    (unprinted : Unprinted meets tokens last (shape :: shapes) (slot :: slots) state)
    (fitted : Fitted free filled shape slot)
    (single : ∀ elements separators, slot ≠ .list elements separators) (asks : Asks state between)
    (content : Bool) (set : shape.slot = .child →
      ∀ lexeme ∈ slotToken? slot, lexeme.text ≠ "(" → content = true) :
    StartsClear meets (slotToken? slot) (between.askGap tokens shape.gap content) := by
  intro lexeme starts
  by_cases paren : lexeme.text = "("
  · rw [paren]
    exact fun text _ => .inl (lenient.follower text "(" (by decide))
  rcases unprinted.clear_or_spaced lenient starts with clear | ⟨more, spaced | lined⟩
  · exact (asks.trans (between.asks_askGap ..)).clear clear
  · exact clear_askGap (asks.tokens.symm ▸ more) spaced (set · lexeme starts paren) _
  · have isKind := fitted.kind
    unfold AnchorShape.isLined at lined
    split at lined
    · next isList =>
      cases slot with
      | list elements separators => exact (single elements separators rfl).elim
      | token | child => simp [isList, Slot.fits] at isKind
    · cases lined

/-- The layout in front of a list sets off its first element. -/
theorem startsClear_askElement (lenient : Lenient meets) {node : Positional} {layout : ListLayout}
    {elements : List Positional} {separators : List Span} {following : List PositionalSlot}
    (isList : shape.slot = .list layout)
    (unprinted : Unprinted meets tokens last (shape :: shapes)
      (.list elements separators :: slots) state)
    (asks : Asks state between) :
    StartsClear meets (slotToken? (.list elements separators))
      (between.askElement tokens (listPlan node shape layout following) true) := by
  intro lexeme starts
  rcases unprinted.clear_or_spaced lenient starts with clear | ⟨more, set⟩
  · exact (asks.trans (between.asks_askElement ..)).clear clear
  unfold State.askElement
  split
  · exact between.clear_askLine _
  · next inline =>
    rcases set with spaced | lined
    · exact clear_askGap (asks.tokens.symm ▸ more) spaced (fun _ => rfl) _
    · refine (inline ?_).elim
      have style : layout.style = .lines := by simpa [AnchorShape.isLined, isList] using lined
      rw [listPlan, style]
      rfl

/-- Behind a slot the others are still to be printed. -/
theorem rest (unprinted : Unprinted meets tokens last (shape :: shapes) (slot :: slots) state)
    (printed : Printed meets (slotToken? slot) (tokensSlot slot) state between) :
    Unprinted meets tokens ((lastText? slot).or last) shapes slots between where
  kempt := printed.kempt
  since := Nat.le_trans unprinted.since printed.tokens
  seamed := unprinted.seamed.2
  begins same lexeme starts := by
    have le := printed.tokens
    have since := unprinted.since
    obtain ⟨none, -, clear⟩ := printed.silent (by omega)
    refine clear _ (unprinted.begins (by omega) lexeme ?_)
    rw [firstTokenSlots?, none]
    exact starts
  behind more text touches := by
    rcases printed.ends text touches with comma | isLast | ⟨same, touches⟩
    · exact .inl comma
    · refine .inr ?_
      rw [show lastText? slot = some text from isLast]
      rfl
    · obtain ⟨-, empty, -⟩ := printed.silent same
      rw [lastText?, empty]
      exact unprinted.behind (same ▸ more) text touches

end Unprinted

/-- Printing keeps tokens apart that may not touch, if the first token may come next. -/
def KeepsApart (meets : String → String → Prop) (first : Option Lexeme) (content : List Lexeme)
    (walk : Printer Unit) : Prop :=
  ∀ state, Kempt meets state → StartsClear meets first state →
    ∃ after, walk.run state = .ok ((), after) ∧ Printed meets first content state after

mutual
theorem keepsApart_tree (lenient : Lenient meets) : ∀ tree : Positional, AllFit free tree.preorder →
    AllSeamed meets tree.preorder →
    KeepsApart meets (firstToken? tree) tree.tokens (Print.tree .standard tree)
  | .node kind span slots, fits, seamed => by
      rw [preorder] at fits seamed
      obtain ⟨⟨filled, fitted⟩, below⟩ := List.forall_mem_cons.mp fits
      obtain ⟨seams, seamed⟩ := List.forall_mem_cons.mp seamed
      intro state kempt starts
      have enters := state.asks_enter kind
      rw [firstToken?] at starts ⊢
      rw [SlotTree.tokens]
      obtain ⟨after, run, printed⟩ := keepsApart_slots lenient (.node kind span slots) state.tokens
        _ slots fitted (fun _ mem => mem) below seamed none (state.enter kind) {
          kempt := enters.kempt kempt
          since := Nat.le_of_eq enters.tokens.symm
          seamed := seams
          begins := fun _ lexeme first => enters.clear (starts lexeme first)
          behind := fun more => (more enters.tokens).elim }
      refine ⟨_, run_tree rfl run, (printed.asked enters).asks ?_⟩
      exact { after.asks_refl with }

theorem keepsApart_slots (lenient : Lenient meets) (node : Positional) (tokens : Nat)
    {filled : Anchor → Bool} :
    ∀ (shapes : List AnchorShape) (slots : List PositionalSlot),
      List.Forall₂ (Fitted (free node.kind) filled) shapes slots →
      (∀ shape ∈ shapes, shape ∈ (standardShape node.kind).anchors) →
      AllFit free (preorderSlots slots) → AllSeamed meets (preorderSlots slots) →
      ∀ (last : Option String) (state : State),
        Unprinted meets tokens last shapes slots state →
        ∃ after, (printSlots .standard node tokens shapes slots).run state = .ok ((), after) ∧
          Printed meets (firstTokenSlots? slots) (tokensSlots slots) state after
  | _, [], .nil, _, _, _, _, state, unprinted => by
      rw [firstTokenSlots?, tokensSlots]
      exact ⟨state, rfl, .of_asks unprinted.kempt state.asks_refl⟩
  | shape :: shapes, slot :: slots, .cons here rest, among, below, seamed, last, state,
      unprinted => by
      rw [preorderSlots_cons] at below seamed
      obtain ⟨inside, others⟩ := List.forall_mem_append.mp below
      obtain ⟨insideSeamed, othersSeamed⟩ := List.forall_mem_append.mp seamed
      obtain ⟨isAnchor, among⟩ := List.forall_mem_cons.mp among
      obtain ⟨between, run, printed⟩ := keepsApart_slot lenient node tokens shape shapes slots
        isAnchor slot here inside insideSeamed last state unprinted
      obtain ⟨after, run', printed'⟩ := keepsApart_slots lenient node tokens shapes slots rest among
        others othersSeamed _ between (unprinted.rest printed)
      rw [firstTokenSlots?, tokensSlots]
      exact ⟨after, run_printSlots run run', printed.trans printed'⟩

theorem keepsApart_slot (lenient : Lenient meets) (node : Positional) (tokens : Nat)
    {filled : Anchor → Bool} (shape : AnchorShape) (shapes : List AnchorShape)
    (following : List PositionalSlot) (isAnchor : shape ∈ (standardShape node.kind).anchors) :
    ∀ slot : PositionalSlot, Fitted (free node.kind) filled shape slot →
      AllFit free (preorderSlots [slot]) → AllSeamed meets (preorderSlots [slot]) →
      ∀ (last : Option String) (state : State),
        Unprinted meets tokens last (shape :: shapes) (slot :: following) state →
        ∃ after, (printSlot .standard node tokens shape following slot).run
            (state.askContinuation tokens node.kind shape.anchor slot) = .ok ((), after) ∧
          Printed meets (slotToken? slot) (tokensSlot slot) state after
  | .token none, _, _, _, _, state, unprinted =>
      ⟨_, rfl, .of_asks unprinted.kempt
        (state.asks_askContinuation tokens node.kind shape.anchor (.token none))⟩
  | .token (some lexeme), fitted, _, _, _, state, unprinted => by
      have asks := state.asks_askContinuation tokens node.kind shape.anchor (.token (some lexeme))
      have asks' := State.asks_askGap (state.askContinuation tokens node.kind shape.anchor
        (.token (some lexeme))) tokens shape.gap (following.head?.any Slot.isPresent)
      have kempt := (asks.trans asks').kempt unprinted.kempt
      have clear := unprinted.startsClear_askGap lenient fitted (by rintro _ _ ⟨⟩) asks
        (following.head?.any Slot.isPresent) (fun isChild => by
          have isKind := fitted.kind
          simp [isChild, Slot.fits] at isKind) lexeme rfl
      exact ⟨_, rfl, (Printed.token lenient kempt clear).asked (asks.trans asks')⟩
  | .child none, _, _, _, _, state, unprinted =>
      ⟨_, rfl, .of_asks unprinted.kempt
        (state.asks_askContinuation tokens node.kind shape.anchor (.child none))⟩
  | .child (some child), fitted, below, seamed, _, state, unprinted => by
      have asks := state.asks_askContinuation tokens node.kind shape.anchor (.child (some child))
      have asks' := State.asks_askGap (state.askContinuation tokens node.kind shape.anchor
        (.child (some child))) tokens shape.gap (!beginsWithParen child)
      obtain ⟨after, run, printed⟩ := keepsApart_tree lenient child
        (by simpa [preorderSlots] using below) (by simpa [preorderSlots] using seamed) _
        ((asks.trans asks').kempt unprinted.kempt)
        (unprinted.startsClear_askGap lenient fitted (by rintro _ _ ⟨⟩) asks _
          fun _ lexeme starts other => beginsWithParen_eq_false starts other)
      exact ⟨after, run_printSlot_child run, printed.asked (asks.trans asks')⟩
  | .list elements separators, fitted, below, seamed, _, state, unprinted => by
      obtain ⟨layout, isList⟩ := fitted.exists_layout
      have asks := state.asks_askContinuation tokens node.kind shape.anchor
        (.list elements separators)
      have commas : ∀ text ∈ layout.separator, text = "," := fun text isText =>
        separator_standard node.kind shape isAnchor text (by rwa [isList])
      obtain ⟨after, run, printed⟩ := keepsApart_elements lenient tokens
        (listPlan node shape layout following) commas true separators elements
        (by simpa [preorderSlots] using below) (by simpa [preorderSlots] using seamed) _
        (asks.kempt unprinted.kempt)
        (fun _ => unprinted.startsClear_askElement lenient isList asks)
      refine ⟨_, run_printSlot_list isList run, (printed.asked asks).asks ?_⟩
      split
      · exact after.asks_askLine
      · exact after.asks_refl

theorem keepsApart_elements (lenient : Lenient meets) (tokens : Nat) (plan : ListPlan)
    (commas : ∀ text ∈ plan.separator, text = ",") :
    ∀ (first : Bool) (separators : List Span) (elements : List Positional),
      AllFit free (preorderElements elements) → AllSeamed meets (preorderElements elements) →
      ∀ state : State, Kempt meets state →
        (first = true → StartsClear meets (slotToken? (.list elements separators))
          (state.askElement tokens plan true)) →
        ∃ after, (printElements .standard tokens plan first separators elements).run state =
            .ok ((), after) ∧
          Printed meets (slotToken? (.list elements separators)) (tokensElements elements) state
            after
  | _, _, [], _, _ => fun state kempt _ => by
      rw [tokensElements]
      exact ⟨state, rfl, .of_asks kempt state.asks_refl⟩
  | first, separators, element :: elements, below, seamed => by
      intro state kempt starts
      rw [preorderElements] at below seamed
      obtain ⟨inside, others⟩ := List.forall_mem_append.mp below
      obtain ⟨insideSeamed, othersSeamed⟩ := List.forall_mem_append.mp seamed
      have asks := state.asks_askElement tokens plan first
      have clear :
          StartsClear meets (firstToken? element) (state.askElement tokens plan first) := by
        cases first with
        | true => exact starts rfl
        | false => exact fun _ _ => state.clear_askElement tokens plan _
      obtain ⟨between, run, printed⟩ :=
        keepsApart_tree lenient element inside insideSeamed _ (asks.kempt kempt) clear
      have separated := Printed.separator lenient printed.kempt commas
        ((separators.head?.map Span.start).getD element.span.stop) elements.isEmpty
      obtain ⟨after, run', printed'⟩ := keepsApart_elements lenient tokens plan commas false
        (separators.drop 1) elements others othersSeamed _ separated.kempt (by rintro ⟨⟩)
      refine ⟨after, run_printElements run run', ?_⟩
      rw [tokensElements]
      exact ((printed.asked asks).trans (separated.trans printed')).of_or
end

/-- **Touching tokens.** The marks of a tree that fits the standard shapes stand side by side as
they may, if its tokens may touch at every seam. -/
theorem exists_marks_beside (lenient : Lenient meets) {root : Positional}
    (fits : AllFit free root.preorder) (seamed : AllSeamed meets root.preorder)
    (table : List CommentEntry) :
    ∃ marks, Print.marks .standard root table = .ok marks ∧ marks.IsChain (Print.Beside meets) := by
  obtain ⟨after, run, printed⟩ := keepsApart_tree lenient root fits seamed (.start table)
    (.start table) fun _ _ _ touches => by cases touches
  refine ⟨(after.flush lastOffset).marks.toList, ?_, ?_⟩
  · rw [Print.marks, run]
    rfl
  · exact (printed.kempt.flushRows lastOffset after.table).1.beside

end GoTrivia
