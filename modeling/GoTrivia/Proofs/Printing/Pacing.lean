import GoTrivia.Proofs.Printing.Trail
import GoTrivia.Proofs.Printing.Writing
import Mathlib.Data.List.Forall2

/-!
# Line feeds between what is printed

Comments are written behind exactly as many line feeds as were asked for, tokens behind at
least as many, and behind one if the layout wants a new line; more than two never count.  The
printer keeps track of this in its state: nothing blank is left behind the last item, the
breaks it remembers are those asked for since, and the layout adds one at most.
-/

set_option autoImplicit false

namespace GoTrivia

namespace Print

/-! ## Line feeds in front of items -/

/-- The line feeds behind the last item, given those in front of a mark. -/
def feedsBehind (feeds : Nat) : Mark → Nat
  | .token _ => 0
  | .comment _ => 0
  | .space => feeds
  | .tab => feeds
  | .lineFeed => feeds + 1

/-- The tokens and comments of marks, each with the line feeds in front of it. -/
def spaced : Nat → List Mark → List (Mark × Nat)
  | _, [] => []
  | feeds, mark :: marks =>
    (if mark.isItem then [(mark, feeds)] else []) ++ spaced (feedsBehind feeds mark) marks

theorem spaced_append (feeds : Nat) (marks more : List Mark) :
    spaced feeds (marks ++ more) = spaced feeds marks ++ spaced (marks.foldl feedsBehind feeds) more := by
  induction marks generalizing feeds with
  | nil => rfl
  | cons mark marks ih => rw [List.cons_append, spaced, spaced, ih, List.append_assoc, List.foldl_cons]

theorem map_fst_spaced (feeds : Nat) (marks : List Mark) :
    (spaced feeds marks).map Prod.fst = marks.filter Mark.isItem := by
  induction marks generalizing feeds with
  | nil => rfl
  | cons mark marks ih =>
    rw [spaced, List.map_append, ih, List.filter_cons]
    cases mark.isItem <;> rfl

/-- Something is written behind the line feeds asked for, or on a new line if none were. -/
structure Follows (asked printed : Mark × Nat) : Prop where
  mark : asked.1 = printed.1
  enough : asked.2 ≤ printed.2
  most : printed.2 ≤ max asked.2 1

namespace State

/-- What was written so far, with line feeds. -/
def printed (state : State) : List (Mark × Nat) := Print.spaced 0 state.marks.toList

/-- The line feeds behind the last item. -/
def feeds (state : State) : Nat := state.marks.toList.foldl feedsBehind 0

/-- The line feeds that asking for some writes. -/
def fed (state : State) (n : Nat) : Nat := if state.last.isSome then min n 2 else 0

/-! ## Writing blanks -/

theorem printed_write (state : State) (mark : Mark) :
    (state.write mark).printed =
      state.printed ++ if mark.isItem then [(mark, state.feeds)] else [] := by
  rw [printed, write, Array.toList_push, spaced_append, printed, feeds, Print.spaced, Print.spaced,
    List.append_nil]

theorem feeds_write (state : State) (mark : Mark) :
    (state.write mark).feeds = feedsBehind state.feeds mark := by
  rw [feeds, write, Array.toList_push, List.foldl_append, feeds]
  rfl

/-- Blanks were written, and nothing else changed but what they say about the line. -/
structure Blank (state other : State) : Prop where
  printed : other.printed = state.printed
  breaks : other.breaks = state.breaks
  layoutBreaks : other.layoutBreaks = state.layoutBreaks

theorem blank_writeTimes {mark : Mark} (blank : mark.isItem = false) :
    ∀ (n : Nat) (state : State), Blank state (state.writeTimes mark n)
  | 0, _ => ⟨rfl, rfl, rfl⟩
  | n + 1, state => by
      obtain ⟨printed, breaks, layoutBreaks⟩ := blank_writeTimes blank n (state.write mark)
      rw [printed_write, blank] at printed
      exact ⟨printed.trans (List.append_nil _), breaks, layoutBreaks⟩

theorem feeds_writeTimes_tab : ∀ (n : Nat) (state : State),
    (state.writeTimes .tab n).feeds = state.feeds
  | 0, _ => rfl
  | n + 1, state => by
      rw [writeTimes, feeds_writeTimes_tab n, feeds_write]
      rfl

theorem feeds_writeTimes_lineFeed : ∀ (n : Nat) (state : State),
    (state.writeTimes .lineFeed n).feeds = state.feeds + n
  | 0, _ => rfl
  | n + 1, state => by
      rw [writeTimes, feeds_writeTimes_lineFeed n, feeds_write]
      exact (Nat.add_assoc _ 1 n).trans (congrArg _ (Nat.add_comm 1 n))

theorem blank_breakLines (state : State) (n : Nat) : Blank state (state.breakLines n) := by
  unfold breakLines
  split
  · exact ⟨rfl, rfl, rfl⟩
  · obtain ⟨printed, breaks, layoutBreaks⟩ :=
      @blank_writeTimes .lineFeed rfl (min n 2) state
    exact ⟨printed, breaks, layoutBreaks⟩

theorem feeds_breakLines (state : State) (n : Nat) :
    (state.breakLines n).feeds = state.feeds + state.fed n := by
  unfold breakLines fed
  split
  · next nothing =>
    rw [Bool.or_eq_true, decide_eq_true_eq] at nothing
    rcases nothing with rfl | none
    · split <;> rfl
    · rw [Option.isNone_iff_eq_none] at none
      rw [none]
      rfl
  · next something =>
    have some : state.last.isSome = true := by
      rw [Bool.or_eq_true, not_or] at something
      simpa [Option.isSome_iff_ne_none] using something.2
    rw [if_pos some]
    exact feeds_writeTimes_lineFeed _ state

/-! ## Writing items -/

theorem printed_writeItem (state : State) {mark : Mark} (item : mark.isItem = true) :
    (state.writeItem mark).printed = state.printed ++ [(mark, state.feeds)] := by
  have step := printed_write state mark
  rwa [item] at step

theorem feeds_writeItem (state : State) {mark : Mark} (item : mark.isItem = true) :
    (state.writeItem mark).feeds = 0 := by
  refine (feeds_write state mark).trans ?_
  cases mark <;> first | rfl | cases item

theorem last_writeItem (state : State) {mark : Mark} (visible : mark.text ≠ "") :
    (state.writeItem mark).last.isSome = true := by
  have some : mark.text.toList.getLast?.isSome = true := by
    rw [List.getLast?_isSome]
    exact fun none => visible (String.toList_eq_nil_iff.mp none)
  have last : (state.writeItem mark).last = mark.text.toList.getLast?.or state.last := rfl
  rw [last, Option.isSome_or, some, Bool.true_or]

/-- Writes an item behind line breaks, or behind a space if it stays on its line. -/
def writeBehind (state : State) (n : Nat) (onLine : Bool) (mark : Mark) : State :=
  (if (state.breakLines n).atLineStart then (state.breakLines n).indent
    else if onLine then (state.breakLines n).write .space
    else state.breakLines n).writeItem mark

theorem onlyWrites_writeBehind (state : State) (n : Nat) (onLine : Bool) (mark : Mark) :
    OnlyWrites state (state.writeBehind n onLine mark) := by
  have broken := onlyWrites_breakLines state n
  unfold writeBehind
  split
  · exact (broken.trans (onlyWrites_indent _)).trans rfl
  · split
    · exact (broken.trans (onlyWrites_write _ .space)).trans rfl
    · exact broken.trans rfl

/-- Comments are written, which changes what the next item is asked to stand behind, and all
else in the state is as it was. -/
def OnlyComments (state next : State) : Prop :=
  next = { state with
    marks := next.marks
    last := next.last
    line := next.line
    atLineStart := next.atLineStart
    table := next.table
    breaks := next.breaks
    spaced := next.spaced
    layoutBreaks := next.layoutBreaks }

theorem OnlyComments.trans {state between next : State} (first : OnlyComments state between)
    (second : OnlyComments between next) : OnlyComments state next :=
  Eq.trans second (congrArg (fun before : State => { before with
    marks := next.marks
    last := next.last
    line := next.line
    atLineStart := next.atLineStart
    table := next.table
    breaks := next.breaks
    spaced := next.spaced
    layoutBreaks := next.layoutBreaks }) first)

theorem OnlyWrites.onlyComments {state next : State} (writes : OnlyWrites state next) :
    OnlyComments state next := by
  rw [OnlyWrites] at writes
  rw [OnlyComments, writes]

theorem onlyComments_comment (state : State) (text : String) :
    OnlyComments state (state.comment text) := by
  have asked : OnlyComments state { state with
      breaks := 0
      layoutBreaks := if 0 < state.breaks then 0 else state.layoutBreaks } := rfl
  have wrote := asked.trans (onlyWrites_writeBehind _ state.breaks true (.comment text)).onlyComments
  unfold State.comment
  split
  · exact wrote.trans rfl
  · exact wrote.trans rfl

theorem onlyComments_entry (state : State) (row : CommentEntry) :
    OnlyComments state (state.entry row) := by
  have comments (texts : List String) (state : State) :
      OnlyComments state (texts.foldl State.comment state) := by
    induction texts generalizing state with
    | nil => rfl
    | cons text texts ih => exact (onlyComments_comment state text).trans (ih _)
  have asked : OnlyComments state
      { state with breaks := max state.breaks row.spacing.lineBreaks } := rfl
  exact asked.trans (comments row.texts _)

theorem onlyComments_flushRows (offset : Nat) (rows : List CommentEntry) (state : State) :
    OnlyComments state (flushRows offset rows state) := by
  induction rows generalizing state with
  | nil => rfl
  | cons row rows ih =>
    unfold flushRows
    split
    · exact (onlyComments_entry state row).trans (ih _)
    · rfl

theorem onlyComments_flush (state : State) (offset : Nat) :
    OnlyComments state (state.flush offset) :=
  onlyComments_flushRows offset state.table state

/-- Writes a token, once the rows in front of it are written. -/
def put (state : State) (text : String) : State :=
  let written := { state with
    delimiters := if isCloser text then state.delimiters.tail else state.delimiters
    breaks := 0
    spaced := false
    layoutBreaks := 0
    layoutSpaced := false }.writeBehind (max state.breaks state.layoutBreaks)
      (state.wantsSpace text && text ≠ "," && text ≠ ";") (.token text)
  { written with
    tokens := written.tokens + 1
    dedented := false
    opened := isOpener text
    delimiters := if isOpener text then written.line :: written.delimiters else written.delimiters }

theorem token_eq_put (state : State) (offset : Nat) (text : String) :
    state.token offset text = (state.flush offset).put text := by
  unfold token put
  cases isCloser text <;> rfl

/-- An item is written behind the line feeds asked for. -/
structure Wrote (state : State) (n : Nat) (mark : Mark) (after : State) : Prop where
  printed : after.printed = state.printed ++ [(mark, state.feeds + state.fed n)]
  feeds : after.feeds = 0
  breaks : after.breaks = state.breaks
  layoutBreaks : after.layoutBreaks = state.layoutBreaks
  last : mark.text ≠ "" → after.last.isSome = true

theorem wrote_writeBehind (state : State) (n : Nat) (onLine : Bool) {mark : Mark}
    (item : mark.isItem = true) : Wrote state n mark (state.writeBehind n onLine mark) := by
  have broken := blank_breakLines state n
  -- indenting a line, or keeping off what stands on it, ends no line
  obtain ⟨ready, eq, blank, feeds⟩ : ∃ ready : State,
      state.writeBehind n onLine mark = ready.writeItem mark ∧
        Blank (state.breakLines n) ready ∧ ready.feeds = (state.breakLines n).feeds := by
    refine ⟨_, rfl, ?_⟩
    split
    · exact ⟨blank_writeTimes rfl _ _, feeds_writeTimes_tab _ _⟩
    · split
      · exact ⟨@blank_writeTimes .space rfl 1 _, feeds_write _ .space⟩
      · exact ⟨⟨rfl, rfl, rfl⟩, rfl⟩
  rw [eq]
  exact {
    printed := by
      rw [printed_writeItem _ item, blank.printed, feeds, broken.printed, feeds_breakLines]
    feeds := feeds_writeItem _ item
    breaks := blank.breaks.trans broken.breaks
    layoutBreaks := blank.layoutBreaks.trans broken.layoutBreaks
    last := last_writeItem _ }

/-! ## The pace of the printer -/

/-- What the printer knows between two items agrees with what steps have asked for. -/
structure Paced (state : State) (pace : Pace) : Prop where
  feeds : state.feeds = 0
  breaks : state.breaks = pace.breaks
  begun : state.last.isSome = pace.begun
  layout : state.layoutBreaks ≤ 1

theorem Paced.fed_breaks {state : State} {pace : Pace} (paced : state.Paced pace) :
    state.fed state.breaks = pace.asked := by
  rw [fed, Pace.asked, paced.begun, paced.breaks]

/-- A comment is written behind the line feeds asked for. -/
theorem Paced.comment {state : State} {pace : Pace} (paced : state.Paced pace) {text : String}
    (visible : text ≠ "") :
    (state.comment text).Paced (pace.behind (.comment text)) ∧
      (state.comment text).printed = state.printed ++ [(.comment text, pace.asked)] := by
  have wrote := @wrote_writeBehind { state with
    breaks := 0
    layoutBreaks := if 0 < state.breaks then 0 else state.layoutBreaks } state.breaks true
    (.comment text) rfl
  have layout : (if 0 < state.breaks then 0 else state.layoutBreaks) ≤ 1 := by
    have := paced.layout
    split <;> omega
  have layout := Nat.le_trans (Nat.le_of_eq wrote.layoutBreaks) layout
  have here : state.feeds + state.fed state.breaks = pace.asked := by
    rw [paced.feeds, Nat.zero_add, paced.fed_breaks]
  have printed := wrote.printed.trans
    (congrArg (fun feeds => state.printed ++ [(Mark.comment text, feeds)]) here)
  unfold State.comment
  by_cases isLine : isLineComment text = true
  · simp only [isLine, if_true]
    refine ⟨⟨wrote.feeds, ?_, wrote.last visible, layout⟩, printed⟩
    rw [Pace.behind, if_pos isLine]
  · simp only [isLine]
    refine ⟨⟨wrote.feeds, ?_, wrote.last visible, layout⟩, printed⟩
    rw [Pace.behind, if_neg isLine]
    exact wrote.breaks

/-! ## Telling steps -/

/-- The printer has written what steps say, behind the line feeds they ask for. -/
structure Tells (state : State) (steps : List Step) : Prop where
  items : state.items = written steps
  follows : Visible steps → List.Forall₂ Follows (asks .start steps) state.printed
  paced : Visible steps → state.Paced (steps.foldl Pace.behind .start)

/-- Nothing was written, and no breaks were asked for but one by the layout. -/
structure Relaid (state other : State) : Prop where
  marks : other.marks = state.marks
  last : other.last = state.last
  breaks : other.breaks = state.breaks
  layout : state.layoutBreaks ≤ 1 → other.layoutBreaks ≤ 1

theorem Tells.relaid {state other : State} {steps : List Step} (tells : state.Tells steps)
    (relaid : Relaid state other) : other.Tells steps := by
  have printed : other.printed = state.printed := by rw [printed, relaid.marks, printed]
  have feeds : other.feeds = state.feeds := by rw [feeds, relaid.marks, feeds]
  have items : other.items = state.items := by rw [State.items, relaid.marks, State.items]
  refine ⟨items.trans tells.items, fun visible => ?_, fun visible => ?_⟩
  · rw [printed]
    exact tells.follows visible
  · obtain ⟨none, breaks, begun, layout⟩ := tells.paced visible
    exact ⟨feeds.trans none, relaid.breaks.trans breaks, relaid.last ▸ begun, relaid.layout layout⟩

theorem Tells.start (table : List CommentEntry) : (State.start table).Tells [] where
  items := rfl
  follows _ := .nil
  paced _ := ⟨rfl, rfl, rfl, Nat.zero_le 1⟩

/-- Line breaks asked for by trivia are remembered. -/
theorem Tells.gap {state : State} {steps : List Step} (tells : state.Tells steps)
    (spacing : Spacing) :
    ({ state with breaks := max state.breaks spacing.lineBreaks } : State).Tells
      (steps ++ [.gap spacing]) where
  items := by
    rw [written_append]
    exact tells.items.trans (List.append_nil _).symm
  follows visible := by
    rw [asks_append]
    exact (List.append_nil (asks .start steps)).symm ▸ tells.follows visible.of_append.1
  paced visible := by
    obtain ⟨feeds, breaks, begun, layout⟩ := tells.paced visible.of_append.1
    rw [List.foldl_append]
    exact ⟨feeds, congrArg (max · spacing.lineBreaks) breaks, begun, layout⟩

/-- A comment is written behind the line feeds asked for. -/
theorem Tells.comment {state : State} {steps : List Step} (tells : state.Tells steps)
    (text : String) : (state.comment text).Tells (steps ++ [.comment text]) := by
  have wrote (visible : Visible (steps ++ [.comment text])) := @Paced.comment state _
    (tells.paced visible.of_append.1) text (visible.of_append.2 (.comment text) List.mem_cons_self)
  refine ⟨?_, fun visible => ?_, fun visible => ?_⟩
  · rw [items_comment, tells.items, written_append]
    rfl
  · rw [asks_append, (wrote visible).2]
    exact List.rel_append (tells.follows visible.of_append.1)
      (.cons ⟨rfl, Nat.le_refl _, Nat.le_max_left _ _⟩ .nil)
  · rw [List.foldl_append]
    exact (wrote visible).1

theorem Tells.entry {state : State} {steps : List Step} (tells : state.Tells steps)
    (entry : CommentEntry) : (state.entry entry).Tells (steps ++ entry.steps) := by
  have comments : ∀ (texts : List String) {state : State} {steps : List Step}, state.Tells steps →
      (texts.foldl State.comment state).Tells (steps ++ texts.map Step.comment) := by
    intro texts
    induction texts with
    | nil =>
      intro state steps tells
      exact (List.append_nil steps).symm ▸ tells
    | cons text texts ih =>
      intro state steps tells
      rw [List.map_cons, List.append_cons]
      exact ih (tells.comment text)
  rw [CommentEntry.steps, List.append_cons]
  exact comments entry.texts (tells.gap entry.spacing)

theorem Tells.flushRows {steps : List Step} (offset : Nat) (rows : List CommentEntry)
    {state : State} (tells : state.Tells steps) :
    (flushRows offset rows state).Tells
      (steps ++ (rows.takeWhile (·.offset < offset)).flatMap CommentEntry.steps) := by
  induction rows generalizing state steps with
  | nil =>
    rw [List.takeWhile_nil, List.flatMap_nil, List.append_nil]
    exact tells.relaid ⟨rfl, rfl, rfl, id⟩
  | cons entry rows ih =>
    by_cases below : entry.offset < offset
    · rw [List.takeWhile_cons_of_pos (by simpa using below), List.flatMap_cons, ← List.append_assoc,
        State.flushRows, if_pos below]
      exact ih (tells.entry entry)
    · rw [List.takeWhile_cons_of_neg (by simpa using below), List.flatMap_nil, List.append_nil,
        State.flushRows, if_neg below]
      exact tells.relaid ⟨rfl, rfl, rfl, id⟩

/-- A token is written behind the breaks of trivia and of the layout, the larger number wins. -/
theorem token_printed (state : State) (offset : Nat) (text : String) :
    (state.token offset text).printed = (state.flush offset).printed ++
        [(.token text, (state.flush offset).feeds +
          (state.flush offset).fed (max (state.flush offset).breaks (state.flush offset).layoutBreaks))] ∧
      ((text ≠ "") → (state.token offset text).Paced ⟨true, 0⟩) := by
  rw [token_eq_put]
  generalize state.flush offset = flushed
  have wrote := @wrote_writeBehind { flushed with
    delimiters := if isCloser text then flushed.delimiters.tail else flushed.delimiters
    breaks := 0
    spaced := false
    layoutBreaks := 0
    layoutSpaced := false } (max flushed.breaks flushed.layoutBreaks)
    (flushed.wantsSpace text && text ≠ "," && text ≠ ";") (.token text) rfl
  exact ⟨wrote.printed, fun visible => ⟨wrote.feeds, wrote.breaks, wrote.last visible,
    Nat.le_trans (Nat.le_of_eq wrote.layoutBreaks) (Nat.zero_le 1)⟩⟩

/-- A token is written behind the line feeds asked for, and behind one if the layout wants a new
line. -/
theorem Tells.token {state : State} {offset : Nat} {steps : List Step}
    (tells : (state.flush offset).Tells steps) (text : String) :
    (state.token offset text).Tells (steps ++ [.token text]) := by
  obtain ⟨printed, paced⟩ := token_printed state offset text
  refine ⟨?_, fun visible => ?_, fun visible => ?_⟩
  · rw [items_token, ← items_flush, tells.items, written_append]
    rfl
  · obtain ⟨feeds, breaks, begun, layout⟩ := tells.paced visible.of_append.1
    rw [asks_append, printed, feeds]
    refine List.rel_append (tells.follows visible.of_append.1) (.cons ⟨rfl, ?_, ?_⟩ .nil)
    · simp only [Pace.asked, fed, begun, breaks]
      split <;> omega
    · simp only [Pace.asked, fed, begun, breaks]
      split <;> omega
  · rw [List.foldl_append]
    exact paced (visible.of_append.2 (.token text) List.mem_cons_self)

/-! ## Layout -/

theorem relaid_askLine (state : State) : Relaid state state.askLine :=
  ⟨rfl, rfl, rfl, fun layout => Nat.max_le.mpr ⟨layout, Nat.le_refl 1⟩⟩

theorem SetOff.relaid {state next : State} (off : SetOff state next) : Relaid state next := by
  cases off with
  | nothing | space => exact ⟨rfl, rfl, rfl, id⟩
  | line => exact relaid_askLine state

theorem relaid_askGap (state : State) (tokens : Nat) (gap : Gap) (content : Bool) :
    Relaid state (state.askGap tokens gap content) :=
  (setOff_askGap state tokens gap content).relaid

theorem relaid_askElement (state : State) (tokens : Nat) (plan : ListPlan) (first : Bool) :
    Relaid state (state.askElement tokens plan first) :=
  (setOff_askElement state tokens plan first).relaid

theorem relaid_askContinuation (state : State) (tokens : Nat) (kind : NodeKind) (anchor : Anchor)
    (slot : PositionalSlot) : Relaid state (state.askContinuation tokens kind anchor slot) := by
  unfold askContinuation
  split <;> exact ⟨rfl, rfl, rfl, id⟩

end State

end Print

end GoTrivia
