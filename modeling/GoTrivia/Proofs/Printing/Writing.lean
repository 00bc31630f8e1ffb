import GoTrivia.Proofs.Printing.Walk

/-!
# What the printer writes between two tokens

Of everything the printer does, only two things write tokens and comments: flushing the
comment table up to an offset, and writing a token behind that.  Blanks, indentation and
layout never touch the items already written or the table still to come.  Each operation
of the printer is described here by what it does to these two views of its state.
-/

set_option autoImplicit false

namespace GoTrivia

namespace Print

/-- The tokens and comments written so far. -/
def State.items (state : State) : List Mark := state.marks.toList.filter Mark.isItem

/-- The comments of a row of the comment table as marks. -/
def rowMarks (entry : CommentEntry) : List Mark := entry.texts.map Mark.comment

namespace State

/-! ## What writing leaves alone -/

/-- More is written, and all else in the state is as it was. -/
def OnlyWrites (state next : State) : Prop :=
  next = { state with
    marks := next.marks
    last := next.last
    line := next.line
    atLineStart := next.atLineStart }

theorem OnlyWrites.trans {state between next : State} (first : OnlyWrites state between)
    (second : OnlyWrites between next) : OnlyWrites state next :=
  Eq.trans second (congrArg (fun before : State => { before with
    marks := next.marks
    last := next.last
    line := next.line
    atLineStart := next.atLineStart }) first)

theorem OnlyWrites.table_eq {state next : State} (writes : OnlyWrites state next) :
    next.table = state.table := by
  rw [OnlyWrites] at writes
  rw [writes]

theorem onlyWrites_write (state : State) (mark : Mark) : OnlyWrites state (state.write mark) := rfl

theorem onlyWrites_writeTimes (mark : Mark) :
    ∀ (n : Nat) (state : State), OnlyWrites state (state.writeTimes mark n)
  | 0, _ => rfl
  | n + 1, state => (onlyWrites_write state mark).trans (onlyWrites_writeTimes mark n _)

theorem onlyWrites_indent (state : State) : OnlyWrites state state.indent :=
  onlyWrites_writeTimes .tab _ state

theorem onlyWrites_breakLines (state : State) (n : Nat) : OnlyWrites state (state.breakLines n) := by
  unfold breakLines
  split
  · rfl
  · exact (onlyWrites_writeTimes .lineFeed _ state).trans rfl

/-! ## Writing blanks -/

theorem items_write (state : State) (mark : Mark) :
    (state.write mark).items = state.items ++ [mark].filter Mark.isItem := by
  simp [items, write, List.filter_append]

theorem items_write_blank (state : State) {mark : Mark} (blank : mark.isItem = false) :
    (state.write mark).items = state.items := by
  simp [items_write, blank]

theorem items_writeTimes (mark : Mark) (blank : mark.isItem = false) :
    ∀ (n : Nat) (state : State), (state.writeTimes mark n).items = state.items
  | 0, _ => rfl
  | n + 1, state => by
      rw [writeTimes, items_writeTimes mark blank n, items_write_blank state blank]

@[simp]
theorem items_indent (state : State) : state.indent.items = state.items :=
  items_writeTimes .tab rfl _ state

@[simp]
theorem items_breakLines (state : State) (n : Nat) : (state.breakLines n).items = state.items := by
  unfold breakLines
  split
  · rfl
  · exact items_writeTimes .lineFeed rfl _ state

theorem table_breakLines (state : State) (n : Nat) : (state.breakLines n).table = state.table :=
  (onlyWrites_breakLines state n).table_eq

/-! ## Writing comments -/

theorem items_writeItem (state : State) {mark : Mark} (item : mark.isItem = true) :
    (state.writeItem mark).items = state.items ++ [mark] := by
  refine Eq.trans (items_write state mark) ?_
  simp [item]

@[simp]
theorem items_comment (state : State) (text : String) :
    (state.comment text).items = state.items ++ [.comment text] := by
  -- the blanks in front of the comment are written by `breakLines`, `indent` or `write`
  have blank : ∀ start : State,
      (if start.atLineStart then start.indent else start.write .space).items = start.items := by
    intro start
    split
    · exact items_indent start
    · exact items_write_blank start rfl
  have line : ∀ (start : State) (breaks : Nat) (layoutBreaks : Nat),
      ({ start with breaks := breaks, layoutBreaks := layoutBreaks } : State).items =
        start.items := fun _ _ _ => rfl
  simp only [comment]
  split
  all_goals
    refine Eq.trans (items_writeItem _ rfl) ?_
    rw [blank, items_breakLines, line]

@[simp]
theorem table_comment (state : State) (text : String) :
    (state.comment text).table = state.table := by
  have blank : ∀ start : State,
      (if start.atLineStart then start.indent else start.write .space).table = start.table := by
    intro start
    split
    · exact (onlyWrites_indent start).table_eq
    · rfl
  simp only [comment]
  split
  all_goals
    refine Eq.trans (blank _) ?_
    rw [table_breakLines]

theorem items_foldl_comment (texts : List String) (state : State) :
    (texts.foldl comment state).items = state.items ++ texts.map Mark.comment := by
  induction texts generalizing state with
  | nil => simp
  | cons text texts ih => simp [ih]

@[simp]
theorem items_entry (state : State) (entry : CommentEntry) :
    (state.entry entry).items = state.items ++ rowMarks entry :=
  items_foldl_comment entry.texts _

/-- **Flushing.** The rows below the offset are written and taken off the table. -/
theorem items_flushRows (offset : Nat) (rows : List CommentEntry) (state : State) :
    (flushRows offset rows state).items =
      state.items ++ (rows.takeWhile (·.offset < offset)).flatMap rowMarks := by
  induction rows generalizing state with
  | nil => simp [flushRows, items]
  | cons entry rows ih =>
    by_cases below : entry.offset < offset
    · simp [flushRows, below, ih]
    · simp [flushRows, below, items]

theorem table_flushRows (offset : Nat) (rows : List CommentEntry) (state : State) :
    (flushRows offset rows state).table = rows.dropWhile (·.offset < offset) := by
  induction rows generalizing state with
  | nil => rfl
  | cons entry rows ih =>
    by_cases below : entry.offset < offset
    · simp [flushRows, below, ih]
    · simp [flushRows, below]

@[simp]
theorem items_flush (state : State) (offset : Nat) :
    (state.flush offset).items =
      state.items ++ (state.table.takeWhile (·.offset < offset)).flatMap rowMarks :=
  items_flushRows offset state.table state

@[simp]
theorem table_flush (state : State) (offset : Nat) :
    (state.flush offset).table = state.table.dropWhile (·.offset < offset) :=
  table_flushRows offset state.table state

/-! ## Writing tokens -/

/-- Whatever blank a token has in front of it, only the token is a new item. -/
theorem items_token (state : State) (offset : Nat) (text : String) :
    (state.token offset text).items =
      state.items ++ (state.table.takeWhile (·.offset < offset)).flatMap rowMarks ++
        [.token text] := by
  have blank : ∀ (start : State) (space : Bool),
      (if start.atLineStart then start.indent
        else if space && text ≠ "," && text ≠ ";" then start.write .space else start).items =
        start.items := by
    intro start space
    split
    · exact items_indent start
    · split
      · exact items_write_blank start rfl
      · rfl
  rw [← items_flush, token]
  refine Eq.trans (items_writeItem _ rfl) ?_
  rw [blank, items_breakLines]
  split <;> rfl

theorem table_token (state : State) (offset : Nat) (text : String) :
    (state.token offset text).table = state.table.dropWhile (·.offset < offset) := by
  have blank : ∀ (start : State) (space : Bool),
      (if start.atLineStart then start.indent
        else if space && text ≠ "," && text ≠ ";" then start.write .space else start).table =
        start.table := by
    intro start space
    split
    · exact (onlyWrites_indent start).table_eq
    · split
      · rfl
      · rfl
  rw [← table_flush, token]
  refine Eq.trans (blank _ _) ?_
  rw [table_breakLines]
  split <;> rfl

/-! ## Layout -/

@[simp]
theorem table_askLine (state : State) : state.askLine.table = state.table := rfl

/-- All that layout may ask for in front of a token. -/
inductive SetOff (state : State) : State → Prop
  | nothing : SetOff state state
  | space : SetOff state state.askSpace
  | line : SetOff state state.askLine

theorem setOff_askGap (state : State) (tokens : Nat) (gap : Gap) (content : Bool) :
    SetOff state (state.askGap tokens gap content) := by
  unfold askGap
  split
  · exact .nothing
  · cases gap with
    | glue => exact .nothing
    | space => exact .space
    | spaceIfContent | spaceUnlessParen =>
      cases content
      · exact .nothing
      · exact .space
    | line => exact .line

theorem setOff_askElement (state : State) (tokens : Nat) (plan : ListPlan) (first : Bool) :
    SetOff state (state.askElement tokens plan first) := by
  unfold askElement
  split
  · exact .line
  · split
    · exact setOff_askGap state tokens plan.gap true
    · exact .space

theorem SetOff.table_eq {state next : State} (off : SetOff state next) : next.table = state.table := by
  cases off <;> rfl

@[simp]
theorem table_askGap (state : State) (tokens : Nat) (gap : Gap) (content : Bool) :
    (state.askGap tokens gap content).table = state.table :=
  (setOff_askGap state tokens gap content).table_eq

@[simp]
theorem table_askElement (state : State) (tokens : Nat) (plan : ListPlan) (first : Bool) :
    (state.askElement tokens plan first).table = state.table :=
  (setOff_askElement state tokens plan first).table_eq

@[simp]
theorem table_askContinuation (state : State) (tokens : Nat) (kind : NodeKind) (anchor : Anchor)
    (slot : PositionalSlot) :
    (state.askContinuation tokens kind anchor slot).table = state.table := by
  unfold askContinuation
  split <;> rfl

end State

end Print

end GoTrivia
