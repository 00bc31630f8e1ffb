import GoTrivia.Proofs.Printing.Cueing
import GoTrivia.Proofs.Printing.Pacing
import Mathlib.Data.List.Chain

/-!
# How line breaks merge

Rows of the comment table ask for line breaks, and so does the layout.  The printer merges what
they ask for between two items: the larger number wins.  A comment stands behind the line breaks
that rows ask for, and a token behind those or the one that the layout asks for.

**The invariant.** The printer keeps two counters, and both can be read off the cues so far
(`Heeds`): one holds the line breaks that rows have asked for, the other one what the layout has.
Each operation of the printer keeps that, and so does each of its rules (`Notes`).
-/

set_option autoImplicit false

namespace GoTrivia

namespace Print

/-! ## Blanks in front of an item -/

/-- Nothing but tabs stands on the last line of these marks. -/
inductive OpensLine : List Mark → Prop
  | first : OpensLine []
  | lineFeed (front : List Mark) : OpensLine (front ++ [.lineFeed])
  | tab {front : List Mark} (opens : OpensLine front) : OpensLine (front ++ [.tab])

/-- Whatever comes behind these marks starts a line or is kept off by a space. -/
def KeepsOff (marks : List Mark) : Prop := OpensLine marks ∨ ∃ front, marks = front ++ [.space]

/-- Every comment starts a line or has a space in front of it. -/
def CommentsApart (marks : List Mark) : Prop :=
  ∀ front text back, marks = front ++ .comment text :: back → KeepsOff front

theorem OpensLine.tabs {front : List Mark} (opens : OpensLine front) (n : Nat) :
    OpensLine (front ++ List.replicate n .tab) := by
  induction n with
  | zero => rwa [List.replicate_zero, List.append_nil]
  | succ n ih =>
    rw [List.replicate_succ', ← List.append_assoc]
    exact .tab ih

theorem OpensLine.lineFeeds (front : List Mark) {n : Nat} (some : 0 < n) :
    OpensLine (front ++ List.replicate n .lineFeed) := by
  obtain ⟨n, rfl⟩ := Nat.exists_eq_add_one_of_ne_zero (Nat.ne_of_gt some)
  rw [List.replicate_succ', ← List.append_assoc]
  exact .lineFeed _

/-- Comments stay apart behind an item that has blanks in front of it. -/
theorem CommentsApart.item {marks blanks : List Mark} (apart : CommentsApart marks)
    (blank : ∀ mark ∈ blanks, mark.isItem = false) {mark : Mark}
    (off : (∃ text, mark = .comment text) → KeepsOff (marks ++ blanks)) :
    CommentsApart (marks ++ blanks ++ [mark]) := by
  intro front text back split
  rcases List.eq_nil_or_concat back with rfl | ⟨back, last, rfl⟩
  · obtain ⟨rfl, same⟩ := List.append_inj' split rfl
    exact off ⟨text, (List.cons.inj same).1⟩
  · rw [List.concat_eq_append, ← List.cons_append, ← List.append_assoc] at split
    obtain ⟨same, -⟩ := List.append_inj' split rfl
    have noComment (inside tail : List Mark) (here : blanks = inside ++ .comment text :: tail) :
        False := by
      have := blank (.comment text) (here ▸ by simp)
      cases this
    rcases List.append_eq_append_iff.mp same with ⟨inside, rfl, here⟩ | ⟨inside, rfl, here⟩
    · exact (noComment inside back here).elim
    · cases inside with
      | nil => exact (noComment [] back here.symm).elim
      | cons first inside =>
        obtain ⟨rfl, -⟩ := List.cons.inj here
        exact apart front text inside rfl

/-- An item that is printed where it should be, once anything visible stands in front of it. -/
structure Merged (lead : Lead) (printed : Mark × Nat) : Prop where
  mark : lead.mark = printed.1
  most : printed.2 ≤ 2
  exact : lead.seen = true → printed.2 = lead.breaks

namespace State

/-! ## Writing behind line breaks -/

theorem marks_writeTimes (mark : Mark) : ∀ (n : Nat) (state : State),
    (state.writeTimes mark n).marks.toList = state.marks.toList ++ List.replicate n mark
  | 0, _ => (List.append_nil _).symm
  | n + 1, state => by
      rw [writeTimes, marks_writeTimes mark n, write, Array.toList_push, List.append_assoc]
      rfl

/-- A line is broken by line feeds alone, and then it is a new one. -/
theorem marks_breakLines (state : State) (n : Nat)
    (fresh : state.atLineStart = true → OpensLine state.marks.toList) :
    ∃ feeds, (state.breakLines n).marks.toList =
        state.marks.toList ++ List.replicate feeds .lineFeed ∧
      ((state.breakLines n).atLineStart = true → OpensLine (state.breakLines n).marks.toList) := by
  unfold breakLines
  split
  · exact ⟨0, (List.append_nil _).symm, fresh⟩
  · next breaks =>
    have some : 0 < min n 2 := by
      rw [Bool.or_eq_true, not_or, decide_eq_true_eq] at breaks
      omega
    have marks := marks_writeTimes .lineFeed (min n 2) state
    exact ⟨min n 2, marks, fun _ => marks ▸ .lineFeeds _ some⟩

/-- An item is written behind blanks, which keep it off what stands on the line if it wants that. -/
theorem marks_writeBehind (state : State) (n : Nat) (onLine : Bool) (mark : Mark)
    (fresh : state.atLineStart = true → OpensLine state.marks.toList) :
    ∃ blanks, (state.writeBehind n onLine mark).marks.toList =
        state.marks.toList ++ blanks ++ [mark] ∧
      (∀ mark ∈ blanks, mark.isItem = false) ∧
        (onLine = true → KeepsOff (state.marks.toList ++ blanks)) := by
  obtain ⟨feeds, broken, opens⟩ := marks_breakLines state n fresh
  have feedsBlank : ∀ mark ∈ List.replicate feeds Mark.lineFeed, mark.isItem = false :=
    fun mark mem => (List.eq_of_mem_replicate mem) ▸ rfl
  have item (ready : State) : (ready.writeItem mark).marks.toList = ready.marks.toList ++ [mark] :=
    Array.toList_push
  unfold writeBehind
  rw [item]
  split
  · next starts =>
    have tabs := marks_writeTimes .tab (state.breakLines n).depth (state.breakLines n)
    refine ⟨List.replicate feeds .lineFeed ++ List.replicate (state.breakLines n).depth .tab, ?_,
      List.forall_mem_append.mpr ⟨feedsBlank, fun mark mem => (List.eq_of_mem_replicate mem) ▸ rfl⟩,
      fun _ => ?_⟩
    · rw [indent, tabs, broken]
      simp only [List.append_assoc]
    · rw [← List.append_assoc, ← broken]
      exact .inl ((opens starts).tabs _)
  · split
    · refine ⟨List.replicate feeds .lineFeed ++ [.space], ?_,
        List.forall_mem_append.mpr ⟨feedsBlank, List.forall_mem_singleton.mpr rfl⟩, fun _ => ?_⟩
      · rw [write, Array.toList_push, broken]
        simp only [List.append_assoc]
      · exact .inr ⟨_, (List.append_assoc ..).symm⟩
    · next off => exact ⟨_, congrArg (· ++ [mark]) broken, feedsBlank, fun wants => (off wants).elim⟩

theorem tokens_writeBehind (state : State) (n : Nat) (onLine : Bool) (mark : Mark) :
    (state.writeBehind n onLine mark).tokens = state.tokens := by
  have writes := onlyWrites_writeBehind state n onLine mark
  rw [OnlyWrites] at writes
  rw [writes]

/-- Once anything was written, something is the last character. -/
theorem last_write {state : State} (some : state.last.isSome = true) (mark : Mark) :
    (state.write mark).last.isSome = true := by
  rw [write, Option.isSome_or, some, Bool.or_true]

theorem last_writeTimes (mark : Mark) : ∀ (n : Nat) {state : State}, state.last.isSome = true →
    (state.writeTimes mark n).last.isSome = true
  | 0, _, filled => filled
  | n + 1, _, filled => last_writeTimes mark n (last_write filled mark)

theorem last_writeBehind {state : State} (some : state.last.isSome = true) (n : Nat) (onLine : Bool)
    (mark : Mark) : (state.writeBehind n onLine mark).last.isSome = true := by
  have broken : (state.breakLines n).last.isSome = true := by
    unfold breakLines
    split
    · exact some
    · exact last_writeTimes .lineFeed _ some
  refine last_write ?_ mark
  split
  · exact last_writeTimes .tab _ broken
  · split
    · exact last_write broken .space
    · exact broken

/-! ## Heeding cues -/

/-- What the printer has written, and what it remembers, is what the cues so far ask for. -/
structure Heeds (state : State) (past : List Cue) : Prop where
  printed : List.Forall₂ Merged (leads past) state.printed
  feeds : state.feeds = 0
  breaks : state.breaks = breaksAsked past
  layoutBreaks : state.layoutBreaks = if lineAsked past then 1 else 0
  last : seen past = true → state.last.isSome = true
  apart : CommentsApart state.marks.toList
  fresh : state.atLineStart = true → OpensLine state.marks.toList

theorem breaksAsked_le_two (past : List Cue) : breaksAsked past ≤ 2 := by
  induction past with
  | nil => exact Nat.zero_le 2
  | cons cue past ih =>
    cases cue with
    | line => exact ih
    | step step =>
      cases step with
      | token text => exact Nat.zero_le 2
      | comment text =>
        rw [breaksAsked]
        split <;> omega
      | gap spacing =>
        have : spacing.lineBreaks ≤ 2 := by cases spacing <;> decide
        exact Nat.max_le.mpr ⟨ih, this⟩

namespace Heeds

variable {state : State} {past : List Cue}

theorem start (table : List CommentEntry) : Heeds (.start table) [] where
  printed := .nil
  feeds := rfl
  breaks := rfl
  layoutBreaks := rfl
  last none := by cases none
  apart front text back split := by cases front <;> cases split
  fresh _ := .first

/-- The layout asks for one line break at most. -/
theorem line (heeds : Heeds state past) : Heeds state.askLine (.line :: past) where
  printed := heeds.printed
  feeds := heeds.feeds
  breaks := heeds.breaks
  layoutBreaks := by
    have : state.layoutBreaks ≤ 1 := by
      rw [heeds.layoutBreaks]
      split <;> omega
    exact Nat.max_eq_right this
  last := heeds.last
  apart := heeds.apart
  fresh := heeds.fresh

theorem gap (heeds : Heeds state past) (spacing : Spacing) :
    Heeds { state with breaks := max state.breaks spacing.lineBreaks }
      (.step (.gap spacing) :: past) where
  printed := heeds.printed
  feeds := heeds.feeds
  breaks := congrArg (max · spacing.lineBreaks) heeds.breaks
  layoutBreaks := heeds.layoutBreaks
  last := heeds.last
  apart := heeds.apart
  fresh := heeds.fresh

/-- An item is written behind the line breaks that it should stand behind. -/
theorem writes (heeds : Heeds state past) {ready : State} (marks : ready.marks = state.marks)
    (last : ready.last = state.last) (line : ready.atLineStart = state.atLineStart) {n : Nat}
    (le : n ≤ 2) {mark : Mark} (item : mark.isItem = true) {onLine : Bool}
    (off : (∃ text, mark = .comment text) → onLine = true) :
    List.Forall₂ Merged (leads past ++ [⟨mark, n, seen past⟩])
        (ready.writeBehind n onLine mark).printed ∧
      CommentsApart (ready.writeBehind n onLine mark).marks.toList ∧
      ((mark.text ≠ "" || seen past) = true →
        (ready.writeBehind n onLine mark).last.isSome = true) := by
  have wrote := wrote_writeBehind ready n onLine item
  have printed : ready.printed = state.printed := by rw [State.printed, marks, State.printed]
  have feeds : ready.feeds = 0 := by rw [State.feeds, marks, ← State.feeds, heeds.feeds]
  refine ⟨?_, ?_, fun isSeen => ?_⟩
  · have merged : Merged ⟨mark, n, seen past⟩ (mark, ready.feeds + ready.fed n) := by
      rw [feeds, Nat.zero_add, fed, last]
      refine ⟨rfl, ?_, fun isSeen => ?_⟩
      · show (if state.last.isSome then min n 2 else 0) ≤ 2
        split <;> omega
      · show (if state.last.isSome then min n 2 else 0) = n
        rw [if_pos (heeds.last isSeen)]
        exact Nat.min_eq_left le
    rw [wrote.printed, printed]
    exact List.rel_append heeds.printed (.cons merged .nil)
  · obtain ⟨blanks, split, blank, keepsOff⟩ := marks_writeBehind ready n onLine mark
      (by rw [marks, line]; exact heeds.fresh)
    rw [marks] at split keepsOff
    rw [split]
    exact heeds.apart.item blank fun isComment => keepsOff (off isComment)
  · rw [Bool.or_eq_true, decide_eq_true_eq] at isSeen
    rcases isSeen with visible | isSeen
    · exact wrote.last visible
    · exact last_writeBehind (last ▸ heeds.last isSeen) n onLine mark

/-- A comment stands behind the line breaks that rows ask for. -/
theorem comment (heeds : Heeds state past) (text : String) :
    Heeds (state.comment text) (.step (.comment text) :: past) := by
  let ready : State := { state with
    breaks := 0
    layoutBreaks := if 0 < state.breaks then 0 else state.layoutBreaks }
  have le : state.breaks ≤ 2 := heeds.breaks ▸ breaksAsked_le_two past
  have wrote := wrote_writeBehind ready state.breaks true
    (show Mark.isItem (.comment text) = true from rfl)
  obtain ⟨printed, apart, last⟩ := @writes state past heeds ready rfl rfl rfl state.breaks le
    (.comment text) rfl true fun _ => rfl
  have merged : List.Forall₂ Merged (leads (.step (.comment text) :: past))
      (ready.writeBehind state.breaks true (.comment text)).printed := by
    rw [leads, ← heeds.breaks]
    exact printed
  have layout : ready.layoutBreaks = if lineAsked (.step (.comment text) :: past) then 1 else 0 := by
    show (if 0 < state.breaks then 0 else state.layoutBreaks) = _
    rw [lineAsked, heeds.breaks, heeds.layoutBreaks]
    rcases Nat.eq_zero_or_pos (breaksAsked past) with none | some
    · simp [none]
    · simp [some, Nat.ne_of_gt some]
  unfold State.comment
  cases isLine : isLineComment text with
  | true =>
    exact {
      printed := merged
      feeds := wrote.feeds
      breaks := by rw [breaksAsked, isLine]; rfl
      layoutBreaks := wrote.layoutBreaks.trans layout
      last := last
      apart := apart
      fresh := fun opens => by cases opens }
  | false =>
    exact {
      printed := merged
      feeds := wrote.feeds
      breaks := by rw [breaksAsked, isLine]; exact wrote.breaks
      layoutBreaks := wrote.layoutBreaks.trans layout
      last := last
      apart := apart
      fresh := fun opens => by cases opens }

/-- A token stands behind the line breaks that rows ask for, or the one that the layout asks for. -/
theorem put (heeds : Heeds state past) (text : String) :
    Heeds (state.put text) (.step (.token text) :: past) := by
  let ready : State := { state with
    delimiters := if isCloser text then state.delimiters.tail else state.delimiters
    breaks := 0
    spaced := false
    layoutBreaks := 0
    layoutSpaced := false }
  have breaks : max state.breaks state.layoutBreaks =
      max (breaksAsked past) (if lineAsked past then 1 else 0) := by
    rw [heeds.breaks, heeds.layoutBreaks]
  have le : max state.breaks state.layoutBreaks ≤ 2 := by
    have := breaksAsked_le_two past
    rw [breaks]
    split <;> omega
  have wrote := wrote_writeBehind ready (max state.breaks state.layoutBreaks)
    (state.wantsSpace text && text ≠ "," && text ≠ ";") (show Mark.isItem (.token text) = true from rfl)
  obtain ⟨printed, apart, last⟩ := @writes state past heeds ready rfl rfl rfl _ le (.token text) rfl
    (state.wantsSpace text && text ≠ "," && text ≠ ";") fun ⟨_, isComment⟩ => by cases isComment
  have merged : List.Forall₂ Merged (leads (.step (.token text) :: past))
      (ready.writeBehind (max state.breaks state.layoutBreaks)
        (state.wantsSpace text && text ≠ "," && text ≠ ";") (.token text)).printed := by
    rw [leads, ← breaks]
    exact printed
  exact {
    printed := merged
    feeds := wrote.feeds
    breaks := wrote.breaks
    layoutBreaks := wrote.layoutBreaks
    last := last
    apart := apart
    fresh := fun opens => by cases opens }

/-- A row asks for line breaks and brings comments. -/
theorem entry (heeds : Heeds state past) (row : CommentEntry) :
    Heeds (state.entry row) ((row.steps.map Cue.step).reverse ++ past) := by
  have comments (texts : List String) {state : State} {past : List Cue} (heeds : Heeds state past) :
      Heeds (texts.foldl State.comment state)
        (((texts.map Step.comment).map Cue.step).reverse ++ past) := by
    induction texts generalizing state past with
    | nil => exact heeds
    | cons text texts ih =>
      rw [List.map_cons, List.map_cons, List.reverse_cons, List.append_assoc]
      exact ih (heeds.comment text)
  rw [CommentEntry.steps, List.map_cons, List.reverse_cons, List.append_assoc]
  exact comments row.texts (heeds.gap row.spacing)

theorem flushRows (offset : Nat) (rows : List CommentEntry) {state : State} {past : List Cue}
    (heeds : Heeds state past) :
    Heeds (State.flushRows offset rows state)
      ((((rows.takeWhile (·.offset < offset)).flatMap CommentEntry.steps).map Cue.step).reverse ++
        past) := by
  induction rows generalizing state past with
  | nil => exact { heeds with }
  | cons row rows ih =>
    by_cases below : row.offset < offset
    · rw [List.takeWhile_cons_of_pos (by simpa using below), List.flatMap_cons, List.map_append,
        List.reverse_append, List.append_assoc, State.flushRows, if_pos below]
      exact ih (heeds.entry row)
    · rw [List.takeWhile_cons_of_neg (by simpa using below), State.flushRows, if_neg below]
      exact { heeds with }

end Heeds

/-! ## Performing a script -/

/-- The printer does what a script says. -/
structure Performs (state : State) (script : Script) : Prop extends Heeds state script.past where
  tokens : state.tokens = script.tokens
  table : state.table = script.table

theorem tokens_flush (state : State) (offset : Nat) : (state.flush offset).tokens = state.tokens := by
  have comments := onlyComments_flush state offset
  rw [OnlyComments] at comments
  rw [comments]

namespace Performs

variable {state : State} {script : Script}

theorem start (table : List CommentEntry) : Performs (.start table) (.start table) :=
  ⟨.start table, rfl, rfl⟩

theorem flush (performs : Performs state script) (offset : Nat) :
    Performs (state.flush offset) (script.flush offset) where
  toHeeds := by
    show Heeds (flushRows offset state.table state) _
    rw [performs.table]
    exact performs.toHeeds.flushRows offset script.table
  tokens := (tokens_flush state offset).trans performs.tokens
  table := by rw [table_flush, performs.table, Script.flush]

theorem token (performs : Performs state script) (offset : Nat) (text : String) :
    Performs (state.token offset text) (script.token offset text) where
  toHeeds := by
    rw [token_eq_put]
    exact (performs.flush offset).toHeeds.put text
  tokens := by
    rw [token_eq_put]
    exact congrArg (· + 1) ((tokens_writeBehind _ _ _ _).trans (performs.flush offset).tokens)
  table := by rw [table_token, performs.table, Script.token, Script.flush]

theorem askLine (performs : Performs state script) : Performs state.askLine script.askLine :=
  ⟨performs.toHeeds.line, performs.tokens, performs.table⟩

theorem askSpace (performs : Performs state script) : Performs state.askSpace script :=
  ⟨{ performs.toHeeds with }, performs.tokens, performs.table⟩

theorem askGap (performs : Performs state script) (tokens : Nat) (gap : Gap) (content : Bool) :
    Performs (state.askGap tokens gap content) (script.askGap tokens gap) := by
  unfold State.askGap Script.askGap
  rw [performs.tokens]
  split
  · next same => simpa [same] using performs
  · next more =>
    cases gap with
    | line => simpa [more] using performs.askLine
    | glue => simpa [more] using performs
    | space => simpa [more] using performs.askSpace
    | spaceIfContent | spaceUnlessParen =>
      cases content
      · simpa [more] using performs
      · simpa [more] using performs.askSpace

theorem askElement (performs : Performs state script) (tokens : Nat) (plan : ListPlan)
    (first : Bool) :
    Performs (state.askElement tokens plan first) (script.askElement tokens plan first) := by
  unfold State.askElement Script.askElement
  split
  · exact performs.askLine
  · split
    · exact performs.askGap tokens plan.gap true
    · exact performs.askSpace

theorem askContinuation (performs : Performs state script) (tokens : Nat) (kind : NodeKind)
    (anchor : Anchor) (slot : PositionalSlot) :
    Performs (state.askContinuation tokens kind anchor slot) script := by
  unfold State.askContinuation
  split
  · exact ⟨{ performs.toHeeds with }, performs.tokens, performs.table⟩
  · exact performs

theorem separator (performs : Performs state script) (plan : ListPlan) (offset : Nat) (last : Bool) :
    Performs (state.separator plan offset last) (script.separator plan offset last) := by
  have same : state.breaksBetween offset = (State.start script.table).breaksBetween offset := by
    funext bound
    unfold breaksBetween
    rw [performs.table]
    rfl
  unfold State.separator Script.separator
  rw [same]
  cases plan.separator with
  | none => exact performs
  | some text =>
    dsimp only
    split
    · exact performs.token offset text
    · exact performs

end Performs

end State

/-! ## Performing walks -/

/-- A walk that does what is told to a script, unless it stops. -/
def Notes (walk : Printer Unit) (told : Script → Script) : Prop :=
  ∀ (state : State) (script : Script) (after : State), state.Performs script →
    walk.run state = .ok ((), after) → after.Performs (told script)

namespace Notes

variable {walk next : Printer Unit} {told more : Script → Script}

theorem pure : Notes (pure ()) id := by
  intro state script after performs run
  cases run
  exact performs

theorem andThen (first : Notes walk told) (second : Notes next more) :
    Notes (do walk; next) fun script => more (told script) := by
  intro state script after performs run
  have went : (walk.run state >>= fun result => next.run result.2) = .ok ((), after) := run
  cases found : walk.run state with
  | error cause =>
    rw [found] at went
    cases went
  | ok result =>
    rw [found] at went
    exact second result.2 (told script) after (first state script result.2 performs found) went

theorem modify {change : State → State}
    (same : ∀ {state : State} {script : Script}, state.Performs script →
      (change state).Performs (told script)) : Notes (modify change) told := by
  intro state script after performs run
  cases run
  exact same performs

/-- A walk that depends on the tokens written before it. -/
theorem get (told : Nat → Script → Script) {walk : State → Printer Unit}
    (same : ∀ state : State, Notes (walk state) (told state.tokens)) :
    Notes (do walk (← get)) fun script => told script.tokens script := by
  intro state script after performs run
  have noted := same state state script after performs run
  rwa [performs.tokens] at noted

/-- A walk that looks up a shape stops if there is none. -/
theorem shapeOf (told : List AnchorShape → Script → Script) {registry : Registry} {kind : NodeKind}
    {walk : Shape → Printer Unit} (same : ∀ shape, Notes (walk shape) (told shape.anchors)) :
    Notes (do walk (← (registry.shapeOf kind : Except TreeError Shape)))
      (told (registry.anchorsOf kind)) := by
  intro state script after performs run
  cases found : registry.shape? kind with
  | none =>
    have stops : registry.shapeOf kind = .error (.unknownShape kind) := by
      rw [Registry.shapeOf, found]
    rw [stops] at run
    cases run
  | some shape =>
    have known : registry.shapeOf kind = .ok shape := by rw [Registry.shapeOf, found]
    rw [known] at run
    rw [Registry.anchorsOf, found]
    exact same shape state script after performs run

end Notes

variable {registry : Registry}

mutual
/-- Printing a tree brings its cues. -/
theorem notes_tree : ∀ tree : Positional, Notes (Print.tree registry tree) (Script.tree registry tree)
  | .node kind span slots => by
      have left (continuation : Nat) :
          Notes (modify fun state : State => { state with continuation := continuation }) id :=
        .modify fun performs => ⟨{ performs.toHeeds with }, performs.tokens, performs.table⟩
      have entered : Notes (modify fun state : State => { state with dedented := true }) id :=
        .modify fun performs => ⟨{ performs.toHeeds with }, performs.tokens, performs.table⟩
      rw [Print.tree, Script.tree]
      refine .shapeOf (fun shapes script => Script.slots registry (.node kind span slots)
        script.tokens shapes slots script) fun shape => ?_
      refine .get (fun tokens => Script.slots registry (.node kind span slots) tokens shape.anchors
        slots) fun before => ?_
      have notes := notes_slots (.node kind span slots) before.tokens shape.anchors slots
      by_cases clause : kind = .caseClause
      · simp only [clause, if_true] at notes ⊢
        exact entered.andThen (notes.andThen (left before.continuation))
      · simp only [clause, if_false] at notes ⊢
        exact notes.andThen (left before.continuation)

theorem notes_slots (node : Positional) (tokens : Nat) :
    ∀ (shapes : List AnchorShape) (slots : List PositionalSlot),
      Notes (printSlots registry node tokens shapes slots)
        (Script.slots registry node tokens shapes slots)
  | shapes, [] => by
      rw [printSlots, Script.slots]
      exact .pure
  | [], slot :: slots => by
      rw [printSlots, Script.slots]
      exact .pure
  | shape :: shapes, slot :: slots => by
      have continued : Notes (modify (·.askContinuation tokens node.kind shape.anchor slot)) id :=
        .modify fun performs => performs.askContinuation tokens node.kind shape.anchor slot
      rw [printSlots, Script.slots]
      exact continued.andThen ((notes_slot node tokens shape slots slot).andThen
        (notes_slots node tokens shapes slots))

theorem notes_slot (node : Positional) (tokens : Nat) (shape : AnchorShape)
    (following : List PositionalSlot) : ∀ slot : PositionalSlot,
      Notes (printSlot registry node tokens shape following slot)
        (Script.slot registry node tokens shape following slot)
  | .token none => by
      rw [printSlot, Script.slot]
      exact .pure
  | .token (some lexeme) => by
      rw [printSlot, Script.slot]
      exact .modify fun performs => (performs.askGap tokens shape.gap _).token _ _
  | .child none => by
      rw [printSlot, Script.slot]
      exact .pure
  | .child (some child) => by
      have gap : Notes (modify (·.askGap tokens shape.gap (!beginsWithParen child)))
          (·.askGap tokens shape.gap) :=
        .modify fun performs => performs.askGap tokens shape.gap _
      rw [printSlot, Script.slot]
      exact gap.andThen (notes_tree child)
  | .list elements separators => by
      rw [printSlot, Script.slot]
      cases shape.slot with
      | token | child => exact .pure
      | list layout =>
        have brings := notes_elements tokens
          ⟨isLines node layout.style, layout.separator, shape.gap, nextToken? following⟩ true
          separators elements
        by_cases closes : (isLines node layout.style && !elements.isEmpty) = true
        · simp only [closes, if_true]
          exact brings.andThen (.modify fun performs => performs.askLine)
        · simp only [closes]
          exact brings.andThen .pure

theorem notes_elements (tokens : Nat) (plan : ListPlan) :
    ∀ (first : Bool) (separators : List Span) (elements : List Positional),
      Notes (printElements registry tokens plan first separators elements)
        (Script.elements registry tokens plan first separators elements)
  | first, separators, [] => by
      rw [printElements, Script.elements]
      exact .pure
  | first, separators, element :: elements => by
      have asks : Notes (modify (·.askElement tokens plan first))
          (·.askElement tokens plan first) :=
        .modify fun performs => performs.askElement tokens plan first
      have separates (offset : Nat) : Notes (modify (·.separator plan offset elements.isEmpty))
          (·.separator plan offset elements.isEmpty) :=
        .modify fun performs => performs.separator plan offset elements.isEmpty
      rw [printElements, Script.elements]
      exact asks.andThen ((notes_tree element).andThen ((separates _).andThen
        (notes_elements tokens plan false (separators.drop 1) elements)))
end

/-! ## Merged line breaks -/

/-- Whether a mark is a line comment. -/
def Mark.isLineComment : Mark → Bool
  | comment text => GoTrivia.isLineComment text
  | _ => false

/-- The line feeds between items are those that cues ask for. -/
structure Merges (past : List Cue) (marks : List Mark) : Prop where
  /-- The items are printed in order, each behind its line breaks. -/
  items : List.Forall₂ Merged (leads past) (spaced 0 marks)
  /-- If every item can be seen, there is something visible in front of all of them but the first. -/
  seen : (∀ mark ∈ marks, mark.text ≠ "") → ∀ lead ∈ (leads past).tail, lead.seen = true
  /-- Nothing stands behind a line comment on its line. -/
  closed : (spaced 0 marks).IsChain fun before next => before.1.isLineComment = true → 1 ≤ next.2
  /-- Every comment starts a line or has a space in front of it. -/
  apart : CommentsApart marks

/-- Behind visible tokens and comments something visible has come, and so it has in front of all of
them but the first. -/
theorem seen_leads {past : List Cue} (visible : ∀ lead ∈ leads past, lead.mark.text ≠ "") :
    (leads past ≠ [] → seen past = true) ∧ ∀ lead ∈ (leads past).tail, lead.seen = true := by
  induction past with
  | nil => exact ⟨fun some => absurd rfl some, List.forall_mem_nil _⟩
  | cons cue past ih =>
    have extend (new : Lead) (same : leads (cue :: past) = leads past ++ [new])
        (isSeen : new.seen = seen past) (here : seen (cue :: past) = (new.mark.text ≠ "" || seen past)) :
        (leads (cue :: past) ≠ [] → seen (cue :: past) = true) ∧
          ∀ lead ∈ (leads (cue :: past)).tail, lead.seen = true := by
      rw [same] at visible ⊢
      obtain ⟨before, last⟩ := List.forall_mem_append.mp visible
      obtain ⟨goesOn, others⟩ := ih before
      refine ⟨fun _ => by simp [here, List.forall_mem_singleton.mp last], ?_⟩
      rcases List.eq_nil_or_concat (leads past) with none | ⟨front, lead, some⟩
      · rw [none]
        exact List.forall_mem_nil _
      · have some : leads past ≠ [] := by simp [some]
        rw [List.tail_append_of_ne_nil some]
        exact List.forall_mem_append.mpr
          ⟨others, List.forall_mem_singleton.mpr (isSeen.trans (goesOn some))⟩
    cases cue with
    | line => exact ih visible
    | step step =>
      cases step with
      | gap spacing => exact ih visible
      | token text => exact extend _ rfl rfl rfl
      | comment text => exact extend _ rfl rfl rfl

/-- A lead behind a line comment is on a new line. -/
def Closes (before next : Lead) : Prop :=
  before.mark.isLineComment = true → next.seen = true ∧ 1 ≤ next.breaks

/-- What stands behind a line comment is seen to stand behind a line break. -/
theorem closes_leads (past : List Cue) : (leads past).IsChain Closes ∧
    ∀ last ∈ (leads past).getLast?, last.mark.isLineComment = true →
      seen past = true ∧ 1 ≤ breaksAsked past := by
  have extend {leads : List Lead} {lead : Lead} (chain : leads.IsChain Closes)
      (follows : ∀ last ∈ leads.getLast?, Closes last lead) : (leads ++ [lead]).IsChain Closes :=
    List.isChain_append.mpr ⟨chain, .singleton _, fun last isLast next isNext => by
      cases isNext
      exact follows last isLast⟩
  induction past with
  | nil => exact ⟨.nil, fun last isLast => by cases isLast⟩
  | cons cue past ih =>
    obtain ⟨chain, behind⟩ := ih
    cases cue with
    | line => exact ⟨chain, behind⟩
    | step step =>
      cases step with
      | gap spacing =>
        refine ⟨chain, fun last isLast isLine => ?_⟩
        obtain ⟨isSeen, breaks⟩ := behind last isLast isLine
        exact ⟨isSeen, Nat.le_trans breaks (Nat.le_max_left _ _)⟩
      | token text =>
        refine ⟨extend chain fun last isLast isLine => ?_, fun last isLast isLine => ?_⟩
        · obtain ⟨isSeen, breaks⟩ := behind last isLast isLine
          exact ⟨isSeen, Nat.le_trans breaks (Nat.le_max_left _ _)⟩
        · rw [leads, List.getLast?_append] at isLast
          cases isLast
          cases isLine
      | comment text =>
        refine ⟨extend chain behind, fun last isLast isLine => ?_⟩
        rw [leads, List.getLast?_append] at isLast
        cases isLast
        have isLine : GoTrivia.isLineComment text = true := isLine
        have visible : text ≠ "" := by
          rintro rfl
          cases isLine
        exact ⟨by simp [seen, visible], Nat.le_of_eq (if_pos isLine).symm⟩

/-- What is printed visibly has visible leads. -/
theorem visible_leads {leads : List Lead} {marks : List Mark}
    (merged : List.Forall₂ Merged leads (spaced 0 marks)) (visible : ∀ mark ∈ marks, mark.text ≠ "") :
    ∀ lead ∈ leads, lead.mark.text ≠ "" := by
  have items : ∀ item ∈ spaced 0 marks, item.1.text ≠ "" := by
    intro item mem
    have mem := List.mem_map_of_mem (f := Prod.fst) mem
    rw [map_fst_spaced] at mem
    exact visible item.1 (List.mem_filter.mp mem).1
  generalize spaced 0 marks = printed at merged items
  induction merged with
  | nil => exact List.forall_mem_nil _
  | cons here _ ih =>
    obtain ⟨first, others⟩ := List.forall_mem_cons.mp items
    exact List.forall_mem_cons.mpr ⟨here.mark ▸ first, ih others⟩

/-- Items that are printed where they should be are closed off behind line comments. -/
theorem closed_of_merged {leads : List Lead} {printed : List (Mark × Nat)}
    (merged : List.Forall₂ Merged leads printed) (closes : leads.IsChain Closes) :
    printed.IsChain fun before next => before.1.isLineComment = true → 1 ≤ next.2 := by
  induction merged with
  | nil => exact .nil
  | @cons lead item leads printed here rest ih =>
    cases rest with
    | nil => exact .singleton _
    | @cons next after leads printed there rest =>
      obtain ⟨first, others⟩ := List.isChain_cons_cons.mp closes
      refine .cons_cons (fun isLine => ?_) (ih others)
      obtain ⟨isSeen, breaks⟩ := first (here.mark ▸ isLine)
      rwa [there.exact isSeen]

/-- A tree that is printed is printed as its script says. -/
theorem exists_performs {root : Positional} {table : List CommentEntry} {marks : List Mark}
    (printed : Print.marks registry root table = .ok marks) :
    ∃ state : State, marks = state.marks.toList ∧
      state.Performs ((Script.tree registry root (.start table)).flush lastOffset) := by
  have walked : ((Print.tree registry root).run (.start table) >>= fun result =>
      Except.ok (result.2.flush lastOffset).marks.toList) = .ok marks := printed
  cases found : (Print.tree registry root).run (.start table) with
  | error cause =>
    rw [found] at walked
    cases walked
  | ok result =>
    rw [found] at walked
    obtain rfl := Except.ok.inj walked
    exact ⟨_, rfl,
      (notes_tree root _ _ result.2 (State.Performs.start table) found).flush lastOffset⟩

/-- **Merged line breaks.** Whatever the registry, the tree and its comment table, what is printed
are the tokens and comments of the cues.  Never more than two line feeds stand in front of one, and
once anything visible was printed, there are as many as rows have asked for since the last item, one
behind a line comment, or one in front of a token if the layout has asked for it. -/
theorem merges_marks (registry : Registry) (root : Positional) (table : List CommentEntry)
    (marks : List Mark) (printed : Print.marks registry root table = .ok marks) :
    Merges (cues registry root table) marks := by
  obtain ⟨state, rfl, performs⟩ := exists_performs printed
  exact {
    items := performs.printed
    seen := fun visible => (seen_leads (visible_leads performs.printed visible)).2
    closed := closed_of_merged performs.printed (closes_leads _).1
    apart := performs.apart }

/-- A block of two statements. -/
def pairedBlock : Positional :=
  .node .blockStmt ⟨0, 31⟩
    [.token (some ⟨"\x7b", ⟨0, 1⟩⟩),
     .list [.node .ident ⟨10, 11⟩ [.token (some ⟨"a", ⟨10, 11⟩⟩)],
        .node .ident ⟨20, 21⟩ [.token (some ⟨"b", ⟨20, 21⟩⟩)]] [],
     .token (some ⟨"\x7d", ⟨30, 31⟩⟩)]

/-- Comments of the block and a blank line, not in the order of their offsets. -/
def pairedTable : List CommentEntry :=
  [⟨12, .sameLine, ["// c"]⟩, ⟨25, .blank, []⟩, ⟨15, .newline, ["/* d */"]⟩]

/-- The layout asks for a line in front of both statements and behind the last one, which the last
comment opens. -/
theorem merges_marks_pairedBlock :
    ∃ marks, Print.marks .standard pairedBlock pairedTable = .ok marks ∧
      finish marks = "\x7b\n\ta // c\n\tb\n\n\t/* d */\x7d\n" ∧
      leads (cues .standard pairedBlock pairedTable) =
        [⟨.token "\x7b", 0, false⟩, ⟨.token "a", 1, true⟩, ⟨.comment "// c", 0, true⟩,
          ⟨.token "b", 1, true⟩, ⟨.comment "/* d */", 2, true⟩, ⟨.token "\x7d", 0, true⟩] ∧
      Merges (cues .standard pairedBlock pairedTable) marks := by
  have printed : Print.marks .standard pairedBlock pairedTable =
      .ok [.token "\x7b", .lineFeed, .tab, .token "a", .space, .comment "// c", .lineFeed, .tab,
        .token "b", .lineFeed, .lineFeed, .tab, .comment "/* d */", .token "\x7d"] := by
    rfl
  exact ⟨_, printed, by decide +kernel, by decide +kernel, merges_marks _ _ _ _ printed⟩

/-! ## Separators without a text -/

/-- A registry that puts nothing visible between declarations. -/
def silentlySeparated : Registry :=
  Registry.standard.register { kind := .file, anchors :=
    [{ anchor := .packageKw, slot := .token (.fixed "package"), presence := .required, gap := .glue },
     { anchor := .name, slot := .child, presence := .required, gap := .space },
     { anchor := .decls, slot := .list { separator := some "", style := .inline },
       presence := .optional, gap := .glue }] }

/-- A file of two declarations that hold nothing. -/
def bareDeclarations : Positional :=
  .node .file ⟨0, 6⟩ [.token none, .child (some (.node .badExpr ⟨0, 1⟩ [])),
    .list [.node .badDecl ⟨2, 3⟩ [], .node .badDecl ⟨4, 5⟩ []] []]

/-- As long as nothing visible was printed, no line is broken: behind a separator without a text, a
comment stays on the line although its row asks for a new one. -/
theorem spaced_marks_bareDeclarations :
    ∃ marks, Print.marks silentlySeparated bareDeclarations [⟨5, .newline, ["/* c */"]⟩] = .ok marks ∧
      finish marks = " /* c */\n" ∧
      leads (cues silentlySeparated bareDeclarations [⟨5, .newline, ["/* c */"]⟩]) =
        [⟨.token "", 0, false⟩, ⟨.comment "/* c */", 1, false⟩] ∧
      spaced 0 marks = [(.token "", 0), (.comment "/* c */", 0)] :=
  ⟨[.token "", .space, .comment "/* c */"], rfl, by decide +kernel, by decide +kernel, rfl⟩

end Print

end GoTrivia
