import GoTrivia.Proofs.Printing.Running
import GoTrivia.Proofs.Tree.Erasing
import Mathlib.Order.Monotone.Basic

/-!
# Printing looks at the order of offsets alone

The printer compares offsets and does nothing else with them: rows of the comment table are
written up to the offset of a token, and breaks are looked for in front of an offset or between
two.  So all offsets of a tree and its comment table can be moved by any map that keeps their
order, and the same is printed, or printing stops for the same reason.

**Lock step.** Both runs pass through states that differ in the rows still to come, which are
moved (`State.shift`), and in nothing else.  A walk and a moved walk go in lock step (`Moves`) if
that is kept; the rules for putting walks together keep it, and so every rule of the printer does.
-/

set_option autoImplicit false

namespace GoTrivia

open Print

/-! ## Moved offsets -/

/-- A span with both its offsets moved. -/
def Span.shift (f : Nat → Nat) (span : Span) : Span := ⟨f span.start, f span.stop⟩

/-- A lexeme with its offsets moved. -/
def Lexeme.shift (f : Nat → Nat) (lexeme : Lexeme) : Lexeme := ⟨lexeme.text, lexeme.span.shift f⟩

/-- A row of a comment table with its offset moved. -/
def CommentEntry.shift (f : Nat → Nat) (row : CommentEntry) : CommentEntry :=
  { row with offset := f row.offset }

@[simp]
theorem CommentEntry.offset_shift (f : Nat → Nat) (row : CommentEntry) :
    (row.shift f).offset = f row.offset := rfl

/-- Both offsets of a span. -/
def Span.offsets (span : Span) : List Nat := [span.start, span.stop]

namespace Positional

/-- A tree with all its offsets moved. -/
def shift (f : Nat → Nat) (tree : Positional) : Positional :=
  tree.map (Span.shift f) (Lexeme.shift f) (List.map (Span.shift f))

/-- A slot with all its offsets moved. -/
abbrev shiftSlot (f : Nat → Nat) (slot : PositionalSlot) : PositionalSlot :=
  SlotTree.mapSlot (Span.shift f) (Lexeme.shift f) (List.map (Span.shift f)) slot

mutual
/-- The offsets of nodes, tokens and separators of a tree. -/
def offsets : Positional → List Nat
  | .node _ span slots => span.offsets ++ offsetsSlots slots

/-- The offsets in a list of slots. -/
def offsetsSlots : List PositionalSlot → List Nat
  | [] => []
  | slot :: slots => offsetsSlot slot ++ offsetsSlots slots

/-- The offsets in one slot. -/
def offsetsSlot : PositionalSlot → List Nat
  | .token none => []
  | .token (some lexeme) => lexeme.span.offsets
  | .child none => []
  | .child (some child) => offsets child
  | .list elements separators => separators.flatMap Span.offsets ++ offsetsElements elements

/-- The offsets in a list of trees. -/
def offsetsElements : List Positional → List Nat
  | [] => []
  | tree :: trees => offsets tree ++ offsetsElements trees
end

variable (f : Nat → Nat)

theorem shift_node (kind : NodeKind) (span : Span) (slots : List PositionalSlot) :
    shift f (.node kind span slots) = .node kind (span.shift f) (slots.map (shiftSlot f)) := by
  rw [shift, SlotTree.map, SlotTree.mapSlots_eq_map]

@[simp]
theorem kind_shift (tree : Positional) : (shift f tree).kind = tree.kind := by
  obtain ⟨kind, span, slots⟩ := tree
  rw [shift_node]
  rfl

/-- A moved tree has moved slots. -/
theorem slot?_shift (tree : Positional) (anchor : Anchor) :
    (shift f tree).slot? anchor = (tree.slot? anchor).map (shiftSlot f) := by
  obtain ⟨kind, span, slots⟩ := tree
  rw [shift_node]
  simp only [SlotTree.slot?, SlotTree.indexOf?, SlotTree.kind, SlotTree.slots, List.getElem?_map]
  cases (standardShape kind).indexOf? anchor <;> rfl

theorem isSome_token?_shift (tree : Positional) (anchor : Anchor) :
    ((shift f tree).token? anchor).isSome = (tree.token? anchor).isSome := by
  rw [SlotTree.token?, SlotTree.token?, slot?_shift]
  cases tree.slot? anchor with
  | none => rfl
  | some slot => cases slot <;> simp [SlotTree.mapSlot]

end Positional

/-! ## What the printer reads off a tree -/

namespace Print

variable (f : Nat → Nat)

open Positional (shift shiftSlot)

theorem isLines_shift (node : Positional) (style : ListStyle) :
    isLines (shift f node) style = isLines node style := by
  cases style with
  | grouped => exact Positional.isSome_token?_shift f node .lparen
  | inline | lines => rfl

mutual
/-- The first token of a moved tree is the moved first token. -/
theorem firstToken?_shift : ∀ tree : Positional,
    firstToken? (shift f tree) = (firstToken? tree).map (Lexeme.shift f)
  | .node kind span slots => by
      rw [Positional.shift_node, firstToken?, firstToken?, firstTokenSlots?_shift slots]

theorem firstTokenSlots?_shift : ∀ slots : List PositionalSlot,
    firstTokenSlots? (slots.map (shiftSlot f)) = (firstTokenSlots? slots).map (Lexeme.shift f)
  | [] => by rw [List.map_nil, firstTokenSlots?, Option.map_none]
  | slot :: slots => by
      rw [List.map_cons, firstTokenSlots?, firstTokenSlots?, slotToken?_shift slot,
        firstTokenSlots?_shift slots, Option.map_or]

theorem slotToken?_shift : ∀ slot : PositionalSlot,
    slotToken? (shiftSlot f slot) = (slotToken? slot).map (Lexeme.shift f)
  | .token token => by rw [shiftSlot, SlotTree.mapSlot, slotToken?, slotToken?]
  | .child none => by simp only [shiftSlot, SlotTree.mapSlot, slotToken?, Option.map_none]
  | .child (some child) => by
      simp only [shiftSlot, SlotTree.mapSlot, slotToken?, Option.map_some]
      exact firstToken?_shift child
  | .list [] separators => by
      simp only [shiftSlot, SlotTree.mapSlot, slotToken?, List.map_nil, Option.map_none]
  | .list (element :: elements) separators => by
      simp only [shiftSlot, SlotTree.mapSlot, slotToken?, List.map_cons]
      exact firstToken?_shift element
end

theorem beginsWithParen_shift (child : Positional) :
    beginsWithParen (shift f child) = beginsWithParen child := by
  rw [beginsWithParen, beginsWithParen, firstToken?_shift, Option.map_map]
  rfl

/-- The offset of the token that follows is moved. -/
theorem nextToken?_shift (slots : List PositionalSlot) :
    nextToken? (slots.map (shiftSlot f)) = (nextToken? slots).map f := by
  induction slots with
  | nil => rfl
  | cons slot slots ih =>
    cases slot with
    | token token =>
      cases token with
      | none => simpa [nextToken?, SlotTree.mapSlot, Slot.isPresent] using ih
      | some lexeme => rfl
    | child child =>
      cases child with
      | none => simpa [nextToken?, SlotTree.mapSlot, Slot.isPresent] using ih
      | some child => rfl
    | list elements separators =>
      cases elements with
      | nil => simpa [nextToken?, SlotTree.mapSlot, Slot.isPresent] using ih
      | cons element elements => rfl

/-! ## States in lock step -/

namespace State

/-- The state with the rows that are still to come moved. -/
def shift (f : Nat → Nat) (state : State) : State :=
  { state with table := state.table.map (CommentEntry.shift f) }

theorem shift_writeTimes (mark : Mark) : ∀ (n : Nat) (state : State),
    (state.shift f).writeTimes mark n = (state.writeTimes mark n).shift f
  | 0, _ => rfl
  | n + 1, state => shift_writeTimes mark n (state.write mark)

theorem shift_indent (state : State) : (state.shift f).indent = state.indent.shift f :=
  shift_writeTimes f .tab state.depth state

theorem shift_breakLines (state : State) (n : Nat) :
    (state.shift f).breakLines n = (state.breakLines n).shift f := by
  unfold breakLines
  have last : (state.shift f).last = state.last := rfl
  rw [last, shift_writeTimes]
  split <;> rfl

theorem shift_writeBehind (state : State) (n : Nat) (onLine : Bool) (mark : Mark) :
    (state.shift f).writeBehind n onLine mark = (state.writeBehind n onLine mark).shift f := by
  have fresh : ((state.breakLines n).shift f).atLineStart = (state.breakLines n).atLineStart := rfl
  unfold writeBehind
  rw [shift_breakLines, fresh, shift_indent]
  split
  · rfl
  · split <;> rfl

theorem shift_comment (state : State) (text : String) :
    (state.shift f).comment text = (state.comment text).shift f := by
  have written := shift_writeBehind f { state with
    breaks := 0
    layoutBreaks := if 0 < state.breaks then 0 else state.layoutBreaks } state.breaks true
    (.comment text)
  unfold comment
  cases isLineComment text with
  | true => exact congrArg (fun written : State =>
      { written with breaks := 1, spaced := false }) written
  | false => exact congrArg (fun written : State => { written with spaced := true }) written

theorem shift_entry (state : State) (row : CommentEntry) :
    (state.shift f).entry (row.shift f) = (state.entry row).shift f := by
  have comments (texts : List String) (state : State) :
      texts.foldl comment (state.shift f) = (texts.foldl comment state).shift f := by
    induction texts generalizing state with
    | nil => rfl
    | cons text texts ih => rw [List.foldl_cons, List.foldl_cons, shift_comment, ih]
  exact comments row.texts { state with breaks := max state.breaks row.spacing.lineBreaks }

theorem shift_put (state : State) (text : String) :
    (state.shift f).put text = (state.put text).shift f := by
  have written := shift_writeBehind f { state with
    delimiters := if isCloser text then state.delimiters.tail else state.delimiters
    breaks := 0
    spaced := false
    layoutBreaks := 0
    layoutSpaced := false } (max state.breaks state.layoutBreaks)
    (state.wantsSpace text && text ≠ "," && text ≠ ";") (.token text)
  unfold put
  exact congrArg (fun written : State => { written with
    tokens := written.tokens + 1
    dedented := false
    opened := isOpener text
    delimiters := if isOpener text then written.line :: written.delimiters
      else written.delimiters }) written

end State

/-! ## Offsets the printer looks at -/

theorem stop_mem_offsets (tree : Positional) : tree.span.stop ∈ tree.offsets := by
  obtain ⟨kind, span, slots⟩ := tree
  rw [Positional.offsets]
  exact List.mem_append_left _ (List.mem_cons_of_mem _ List.mem_cons_self)

mutual
/-- The first token of a tree stands at an offset of the tree. -/
theorem mem_offsets_of_firstToken? {lexeme : Lexeme} : ∀ {tree : Positional},
    firstToken? tree = some lexeme → lexeme.span.start ∈ tree.offsets
  | .node kind span slots, found => by
      rw [firstToken?] at found
      rw [Positional.offsets]
      exact List.mem_append_right _ (mem_offsets_of_firstTokenSlots? found)

theorem mem_offsets_of_firstTokenSlots? {lexeme : Lexeme} : ∀ {slots : List PositionalSlot},
    firstTokenSlots? slots = some lexeme → lexeme.span.start ∈ Positional.offsetsSlots slots
  | [], found => by
      rw [firstTokenSlots?] at found
      cases found
  | slot :: slots, found => by
      rw [firstTokenSlots?] at found
      rw [Positional.offsetsSlots, List.mem_append]
      rcases Option.or_eq_some_iff.mp found with here | ⟨-, there⟩
      · exact .inl (mem_offsets_of_slotToken? here)
      · exact .inr (mem_offsets_of_firstTokenSlots? there)

theorem mem_offsets_of_slotToken? {lexeme : Lexeme} : ∀ {slot : PositionalSlot},
    slotToken? slot = some lexeme → lexeme.span.start ∈ Positional.offsetsSlot slot
  | .token token, found => by
      rw [slotToken?] at found
      rw [found, Positional.offsetsSlot]
      exact List.mem_cons_self
  | .child none, found => by
      rw [slotToken?] at found
      cases found
  | .child (some child), found => by
      rw [slotToken?] at found
      rw [Positional.offsetsSlot]
      exact mem_offsets_of_firstToken? found
  | .list [] separators, found => by
      rw [slotToken?] at found
      cases found
  | .list (element :: elements) separators, found => by
      rw [slotToken?] at found
      rw [Positional.offsetsSlot, Positional.offsetsElements]
      exact List.mem_append_right _ (List.mem_append_left _ (mem_offsets_of_firstToken? found))
end

/-- The token that follows stands at an offset of the slots. -/
theorem mem_offsets_of_nextToken? {offset : Nat} {slots : List PositionalSlot}
    (found : nextToken? slots = some offset) : offset ∈ Positional.offsetsSlots slots := by
  induction slots with
  | nil => cases found
  | cons slot slots ih =>
    rw [Positional.offsetsSlots, List.mem_append]
    unfold nextToken? at found
    split at found
    · cases found
    · next lexeme _ same =>
      obtain ⟨rfl, rfl⟩ := List.cons.inj same
      obtain rfl := Option.some.inj found
      rw [Positional.offsetsSlot]
      exact .inl List.mem_cons_self
    · next other _ _ same =>
      obtain ⟨rfl, rfl⟩ := List.cons.inj same
      split at found
      · cases found
      · exact .inr (ih found)

/-! ## Comparing offsets -/

variable {f}

/-- The offsets of these rows are known. -/
def Known (inside : Set Nat) (rows : List CommentEntry) : Prop := ∀ row ∈ rows, row.offset ∈ inside

section Comparing

variable {inside : Set Nat} {rows : List CommentEntry}

/-- Moved rows are cut where they were. -/
theorem takeWhile_shift {p q : CommentEntry → Bool} (same : ∀ row ∈ rows, q (row.shift f) = p row) :
    (rows.map (CommentEntry.shift f)).takeWhile q =
      (rows.takeWhile p).map (CommentEntry.shift f) := by
  induction rows with
  | nil => rfl
  | cons row rows ih =>
    obtain ⟨here, rest⟩ := List.forall_mem_cons.mp same
    rw [List.map_cons, List.takeWhile_cons, List.takeWhile_cons, here, ih rest]
    split <;> rfl

theorem dropWhile_shift {p q : CommentEntry → Bool} (same : ∀ row ∈ rows, q (row.shift f) = p row) :
    (rows.map (CommentEntry.shift f)).dropWhile q =
      (rows.dropWhile p).map (CommentEntry.shift f) := by
  induction rows with
  | nil => rfl
  | cons row rows ih =>
    obtain ⟨here, rest⟩ := List.forall_mem_cons.mp same
    rw [List.map_cons, List.dropWhile_cons, List.dropWhile_cons, here, ih rest]
    split <;> rfl

theorem any_breaksLine_shift (rows : List CommentEntry) :
    (rows.map (CommentEntry.shift f)).any CommentEntry.breaksLine =
      rows.any CommentEntry.breaksLine :=
  List.any_map

/-- The same rows are written, and the others stay. -/
theorem State.shift_flushRows {offset offset' : Nat}
    (same : ∀ row ∈ rows, f row.offset < offset' ↔ row.offset < offset) (state : State) :
    flushRows offset' (rows.map (CommentEntry.shift f)) (state.shift f) =
      (flushRows offset rows state).shift f := by
  induction rows generalizing state with
  | nil => rfl
  | cons row rows ih =>
    obtain ⟨here, rest⟩ := List.forall_mem_cons.mp same
    simp only [List.map_cons, flushRows, CommentEntry.offset_shift, here]
    split
    · rw [shift_entry, ih rest]
    · rfl

variable (strict : StrictMonoOn f inside)
include strict

/-- Whether a row is below an offset does not change. -/
theorem lt_shift_iff {offset : Nat} (known : offset ∈ inside) (rowsKnown : Known inside rows) :
    ∀ row ∈ rows, decide ((row.shift f).offset < f offset) = decide (row.offset < offset) :=
  fun row mem => decide_eq_decide.mpr (strict.lt_iff_lt (rowsKnown row mem) known)

/-- Whether a row is not above an offset does not change. -/
theorem le_shift_iff {offset : Nat} (known : offset ∈ inside) (rowsKnown : Known inside rows) :
    ∀ row ∈ rows, decide ((row.shift f).offset ≤ f offset) = decide (row.offset ≤ offset) :=
  fun row mem => decide_eq_decide.mpr (strict.le_iff_le (rowsKnown row mem) known)

namespace State

variable {state : State} (known : Known inside state.table)
include known

theorem breaksBefore_shift {offset : Nat} (isKnown : offset ∈ inside) :
    (state.shift f).breaksBefore (f offset) = state.breaksBefore offset := by
  unfold breaksBefore
  rw [shift, takeWhile_shift (lt_shift_iff strict isKnown known), any_breaksLine_shift]

theorem breaksBetween_shift {offset bound : Nat} (isKnown : offset ∈ inside)
    (boundKnown : bound ∈ inside) :
    (state.shift f).breaksBetween (f offset) (f bound) = state.breaksBetween offset bound := by
  have rest : Known inside (state.table.dropWhile (·.offset ≤ offset)) :=
    fun row mem => known row (List.dropWhile_subset _ mem)
  unfold breaksBetween
  rw [shift, dropWhile_shift (le_shift_iff strict isKnown known),
    takeWhile_shift (lt_shift_iff strict boundKnown rest), any_breaksLine_shift]

end State

/-- A token is written behind the same rows. -/
theorem State.shift_token {state : State} {offset : Nat} (isKnown : offset ∈ inside)
    (known : Known inside state.table) (text : String) :
    (state.shift f).token (f offset) text = (state.token offset text).shift f := by
  have flushed : (state.shift f).flush (f offset) = (state.flush offset).shift f :=
    shift_flushRows (fun row mem => strict.lt_iff_lt (known row mem) isKnown) state
  rw [token_eq_put, token_eq_put, flushed, shift_put]

end Comparing

/-! ## Walks in lock step -/

/-- Two runs stop for the same reason, or they end in states that differ in the rows still to
come, which are moved and known. -/
inductive Tracks (inside : Set Nat) (f : Nat → Nat) :
    Except TreeError (Unit × State) → Except TreeError (Unit × State) → Prop
  | ok {after : State} (known : Known inside after.table) :
      Tracks inside f (.ok ((), after)) (.ok ((), after.shift f))
  | error (cause : TreeError) : Tracks inside f (.error cause) (.error cause)

theorem Tracks.bind {inside : Set Nat} {result result' : Except TreeError (Unit × State)}
    {next next' : Unit × State → Except TreeError (Unit × State)}
    (tracks : Tracks inside f result result')
    (rest : ∀ after : State, Known inside after.table →
      Tracks inside f (next ((), after)) (next' ((), after.shift f))) :
    Tracks inside f (result >>= next) (result' >>= next') := by
  cases tracks with
  | ok known => exact rest _ known
  | error cause => exact .error cause

/-- A walk and a moved walk keep in lock step. -/
def Moves (inside : Set Nat) (f : Nat → Nat) (walk moved : Printer Unit) : Prop :=
  ∀ state : State, Known inside state.table →
    Tracks inside f (walk.run state) (moved.run (state.shift f))

namespace Moves

variable {inside : Set Nat} {walk moved next next' : Printer Unit}

theorem pure : Moves inside f (pure ()) (Pure.pure ()) := fun _ known => .ok known

theorem andThen (first : Moves inside f walk moved) (second : Moves inside f next next') :
    Moves inside f (do walk; next) (do moved; next') :=
  fun state known => (first state known).bind fun after => second after

/-- A change that takes rows off the table at most, and commutes with moving them. -/
theorem modify {change change' : State → State}
    (same : ∀ state : State, Known inside state.table →
      change' (state.shift f) = (change state).shift f)
    (subset : ∀ state : State, (change state).table ⊆ state.table) :
    Moves inside f (modify change) (modify change') := by
  intro state known
  have tracks : Tracks inside f (.ok ((), change state)) (.ok ((), (change state).shift f)) :=
    .ok fun row mem => known row (subset state mem)
  rw [← same state known] at tracks
  exact tracks

/-- A walk that depends on the state it starts in. -/
theorem get {walk moved : State → Printer Unit}
    (same : ∀ state : State, Moves inside f (walk state) (moved (state.shift f))) :
    Moves inside f (do walk (← get)) (do moved (← get)) :=
  fun state known => same state state known

/-- Both walks look up the same shape. -/
theorem shapeOf {registry : Registry} {kind : NodeKind} {walk moved : Shape → Printer Unit}
    (same : ∀ shape, Moves inside f (walk shape) (moved shape)) :
    Moves inside f (do walk (← (registry.shapeOf kind : Except TreeError Shape)))
      (do moved (← (registry.shapeOf kind : Except TreeError Shape))) := by
  intro state known
  cases registry.shapeOf kind with
  | error cause => exact .error cause
  | ok shape => exact same shape state known

end Moves

/-! ## Layout -/

namespace State

theorem shift_askGap (state : State) (tokens : Nat) (gap : Gap) (content : Bool) :
    (state.shift f).askGap tokens gap content = (state.askGap tokens gap content).shift f := by
  have written : (state.shift f).tokens = state.tokens := rfl
  unfold askGap
  rw [written]
  split
  · rfl
  · cases gap <;> cases content <;> rfl

theorem shift_askElement (state : State) (tokens : Nat) (plan : ListPlan) (bound : Option Nat)
    (first : Bool) : (state.shift f).askElement tokens { plan with bound := bound } first =
      (state.askElement tokens plan first).shift f := by
  have gap := shift_askGap (f := f) state tokens plan.gap true
  unfold askElement
  rw [gap]
  split
  · rfl
  · split <;> rfl

/-- A separator is a token, or nothing is written. -/
theorem table_separator_subset (state : State) (plan : ListPlan) (offset : Nat) (last : Bool) :
    (state.separator plan offset last).table ⊆ state.table := by
  unfold separator
  split
  · split
    · rw [table_token]
      exact List.dropWhile_subset _
    · exact List.Subset.refl _
  · exact List.Subset.refl _

variable {inside : Set Nat} (strict : StrictMonoOn f inside)
include strict

theorem shift_askContinuation {state : State} (known : Known inside state.table) (tokens : Nat)
    (kind : NodeKind) (anchor : Anchor) {slot : PositionalSlot}
    (isKnown : ∀ offset ∈ Positional.offsetsSlot slot, offset ∈ inside) :
    (state.shift f).askContinuation tokens kind anchor (shiftSlot f slot) =
      (state.askContinuation tokens kind anchor slot).shift f := by
  have begins : ((slotToken? (shiftSlot f slot)).any fun lexeme =>
      (state.shift f).breaksBefore lexeme.span.start) =
        (slotToken? slot).any fun lexeme => state.breaksBefore lexeme.span.start := by
    rw [slotToken?_shift]
    cases found : slotToken? slot with
    | none => rfl
    | some lexeme =>
      exact breaksBefore_shift strict known (isKnown _ (mem_offsets_of_slotToken? found))
  have written : (state.shift f).tokens = state.tokens := rfl
  unfold askContinuation
  rw [begins, written]
  split <;> rfl

theorem shift_separator {state : State} (known : Known inside state.table) (plan : ListPlan)
    {offset : Nat} (isKnown : offset ∈ inside) (bounded : ∀ bound ∈ plan.bound, bound ∈ inside)
    (last : Bool) :
    (state.shift f).separator { plan with bound := plan.bound.map f } (f offset) last =
      (state.separator plan offset last).shift f := by
  have closed : (plan.bound.map f).any ((state.shift f).breaksBetween (f offset)) =
      plan.bound.any (state.breaksBetween offset) := by
    cases found : plan.bound with
    | none => rfl
    | some bound => exact breaksBetween_shift strict known isKnown (bounded bound found)
  unfold separator
  simp only [closed]
  split
  · split
    · exact shift_token strict isKnown known _
    · rfl
  · rfl

end State

/-! ## Printing in lock step -/

section Printing

variable {registry : Registry} {inside : Set Nat}

mutual
/-- A moved tree is printed in lock step with the tree. -/
theorem moves_tree (strict : StrictMonoOn f inside) : ∀ {tree : Positional}, (∀ offset ∈ tree.offsets, offset ∈ inside) →
    Moves inside f (Print.tree registry tree) (Print.tree registry (shift f tree))
  | .node kind span slots, known => by
      rw [Positional.offsets, List.forall_mem_append] at known
      rw [Positional.shift_node, Print.tree, Print.tree]
      refine .shapeOf fun shape => .get fun before => ?_
      have slots := moves_printSlots strict (.node kind span slots) before.tokens shape.anchors known.2
      rw [Positional.shift_node] at slots
      have left : Moves inside f (modify fun state : State => { state with
          continuation := before.continuation }) (modify fun state : State => { state with
          continuation := (before.shift f).continuation }) :=
        .modify (fun _ _ => rfl) fun _ => List.Subset.refl _
      have entered : Moves inside f (modify fun state : State => { state with dedented := true })
          (modify fun state : State => { state with dedented := true }) :=
        .modify (fun _ _ => rfl) fun _ => List.Subset.refl _
      by_cases clause : kind = .caseClause
      · simp only [clause, if_true] at slots ⊢
        exact entered.andThen (slots.andThen left)
      · simp only [clause, if_false] at slots ⊢
        exact slots.andThen left

theorem moves_printSlots (strict : StrictMonoOn f inside) (node : Positional) (tokens : Nat) :
    ∀ (shapes : List AnchorShape) {slots : List PositionalSlot},
      (∀ offset ∈ Positional.offsetsSlots slots, offset ∈ inside) →
      Moves inside f (printSlots registry node tokens shapes slots)
        (printSlots registry (shift f node) tokens shapes (slots.map (shiftSlot f)))
  | shapes, [], _ => by
      rw [List.map_nil, printSlots, printSlots]
      exact .pure
  | [], slot :: slots, _ => by
      rw [List.map_cons, printSlots, printSlots]
      exact .pure
  | shape :: shapes, slot :: slots, known => by
      rw [Positional.offsetsSlots, List.forall_mem_append] at known
      rw [List.map_cons, printSlots, printSlots]
      refine .andThen (.modify (fun state isKnown => ?_) fun state => ?_) (.andThen
        (moves_printSlot strict node tokens shape slots known.1 known.2)
        (moves_printSlots strict node tokens shapes known.2))
      · rw [Positional.kind_shift]
        exact State.shift_askContinuation strict isKnown tokens node.kind shape.anchor known.1
      · rw [State.table_askContinuation]
        exact List.Subset.refl _

theorem moves_printSlot (strict : StrictMonoOn f inside) (node : Positional) (tokens : Nat) (shape : AnchorShape)
    (following : List PositionalSlot) : ∀ {slot : PositionalSlot},
      (∀ offset ∈ Positional.offsetsSlot slot, offset ∈ inside) →
      (∀ offset ∈ Positional.offsetsSlots following, offset ∈ inside) →
      Moves inside f (printSlot registry node tokens shape following slot)
        (printSlot registry (shift f node) tokens shape (following.map (shiftSlot f))
          (shiftSlot f slot))
  | .token none, _, _ => by
      simp only [shiftSlot, SlotTree.mapSlot, Option.map_none, printSlot]
      exact .pure
  | .token (some lexeme), known, _ => by
      rw [Positional.offsetsSlot] at known
      have filled : (following.map (shiftSlot f)).head?.any Slot.isPresent =
          following.head?.any Slot.isPresent := by
        cases following <;> simp
      simp only [shiftSlot, SlotTree.mapSlot, Option.map_some, printSlot]
      rw [filled]
      refine .modify (fun state isKnown => ?_) fun state => ?_
      · rw [State.shift_askGap]
        refine State.shift_token strict (known _ List.mem_cons_self) ?_ lexeme.text
        rwa [State.table_askGap]
      · rw [State.table_token, State.table_askGap]
        exact List.dropWhile_subset _
  | .child none, _, _ => by
      simp only [shiftSlot, SlotTree.mapSlot, Option.map_none, printSlot]
      exact .pure
  | .child (some child), known, _ => by
      rw [Positional.offsetsSlot] at known
      simp only [shiftSlot, SlotTree.mapSlot, Option.map_some, printSlot]
      refine .andThen (.modify (fun state _ => ?_) fun state => ?_) (moves_tree strict known)
      · show (state.shift f).askGap tokens shape.gap (!beginsWithParen (shift f child)) = _
        rw [beginsWithParen_shift, State.shift_askGap]
      · rw [State.table_askGap]
        exact List.Subset.refl _
  | .list elements separators, known, followingKnown => by
      rw [Positional.offsetsSlot, List.forall_mem_append] at known
      simp only [shiftSlot, SlotTree.mapSlot, printSlot]
      cases shape.slot with
      | token | child => exact .pure
      | list layout =>
        have elementsMove := moves_printElements strict tokens
          ⟨isLines node layout.style, layout.separator, shape.gap, nextToken? following⟩
          (fun bound found => followingKnown bound (mem_offsets_of_nextToken? found)) true
          separators known.1 known.2
        have filled : (elements.map (shift f)).isEmpty = elements.isEmpty := by cases elements <;> rfl
        simp only [isLines_shift, nextToken?_shift, List.isEmpty_map]
        refine elementsMove.andThen ?_
        split
        · exact .modify (fun _ _ => rfl) fun _ => List.Subset.refl _
        · exact .pure

theorem moves_printElements (strict : StrictMonoOn f inside) (tokens : Nat) (plan : ListPlan)
    (bounded : ∀ bound ∈ plan.bound, bound ∈ inside) :
    ∀ (first : Bool) (separators : List Span) {elements : List Positional},
      (∀ offset ∈ separators.flatMap Span.offsets, offset ∈ inside) →
      (∀ offset ∈ Positional.offsetsElements elements, offset ∈ inside) →
      Moves inside f (printElements registry tokens plan first separators elements)
        (printElements registry tokens { plan with bound := plan.bound.map f } first
          (separators.map (Span.shift f)) (elements.map (shift f)))
  | first, separators, [], _, _ => by
      rw [List.map_nil, printElements, printElements]
      exact .pure
  | first, separators, element :: elements, separatorsKnown, known => by
      rw [Positional.offsetsElements, List.forall_mem_append] at known
      have rest : ∀ offset ∈ (separators.drop 1).flatMap Span.offsets, offset ∈ inside := by
        intro offset mem
        obtain ⟨span, isSpan, here⟩ := List.mem_flatMap.mp mem
        exact separatorsKnown offset (List.mem_flatMap.mpr ⟨span, List.drop_subset 1 _ isSpan, here⟩)
      have place : ((separators.map (Span.shift f)).head?.map Span.start).getD
          (shift f element).span.stop =
            f ((separators.head?.map Span.start).getD element.span.stop) := by
        cases separators with
        | nil =>
          obtain ⟨kind, span, slots⟩ := element
          rw [Positional.shift_node]
          rfl
        | cons separator separators => rfl
      have placed : (separators.head?.map Span.start).getD element.span.stop ∈ inside := by
        cases separators with
        | nil => exact known.1 _ (stop_mem_offsets element)
        | cons separator separators => exact separatorsKnown _ List.mem_cons_self
      rw [List.map_cons, printElements, printElements]
      refine .andThen (.modify (fun state _ => ?_) fun state => ?_) (.andThen (moves_tree strict known.1)
        (.andThen (.modify (fun state isKnown => ?_) fun state => ?_) ?_))
      · exact State.shift_askElement state tokens plan (plan.bound.map f) first
      · rw [State.table_askElement]
        exact List.Subset.refl _
      · rw [place, List.isEmpty_map]
        exact State.shift_separator strict isKnown plan placed bounded elements.isEmpty
      · exact State.table_separator_subset state plan _ _
      · rw [← List.map_drop]
        exact moves_printElements strict tokens plan bounded false (separators.drop 1) rest known.2
end

/-- The marks of a moved tree with a moved table are those of the tree with the table. -/
theorem marks_shift (strict : StrictMonoOn f inside)
    (below : ∀ offset ∈ inside, offset < lastOffset)
    (kept : ∀ offset ∈ inside, f offset < lastOffset) {root : Positional}
    (treeKnown : ∀ offset ∈ root.offsets, offset ∈ inside) {table : List CommentEntry}
    (known : Known inside table) :
    marks registry (shift f root) (table.map (CommentEntry.shift f)) = marks registry root table := by
  have moves : Moves inside f (Print.tree registry root) (Print.tree registry (shift f root)) :=
    moves_tree strict treeKnown
  have tracks := moves (.start table) known
  unfold marks
  show ((Print.tree registry (shift f root)).run ((State.start table).shift f) >>= _) = _
  generalize (Print.tree registry root).run (.start table) = result at tracks ⊢
  generalize (Print.tree registry (shift f root)).run ((State.start table).shift f) = moved
    at tracks ⊢
  cases tracks with
  | error cause => rfl
  | @ok after afterKnown =>
    have flushed : (after.shift f).flush lastOffset = (after.flush lastOffset).shift f := by
      refine State.shift_flushRows (fun row mem => ?_) after
      exact iff_of_true (kept _ (afterKnown row mem)) (below _ (afterKnown row mem))
    show Except.ok ((after.shift f).flush lastOffset).marks.toList = _
    rw [flushed]
    rfl

end Printing

end Print

/-! ## The whole text -/

/-- The offsets of a tree and of the rows of its comment table. -/
def allOffsets (root : Positional) (table : List CommentEntry) : List Nat :=
  root.offsets ++ table.map CommentEntry.offset

/-- **Only the order of offsets counts.** Moving every offset of a tree and of its comment table
by a map that keeps their order, and keeps them below the last offset, leaves what is printed as
it is, be it a text or the reason why there is none. -/
theorem print_shift (registry : Registry) (root : Positional) (table : List CommentEntry)
    (f : Nat → Nat) (strict : StrictMonoOn f {offset | offset ∈ allOffsets root table})
    (below : ∀ offset ∈ allOffsets root table, offset < lastOffset)
    (kept : ∀ offset ∈ allOffsets root table, f offset < lastOffset) :
    (root.shift f).print registry (table.map (CommentEntry.shift f)) =
      root.print registry table := by
  have same : marks registry (root.shift f) (table.map (CommentEntry.shift f)) =
      marks registry root table :=
    marks_shift strict below kept (fun offset mem => List.mem_append_left _ mem)
      fun row mem => List.mem_append_right _ (List.mem_map_of_mem mem)
  rw [Positional.print, Positional.print, same]

/-- A call with two arguments, its last separator missing from the tree. -/
def twoArguments : Positional :=
  .node .callExpr ⟨1, 12⟩
    [.child (some (.node .ident ⟨1, 2⟩ [.token (some ⟨"f", ⟨1, 2⟩⟩)])),
     .token (some ⟨"(", ⟨2, 3⟩⟩),
     .list [.node .ident ⟨4, 5⟩ [.token (some ⟨"a", ⟨4, 5⟩⟩)],
        .node .ident ⟨7, 8⟩ [.token (some ⟨"b", ⟨7, 8⟩⟩)]] [⟨5, 6⟩],
     .token none, .token (some ⟨")", ⟨12, 12⟩⟩)]

/-- Comments of the call, not in the order of their offsets. -/
def unsortedTable : List CommentEntry :=
  [⟨6, .sameLine, ["/* b */"]⟩, ⟨10, .newline, ["// c"]⟩, ⟨9, .blank, []⟩, ⟨3, .sameLine, ["/* a */"]⟩]

theorem print_shift_twoArguments :
    (∀ offset ∈ allOffsets twoArguments unsortedTable, offset < lastOffset) ∧
      (∀ offset ∈ allOffsets twoArguments unsortedTable, 3 * offset + 7 < lastOffset) ∧
      (twoArguments.shift (3 * · + 7)).print .standard
          (unsortedTable.map (CommentEntry.shift (3 * · + 7))) =
        twoArguments.print .standard unsortedTable := by
  have below : ∀ offset ∈ allOffsets twoArguments unsortedTable, offset < lastOffset := by
    decide +kernel
  have kept : ∀ offset ∈ allOffsets twoArguments unsortedTable, 3 * offset + 7 < lastOffset := by
    decide +kernel
  refine ⟨below, kept, print_shift .standard twoArguments unsortedTable (3 * · + 7) ?_ below kept⟩
  intro a _ b _ less
  show 3 * a + 7 < 3 * b + 7
  omega

/-- The rows are written in the order of the table, and the list is closed on a later line. -/
example : (twoArguments.print .standard unsortedTable).toOption =
    some "f(a, /* b */ b,\n\t// c\n\n\t/* a */)\n" := by
  decide +kernel

end GoTrivia
