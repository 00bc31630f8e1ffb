import GoTrivia.Proofs.Printing.Fitted
import GoTrivia.Proofs.Printing.Running
import GoTrivia.Proofs.Printing.TrailingSeparators

/-!
# Delimiters are closed where they are opened

The printer remembers on which line each open delimiter was written, and how far expressions are
continued.  It tells delimiters by their texts alone, wherever they come.  Which of them belong
together is a matter of shapes: brackets come in pairs, one behind the other, and of a pair both are
filled or none is (`bracketed`).

**Levels.** So whatever is printed for a node, the open delimiters and the continuation are
afterwards what they were before.  When a closing delimiter comes, the last open one is that of the
same node, and what is left behind it are those that were open in front of the node.
-/

set_option autoImplicit false

namespace GoTrivia

open Print (State Printer ListPlan nextToken? isLines isOpener isCloser beginsWithParen)
open Print (printSlot printSlots printElements)
open SlotTree

/-! ## Brackets in shapes -/

/-- The delimiters that open and close. -/
def delimiterPairs : List (String × String) := [("(", ")"), ("[", "]"), ("\x7b", "\x7d")]

namespace AnchorShape

/-- Whether one anchor holds the opening bracket and another one the closing bracket of a pair. -/
def closedBy (opening closing : AnchorShape) : Bool :=
  match opening.fixedText?, closing.fixedText? with
  | some opener, some closer => delimiterPairs.contains (opener, closer)
  | _, _ => false

/-- Whether two anchors are filled together. -/
def filledWith (closing opening : AnchorShape) : Bool :=
  closing.presence == .together opening.anchor ||
    (closing.presence == .required && opening.presence == .required)

end AnchorShape

/-- Whether the brackets of a shape come in pairs, one behind the other, from an anchor on.  An
opening bracket may still be pending. -/
def bracketed : Option AnchorShape → List AnchorShape → Bool
  | pending, [] => pending.isNone
  | pending, shape :: shapes =>
    if shape.fixedText?.any isOpener then pending.isNone && bracketed (some shape) shapes
    else if shape.fixedText?.any isCloser then
      pending.any (fun opening => opening.closedBy shape && shape.filledWith opening) &&
        bracketed none shapes
    else bracketed pending shapes

theorem bracketed_standard (kind : NodeKind) :
    bracketed none (standardShape kind).anchors = true := by
  cases kind <;> decide

/-! ## Levels -/

theorem isCloser_eq_false {text : String} (opener : isOpener text = true) :
    isCloser text = false := by
  unfold isOpener isCloser at *
  simp only [Bool.or_eq_true, beq_iff_eq] at opener
  rcases opener with (rfl | rfl) | rfl <;> rfl

/-- A text that neither opens nor closes a delimiter. -/
def IsPlain (text : String) : Prop := isOpener text = false ∧ isCloser text = false

namespace Print.State

/-- The open delimiters, and how far expressions are continued. -/
def level (state : State) : List Nat × Nat := (state.delimiters, state.continuation)

theorem level_writeBehind (state : State) (n : Nat) (onLine : Bool) (mark : Mark) :
    (state.writeBehind n onLine mark).level = state.level := by
  have writes := onlyWrites_writeBehind state n onLine mark
  rw [OnlyWrites] at writes
  rw [writes, level, level]

theorem level_flush (state : State) (offset : Nat) : (state.flush offset).level = state.level := by
  have comments := onlyComments_flush state offset
  rw [OnlyComments] at comments
  rw [comments, level, level]

/-- An opening delimiter is remembered, a closing one forgets the last of them. -/
theorem level_token (state : State) (offset : Nat) (text : String) :
    (state.token offset text).level =
      (if isOpener text then (state.token offset text).line :: state.delimiters
        else if isCloser text then state.delimiters.tail else state.delimiters,
        state.continuation) := by
  obtain ⟨delimiters, continuation⟩ := Prod.mk.inj (level_flush state offset)
  rw [token_eq_put]
  unfold put
  have wrote := level_writeBehind { state.flush offset with
    delimiters := if isCloser text then (state.flush offset).delimiters.tail
      else (state.flush offset).delimiters
    breaks := 0
    spaced := false
    layoutBreaks := 0
    layoutSpaced := false } (max (state.flush offset).breaks (state.flush offset).layoutBreaks)
    ((state.flush offset).wantsSpace text && text ≠ "," && text ≠ ";") (.token text)
  obtain ⟨delimiters', continuation'⟩ := Prod.mk.inj wrote
  dsimp only [level] at *
  rw [delimiters', continuation', delimiters, continuation]
  cases opener : isOpener text with
  | true => simp [isCloser_eq_false opener]
  | false => rfl

theorem level_token_plain (state : State) (offset : Nat) {text : String} (plain : IsPlain text) :
    (state.token offset text).level = state.level := by
  rw [level_token, plain.1, plain.2]
  rfl

theorem SetOff.level_eq {state next : State} (off : SetOff state next) : next.level = state.level := by
  cases off <;> rfl

@[simp]
theorem level_askGap (state : State) (tokens : Nat) (gap : Gap) (content : Bool) :
    (state.askGap tokens gap content).level = state.level :=
  (setOff_askGap state tokens gap content).level_eq

@[simp]
theorem level_askElement (state : State) (tokens : Nat) (plan : ListPlan) (first : Bool) :
    (state.askElement tokens plan first).level = state.level :=
  (setOff_askElement state tokens plan first).level_eq

@[simp]
theorem level_enter (state : State) (kind : NodeKind) : (state.enter kind).level = state.level := by
  unfold enter
  split <;> rfl

@[simp]
theorem delimiters_askContinuation (state : State) (tokens : Nat) (kind : NodeKind)
    (anchor : Anchor) (slot : PositionalSlot) :
    (state.askContinuation tokens kind anchor slot).delimiters = state.delimiters := by
  unfold askContinuation
  split <;> rfl

theorem level_separator (state : State) {plan : ListPlan} (offset : Nat) (last : Bool)
    (plain : ∀ text ∈ plan.separator, IsPlain text) :
    (state.separator plan offset last).level = state.level := by
  unfold separator
  cases found : plan.separator with
  | none => rfl
  | some text =>
    dsimp only
    split
    · exact level_token_plain state offset (plain text found)
    · rfl

end Print.State

/-! ## Printing keeps the level -/

/-- Tokens whose texts are free are no brackets. -/
abbrev plainFree : FreeTexts := fun _ _ => IsPlain

/-- A token is a bracket only if its shape says so. -/
theorem Fitted.plain {filled : Anchor → Bool} {shape : AnchorShape} {lexeme : Lexeme}
    (fitted : Fitted (fun _ => IsPlain) filled shape (.token (some lexeme)))
    (noOpener : shape.fixedText?.any isOpener = false)
    (noCloser : shape.fixedText?.any isCloser = false) : IsPlain lexeme.text := by
  obtain ⟨isKind, fixed, free, -⟩ := fitted
  cases isSlot : shape.slot with
  | child => simp [isSlot, Slot.fits] at isKind
  | list layout => simp [isSlot, Slot.fits] at isKind
  | token text =>
    cases text with
    | free => exact free lexeme isSlot rfl
    | fixed text =>
      rw [fixed text lexeme isSlot rfl]
      simp only [AnchorShape.fixedText?, isSlot, Option.any_some] at noOpener noCloser
      exact ⟨noOpener, noCloser⟩

/-- The delimiters in front of a slot: those in front of the node, and the one of an opening bracket
that is pending, if it was filled. -/
def Holding (filled : Anchor → Bool) (base : List Nat) (pending : Option AnchorShape)
    (state : State) : Prop :=
  if pending.any (fun opening => filled opening.anchor) then ∃ line, state.delimiters = line :: base
  else state.delimiters = base

/-- What becomes of a pending bracket behind an anchor. -/
def pendingBehind (pending : Option AnchorShape) (shape : AnchorShape) : Option AnchorShape :=
  if shape.fixedText?.any isOpener then some shape
  else if shape.fixedText?.any isCloser then none
  else pending

theorem bracketed_cons {pending : Option AnchorShape} {shape : AnchorShape}
    {shapes : List AnchorShape} (pairs : bracketed pending (shape :: shapes) = true) :
    bracketed (pendingBehind pending shape) shapes = true ∧
      (shape.fixedText?.any isOpener = true → pending = none) ∧
      (shape.fixedText?.any isOpener = false → shape.fixedText?.any isCloser = true →
        ∃ opening, pending = some opening ∧ opening.closedBy shape = true ∧
          shape.filledWith opening = true) := by
  unfold bracketed at pairs
  unfold pendingBehind
  split at pairs
  · next opens =>
    rw [Bool.and_eq_true, Option.isNone_iff_eq_none] at pairs
    exact ⟨by simpa [opens] using pairs.2, fun _ => pairs.1,
      fun other => absurd opens (by simp [other])⟩
  · next noOpener =>
    split at pairs
    · next closes =>
      rw [Bool.and_eq_true, Option.any_eq_true] at pairs
      obtain ⟨⟨opening, isPending, goesWith⟩, rest⟩ := pairs
      rw [Bool.and_eq_true] at goesWith
      exact ⟨by simpa [noOpener, closes] using rest, fun opens => absurd opens noOpener,
        fun _ _ => ⟨opening, isPending, goesWith⟩⟩
    · next noCloser =>
      exact ⟨by simpa [noOpener, noCloser] using pairs, fun opens => absurd opens noOpener,
        fun _ closes => absurd closes noCloser⟩

/-- Anchors that are filled together are filled or not. -/
theorem filled_eq_of_filledWith {free : Anchor → String → Prop} {filled : Anchor → Bool}
    {opening closing : AnchorShape} {slot : PositionalSlot}
    (required : opening.presence = .required → filled opening.anchor = true)
    (closes : Fitted free filled closing slot) (goesWith : closing.filledWith opening = true) :
    filled opening.anchor = filled closing.anchor := by
  rw [AnchorShape.filledWith, Bool.or_eq_true, Bool.and_eq_true, beq_iff_eq, beq_iff_eq,
    beq_iff_eq] at goesWith
  rcases goesWith with together | ⟨closing', opening'⟩
  · exact (closes.together _ together).symm
  · rw [closes.required closing', required opening']

/-- The delimiters in front of an anchor are as its shape says. -/
structure Nested (filled : Anchor → Bool) (base : List Nat) (pending : Option AnchorShape)
    (shapes : List AnchorShape) (state : State) : Prop where
  pairs : bracketed pending shapes = true
  required : ∀ opening ∈ pending, opening.presence = .required → filled opening.anchor = true
  holding : Holding filled base pending state

namespace Nested

variable {filled : Anchor → Bool} {base : List Nat} {pending : Option AnchorShape}
  {shape : AnchorShape} {shapes : List AnchorShape} {state after : State}

theorem relaid (nested : Nested filled base pending shapes state)
    (same : after.delimiters = state.delimiters) : Nested filled base pending shapes after :=
  ⟨nested.pairs, nested.required, by
    have holding := nested.holding
    unfold Holding at holding ⊢
    rwa [same]⟩

/-- An anchor without a bracket leaves the delimiters as they are. -/
theorem plain (nested : Nested filled base pending (shape :: shapes) state)
    (noOpener : shape.fixedText?.any isOpener = false)
    (noCloser : shape.fixedText?.any isCloser = false)
    (same : after.delimiters = state.delimiters) :
    Nested filled base (pendingBehind pending shape) shapes after := by
  have still : pendingBehind pending shape = pending := by
    rw [pendingBehind, noOpener, noCloser]
    rfl
  have pairs := (bracketed_cons nested.pairs).1
  rw [still] at pairs ⊢
  exact ⟨pairs, nested.required, (nested.relaid same).holding⟩

/-- An anchor that is not filled leaves the delimiters as they are. -/
theorem vacant {free : Anchor → String → Prop} {slot : PositionalSlot}
    (nested : Nested filled base pending (shape :: shapes) state)
    (fitted : Fitted free filled shape slot) (absent : slot.isPresent = false)
    (same : after.delimiters = state.delimiters) :
    Nested filled base (pendingBehind pending shape) shapes after := by
  have empty : filled shape.anchor = false := fitted.own.symm.trans absent
  obtain ⟨pairs, opens, closes⟩ := bracketed_cons nested.pairs
  have holding := nested.holding
  cases opener : shape.fixedText?.any isOpener with
  | true =>
    obtain rfl := opens opener
    simp only [pendingBehind, opener, if_true] at pairs ⊢
    refine ⟨pairs, ?_, ?_⟩
    · rintro _ ⟨⟩ isRequired
      exact fitted.required isRequired
    · simpa [Holding, empty, same] using holding
  | false =>
    cases closer : shape.fixedText?.any isCloser with
    | false => exact nested.plain opener closer same
    | true =>
      obtain ⟨opening, rfl, -, goesWith⟩ := closes opener closer
      have alike := filled_eq_of_filledWith (nested.required opening rfl) fitted goesWith
      simp only [pendingBehind, opener, closer, if_true, Bool.false_eq_true, if_false] at pairs ⊢
      refine ⟨pairs, fun _ mem => (Option.not_mem_none _ mem).elim, ?_⟩
      simpa [Holding, alike, empty, same] using holding

/-- A token pushes a delimiter, or it takes one away, or it leaves them as they are. -/
theorem token {lexeme : Lexeme} (nested : Nested filled base pending (shape :: shapes) state)
    (fitted : Fitted (fun _ => IsPlain) filled shape (.token (some lexeme))) (offset : Nat) :
    Nested filled base (pendingBehind pending shape) shapes (state.token offset lexeme.text) := by
  have some : filled shape.anchor = true := fitted.own.symm
  obtain ⟨pairs, opens, closes⟩ := bracketed_cons nested.pairs
  have delimiters := congrArg Prod.fst (state.level_token offset lexeme.text)
  have holding := nested.holding
  cases opener : shape.fixedText?.any isOpener with
  | true =>
    obtain rfl := opens opener
    obtain ⟨text, isFixed, isText⟩ := (Option.any_eq_true _ _).mp opener
    rw [fitted.text_of_fixedText? isFixed, isText] at delimiters
    simp only [pendingBehind, opener, if_true] at pairs ⊢
    refine ⟨pairs, ?_, ?_⟩
    · rintro _ ⟨⟩ isRequired
      exact fitted.required isRequired
    · have base : state.delimiters = base := holding
      rw [Holding, Option.any_some, some, if_pos rfl, ← base, fitted.text_of_fixedText? isFixed]
      exact ⟨_, delimiters⟩
  | false =>
    cases closer : shape.fixedText?.any isCloser with
    | false =>
      have plain := fitted.plain opener closer
      exact nested.plain opener closer (congrArg Prod.fst (state.level_token_plain offset plain))
    | true =>
      obtain ⟨opening, rfl, -, goesWith⟩ := closes opener closer
      have alike := filled_eq_of_filledWith (nested.required opening rfl) fitted goesWith
      obtain ⟨text, isFixed, isText⟩ := (Option.any_eq_true _ _).mp closer
      have noOpener : isOpener text = false := by simpa [isFixed] using opener
      rw [fitted.text_of_fixedText? isFixed, isText, noOpener] at delimiters
      simp only [pendingBehind, opener, closer, if_true, Bool.false_eq_true, if_false] at pairs ⊢
      refine ⟨pairs, fun _ mem => (Option.not_mem_none _ mem).elim, ?_⟩
      rw [Holding, Option.any_some, alike, some, if_pos rfl] at holding
      obtain ⟨line, pushed⟩ := holding
      rw [fitted.text_of_fixedText? isFixed]
      exact delimiters.trans (congrArg List.tail pushed)

end Nested

/-- Printing succeeds and leaves the level as it was. -/
def KeepsLevel (walk : Printer Unit) : Prop :=
  ∀ state, ∃ after, walk.run state = .ok ((), after) ∧ after.level = state.level

mutual
/-- Printing a node restores the level. -/
theorem keepsLevel_tree : ∀ tree : Positional, AllFit plainFree tree.preorder →
    KeepsLevel (Print.tree .standard tree)
  | .node kind span slots, fits => by
      rw [preorder] at fits
      obtain ⟨⟨filled, fitted⟩, below⟩ := List.forall_mem_cons.mp fits
      intro state
      have nested : Nested filled state.delimiters none (standardShape kind).anchors
          (state.enter kind) :=
        ⟨bracketed_standard kind, fun _ mem => (Option.not_mem_none _ mem).elim,
          congrArg Prod.fst (state.level_enter kind)⟩
      obtain ⟨after, run, same⟩ := nested_slots (.node kind span slots) state.tokens _ slots
        fitted (fun _ mem => mem) below _ _ nested
      exact ⟨_, run_tree rfl run, Prod.ext same rfl⟩

/-- Printing the slots of a node restores the delimiters. -/
theorem nested_slots (node : Positional) (tokens : Nat) {filled : Anchor → Bool} {base : List Nat} :
    ∀ (shapes : List AnchorShape) (slots : List PositionalSlot),
      List.Forall₂ (Fitted (fun _ => IsPlain) filled) shapes slots →
      (∀ shape ∈ shapes, shape ∈ (standardShape node.kind).anchors) →
      AllFit plainFree (preorderSlots slots) →
      ∀ (pending : Option AnchorShape) (state : State), Nested filled base pending shapes state →
        ∃ after, (printSlots .standard node tokens shapes slots).run state = .ok ((), after) ∧
          after.delimiters = base
  | _, [], .nil, _, _, pending, state, nested => by
      refine ⟨state, rfl, ?_⟩
      have none : pending = none := by simpa [bracketed] using nested.pairs
      have holding := nested.holding
      rwa [none] at holding
  | shape :: shapes, slot :: slots, .cons here rest, among, below, pending, state, nested => by
      rw [preorderSlots_cons] at below
      obtain ⟨inside, others⟩ := List.forall_mem_append.mp below
      obtain ⟨isAnchor, among⟩ := List.forall_mem_cons.mp among
      obtain ⟨between, run, nested, -⟩ := nested_slot node tokens shape shapes slots isAnchor slot
        here inside pending state nested
      obtain ⟨after, run', same⟩ :=
        nested_slots node tokens shapes slots rest among others _ between nested
      exact ⟨after, run_printSlots run run', same⟩

/-- Printing a slot keeps the delimiters as the shape says. -/
theorem nested_slot (node : Positional) (tokens : Nat) {filled : Anchor → Bool} {base : List Nat}
    (shape : AnchorShape) (shapes : List AnchorShape) (following : List PositionalSlot)
    (isAnchor : shape ∈ (standardShape node.kind).anchors) :
    ∀ slot : PositionalSlot, Fitted (fun _ => IsPlain) filled shape slot →
      AllFit plainFree (preorderSlots [slot]) →
      ∀ (pending : Option AnchorShape) (state : State),
        Nested filled base pending (shape :: shapes) state →
        ∃ after, (printSlot .standard node tokens shape following slot).run
            (state.askContinuation tokens node.kind shape.anchor slot) = .ok ((), after) ∧
          Nested filled base (pendingBehind pending shape) shapes after ∧
          (shape.fixedText?.any isOpener = false → shape.fixedText?.any isCloser = false →
            after.delimiters = state.delimiters)
  | .token none, fitted, _, _, state, nested => by
      have same := state.delimiters_askContinuation tokens node.kind shape.anchor (.token none)
      exact ⟨_, rfl, nested.vacant fitted rfl same, fun _ _ => same⟩
  | .token (some lexeme), fitted, _, _, state, nested => by
      have asked : ((state.askContinuation tokens node.kind shape.anchor
          (.token (some lexeme))).askGap tokens shape.gap
          (following.head?.any Slot.isPresent)).delimiters = state.delimiters :=
        (congrArg Prod.fst (State.level_askGap ..)).trans (state.delimiters_askContinuation ..)
      refine ⟨_, rfl, (nested.relaid asked).token fitted _, fun noOpener noCloser => ?_⟩
      exact (congrArg Prod.fst
        (State.level_token_plain _ _ (fitted.plain noOpener noCloser))).trans asked
  | .child none, fitted, _, _, state, nested => by
      have same := state.delimiters_askContinuation tokens node.kind shape.anchor (.child none)
      exact ⟨_, rfl, nested.vacant fitted rfl same, fun _ _ => same⟩
  | .child (some child), fitted, below, _, state, nested => by
      have noText : shape.fixedText? = none := fitted.fixedText?_eq_none nofun
      obtain ⟨after, run, level⟩ := keepsLevel_tree child (by simpa [preorderSlots] using below)
        ((state.askContinuation tokens node.kind shape.anchor (.child (some child))).askGap tokens
          shape.gap (!beginsWithParen child))
      rw [State.level_askGap] at level
      have same : after.delimiters = state.delimiters :=
        (congrArg Prod.fst level).trans (state.delimiters_askContinuation ..)
      exact ⟨after, run_printSlot_child run,
        nested.plain (by rw [noText]; rfl) (by rw [noText]; rfl) same, fun _ _ => same⟩
  | .list elements separators, fitted, below, _, state, nested => by
      have noText : shape.fixedText? = none := fitted.fixedText?_eq_none nofun
      obtain ⟨layout, isList⟩ := fitted.exists_layout
      have plain : ∀ text ∈ layout.separator, IsPlain text := fun text isText => by
        rw [separator_standard node.kind shape isAnchor text (by rwa [isList])]
        exact ⟨rfl, rfl⟩
      obtain ⟨after, run, level⟩ := keepsLevel_elements tokens
        (listPlan node shape layout following) plain true separators elements
        (by simpa [preorderSlots] using below)
        (state.askContinuation tokens node.kind shape.anchor (.list elements separators))
      have same : (if isLines node layout.style && !elements.isEmpty then after.askLine
          else after).delimiters = state.delimiters := by
        refine Eq.trans ?_ ((congrArg Prod.fst level).trans (state.delimiters_askContinuation ..))
        split <;> rfl
      exact ⟨_, run_printSlot_list isList run,
        nested.plain (by rw [noText]; rfl) (by rw [noText]; rfl) same, fun _ _ => same⟩

theorem keepsLevel_elements (tokens : Nat) (plan : ListPlan)
    (plain : ∀ text ∈ plan.separator, IsPlain text) :
    ∀ (first : Bool) (separators : List Span) (elements : List Positional),
      AllFit plainFree (preorderElements elements) →
      KeepsLevel (printElements .standard tokens plan first separators elements)
  | _, _, [], _ => fun state => ⟨state, rfl, rfl⟩
  | first, separators, element :: elements, below => by
      intro state
      rw [preorderElements] at below
      obtain ⟨inside, others⟩ := List.forall_mem_append.mp below
      obtain ⟨between, run, same⟩ := keepsLevel_tree element inside
        (state.askElement tokens plan first)
      obtain ⟨after, run', same'⟩ := keepsLevel_elements tokens plan plain false
        (separators.drop 1) elements others (between.separator plan
          ((separators.head?.map Span.start).getD element.span.stop) elements.isEmpty)
      refine ⟨after, run_printElements run run', ?_⟩
      rw [same', State.level_separator between _ _ plain, same, State.level_askElement]
end

/-! ## What is printed on the way -/

/-- What is printed as part of something else, with the printer in front of it. -/
inductive Visits : Task × State → Task × State → Prop
  | slots (kind : NodeKind) (span : Span) (slots : List PositionalSlot) (state : State) :
      Visits (.tree (.node kind span slots), state)
        (.slots (.node kind span slots) state.tokens (standardShape kind).anchors slots,
          state.enter kind)
  | rest {node : Positional} {tokens : Nat} {shape : AnchorShape} {shapes : List AnchorShape}
      {slot : PositionalSlot} {slots : List PositionalSlot} {state between : State}
      (run : (printSlot .standard node tokens shape slots slot).run
        (state.askContinuation tokens node.kind shape.anchor slot) = .ok ((), between)) :
      Visits (.slots node tokens (shape :: shapes) (slot :: slots), state)
        (.slots node tokens shapes slots, between)
  | child (node : Positional) (tokens : Nat) (shape : AnchorShape) (shapes : List AnchorShape)
      (child : Positional) (slots : List PositionalSlot) (state : State) :
      Visits (.slots node tokens (shape :: shapes) (.child (some child) :: slots), state)
        (.tree child, (state.askContinuation tokens node.kind shape.anchor
          (.child (some child))).askGap tokens shape.gap (!beginsWithParen child))
  | elements (node : Positional) (tokens : Nat) (shape : AnchorShape) (shapes : List AnchorShape)
      (layout : ListLayout) (isList : shape.slot = .list layout) (elements : List Positional)
      (separators : List Span) (slots : List PositionalSlot) (state : State) :
      Visits (.slots node tokens (shape :: shapes) (.list elements separators :: slots), state)
        (.elements tokens (listPlan node shape layout slots) true separators elements,
          state.askContinuation tokens node.kind shape.anchor (.list elements separators))
  | element (tokens : Nat) (plan : ListPlan) (first : Bool) (separators : List Span)
      (element : Positional) (elements : List Positional) (state : State) :
      Visits (.elements tokens plan first separators (element :: elements), state)
        (.tree element, state.askElement tokens plan first)
  | others {tokens : Nat} {plan : ListPlan} {first : Bool} {separators : List Span}
      {element : Positional} {elements : List Positional} {state between : State}
      (run : (Print.tree .standard element).run (state.askElement tokens plan first) =
        .ok ((), between)) :
      Visits (.elements tokens plan first separators (element :: elements), state)
        (.elements tokens plan false (separators.drop 1) elements,
          between.separator plan ((separators.head?.map Span.start).getD element.span.stop)
            elements.isEmpty)

/-- What is printed on the way. -/
abbrev Reaches := Relation.ReflTransGen Visits

/-- An opening delimiter of a node was printed on the way from `start` to `now`.  It was pushed in
front of the delimiters that were open before, and it is the last open one. -/
structure OpenedBy (start now : Task × State) (node : Positional) (tokens : Nat)
    (anchor : AnchorShape) (opener : Lexeme) (before pushed : State) : Prop where
  reached : ∃ shapes slots,
    Reaches start (.slots node tokens (anchor :: shapes) (.token (some opener) :: slots), before) ∧
    Visits (.slots node tokens (anchor :: shapes) (.token (some opener) :: slots), before)
      (.slots node tokens shapes slots, pushed) ∧
    Reaches (.slots node tokens shapes slots, pushed) now
  pushes : pushed.delimiters = pushed.line :: before.delimiters
  still : now.2.delimiters = pushed.delimiters

/-- What holds of whatever is printed on the way: nodes fit their shapes, and when a bracket is
pending and filled, it is the last open delimiter. -/
inductive Upheld (start : Task × State) : Task × State → Prop
  | tree {tree : Positional} (fits : AllFit plainFree tree.preorder) (state : State) :
      Upheld start (.tree tree, state)
  | slots {node : Positional} {tokens : Nat} {shapes : List AnchorShape}
      {slots : List PositionalSlot} {state : State} {filled : Anchor → Bool} {base : List Nat}
      {pending : Option AnchorShape}
      (fitted : List.Forall₂ (Fitted (fun _ => IsPlain) filled) shapes slots)
      (among : ∀ shape ∈ shapes, shape ∈ (standardShape node.kind).anchors)
      (below : AllFit plainFree (preorderSlots slots))
      (nested : Nested filled base pending shapes state)
      (opened : ∀ anchor ∈ pending, filled anchor.anchor = true → ∃ opener before pushed,
        anchor.fixedText? = some opener.text ∧ before.delimiters = base ∧
        OpenedBy start (.slots node tokens shapes slots, state) node tokens anchor opener before
          pushed) :
      Upheld start (.slots node tokens shapes slots, state)
  | elements {tokens : Nat} {plan : ListPlan} {first : Bool} {separators : List Span}
      {elements : List Positional} (plain : ∀ text ∈ plan.separator, IsPlain text)
      (below : AllFit plainFree (preorderElements elements)) (state : State) :
      Upheld start (.elements tokens plan first separators elements, state)

theorem upheld_of_visits {start whole part : Task × State} (reached : Reaches start whole)
    (upheld : Upheld start whole) (visits : Visits whole part) : Upheld start part := by
  cases visits with
  | slots kind span slots state =>
    obtain ⟨fits⟩ := upheld
    rw [preorder] at fits
    obtain ⟨⟨filled, fitted⟩, below⟩ := List.forall_mem_cons.mp fits
    exact .slots fitted (fun _ mem => mem) below
      ⟨bracketed_standard kind, fun _ mem => (Option.not_mem_none _ mem).elim, rfl⟩
      fun _ mem => (Option.not_mem_none _ mem).elim
  | @rest node tokens shape shapes slot slots state between run =>
    obtain ⟨⟩ | @⟨_, _, _, _, _, filled, base, pending, fitted, among, below, nested, opened⟩ :=
      upheld
    obtain ⟨here, fitted⟩ := List.forall₂_cons.mp fitted
    rw [preorderSlots_cons] at below
    obtain ⟨inside, others⟩ := List.forall_mem_append.mp below
    obtain ⟨isAnchor, among⟩ := List.forall_mem_cons.mp among
    obtain ⟨after, run', nested', same⟩ :=
      nested_slot node tokens shape shapes slots isAnchor slot here inside pending state nested
    obtain rfl : after = between := congrArg Prod.snd (Except.ok.inj (run'.symm.trans run))
    refine .slots fitted among others nested' fun anchor isPending isFilled => ?_
    unfold pendingBehind at isPending
    split at isPending
    · next opens =>
      -- the bracket itself has just been printed
      obtain rfl := Option.some.inj isPending
      obtain rfl := (bracketed_cons nested.pairs).2.1 opens
      obtain ⟨text, isFixed, isText⟩ := (Option.any_eq_true _ _).mp opens
      obtain ⟨lexeme, rfl⟩ := here.exists_lexeme isFixed isFilled
      obtain rfl := here.text_of_fixedText? isFixed
      refine ⟨lexeme, state, after, isFixed, nested.holding, ?_⟩
      refine ⟨⟨shapes, slots, reached, .rest run, .refl⟩, ?_, rfl⟩
      cases run
      refine (congrArg Prod.fst (State.level_token ..)).trans ?_
      rw [isText]
      exact congrArg _ ((congrArg Prod.fst (State.level_askGap ..)).trans
        (state.delimiters_askContinuation ..))
    · split at isPending
      · cases isPending
      · next noOpener noCloser =>
        obtain ⟨opener, before, pushed, isText, isBase, ⟨shapes', slots', reached, first, later⟩,
          pushes, still⟩ := opened anchor isPending isFilled
        refine ⟨opener, before, pushed, isText, isBase,
          ⟨shapes', slots', reached, first, later.tail (.rest run)⟩, pushes, ?_⟩
        exact (same (by simpa using noOpener) (by simpa using noCloser)).trans still
  | child node tokens shape shapes child slots state =>
    obtain ⟨⟩ | ⟨fitted, among, below⟩ := upheld
    rw [preorderSlots_cons] at below
    have inside : AllFit plainFree (preorderSlots [.child (some child)]) :=
      (List.forall_mem_append.mp below).1
    exact .tree (by simpa [preorderSlots] using inside) _
  | elements node tokens shape shapes layout isList elements separators slots state =>
    obtain ⟨⟩ | ⟨fitted, among, below⟩ := upheld
    rw [preorderSlots_cons] at below
    have inside : AllFit plainFree (preorderSlots [.list elements separators]) :=
      (List.forall_mem_append.mp below).1
    refine .elements (fun text isText => ?_) (by simpa [preorderSlots] using inside) _
    have isAnchor := among shape List.mem_cons_self
    rw [separator_standard node.kind shape isAnchor text (by rw [isList]; exact isText)]
    exact ⟨rfl, rfl⟩
  | element tokens plan first separators element elements state =>
    obtain ⟨⟩ | ⟨⟩ | ⟨plain, below⟩ := upheld
    exact .tree (List.forall_mem_append.mp below).1 _
  | others run =>
    obtain ⟨⟩ | ⟨⟩ | ⟨plain, below⟩ := upheld
    exact .elements plain (List.forall_mem_append.mp below).2 _

theorem upheld_of_reaches {start part : Task × State} (upheld : Upheld start start)
    (reached : Reaches start part) : Upheld start part := by
  induction reached with
  | refl => exact upheld
  | tail reached visits ih => exact upheld_of_visits reached ih visits

/-- A closing bracket takes away what the opening bracket of the same node has pushed. -/
theorem exists_openedBy {start : Task × State} {node : Positional} {tokens : Nat}
    {shape : AnchorShape} {shapes : List AnchorShape} {closer : Lexeme}
    {slots : List PositionalSlot} {state : State}
    (upheld : Upheld start
      (.slots node tokens (shape :: shapes) (.token (some closer) :: slots), state))
    (closes : isCloser closer.text = true) :
    ∃ anchor opener before pushed popped,
      OpenedBy start (.slots node tokens (shape :: shapes) (.token (some closer) :: slots), state)
        node tokens anchor opener before pushed ∧
      (opener.text, closer.text) ∈ delimiterPairs ∧
      Visits (.slots node tokens (shape :: shapes) (.token (some closer) :: slots), state)
        (.slots node tokens shapes slots, popped) ∧
      popped.delimiters = before.delimiters := by
  obtain ⟨⟩ | @⟨_, _, _, _, _, filled, base, pending, fitted, among, below, nested, opened⟩ :=
    upheld
  obtain ⟨here, -⟩ := List.forall₂_cons.mp fitted
  have isFilled : filled shape.anchor = true := here.own.symm
  -- the token is a bracket, so it is one of the shape
  have noOpener : shape.fixedText?.any isOpener = false := by
    by_contra opens
    obtain ⟨text, isFixed, isText⟩ := (Option.any_eq_true _ _).mp (by simpa using opens)
    rw [← here.text_of_fixedText? isFixed] at isText
    exact nomatch (isCloser_eq_false isText).symm.trans closes
  have isCloser : shape.fixedText?.any isCloser = true := by
    by_contra other
    exact nomatch (here.plain noOpener (by simpa using other)).2.symm.trans closes
  obtain ⟨anchor, rfl, closedBy, together⟩ := (bracketed_cons nested.pairs).2.2 noOpener isCloser
  have alike := filled_eq_of_filledWith (nested.required anchor rfl) here together
  obtain ⟨opener, before, pushed, isText, -, openedBy⟩ := opened anchor rfl (alike.trans isFilled)
  refine ⟨anchor, opener, before, pushed, _, openedBy, ?_, .rest rfl, ?_⟩
  · obtain ⟨text, isFixed, -⟩ := (Option.any_eq_true _ _).mp isCloser
    rw [here.text_of_fixedText? isFixed]
    simpa [AnchorShape.closedBy, isText, isFixed] using closedBy
  · have asked : ((state.askContinuation tokens node.kind shape.anchor
        (.token (some closer))).askGap tokens shape.gap
        (slots.head?.any Slot.isPresent)).delimiters = pushed.delimiters :=
      ((congrArg Prod.fst (State.level_askGap ..)).trans
        (state.delimiters_askContinuation ..)).trans openedBy.still
    refine (congrArg Prod.fst (State.level_token ..)).trans ?_
    have other : isOpener closer.text = false := by
      by_contra opens
      exact nomatch (isCloser_eq_false (by simpa using opens)).symm.trans closes
    rw [other, closes, asked, openedBy.pushes]
    rfl

/-! ## Nesting is restored -/

/-- What holds of the open delimiters while a tree is printed. -/
structure NestingRestored (root : Positional) (table : List CommentEntry) : Prop where
  /-- Printing a node on the way succeeds and leaves the level as it was. -/
  restored : ∀ node state, Reaches (.tree root, .start table) (.tree node, state) →
    ∃ after, (Print.tree .standard node).run state = .ok ((), after) ∧
      after.delimiters = state.delimiters ∧ after.continuation = state.continuation
  /-- All elements of a list are printed at one level. -/
  siblings : ∀ tokens plan first separators elements state plan' first' separators' elements'
      state',
    Reaches (.tree root, .start table) (.elements tokens plan first separators elements, state) →
    Visits (.elements tokens plan first separators elements, state)
      (.elements tokens plan' first' separators' elements', state') →
    state'.delimiters = state.delimiters ∧ state'.continuation = state.continuation
  /-- A closing delimiter takes away what the opening one of the same node has pushed. -/
  closes : ∀ node tokens shape shapes closer slots state,
    Reaches (.tree root, .start table)
      (.slots node tokens (shape :: shapes) (.token (some closer) :: slots), state) →
    isCloser closer.text = true →
    ∃ anchor opener before pushed popped,
      OpenedBy (.tree root, .start table)
        (.slots node tokens (shape :: shapes) (.token (some closer) :: slots), state)
        node tokens anchor opener before pushed ∧
      (opener.text, closer.text) ∈ delimiterPairs ∧
      Visits (.slots node tokens (shape :: shapes) (.token (some closer) :: slots), state)
        (.slots node tokens shapes slots, popped) ∧
      popped.delimiters = before.delimiters
  /-- The only other tokens are the separators of lists, which are no delimiters. -/
  separators : ∀ tokens plan first separators elements state,
    Reaches (.tree root, .start table) (.elements tokens plan first separators elements, state) →
    ∀ text ∈ plan.separator, IsPlain text
  /-- In the end nothing is open. -/
  ended : ∃ after, (Print.tree .standard root).run (.start table) = .ok ((), after) ∧
    after.delimiters = [] ∧ after.continuation = 0

theorem nestingRestored_of_allFit {root : Positional} (fits : AllFit plainFree root.preorder)
    (table : List CommentEntry) : NestingRestored root table where
  restored := by
    intro node state reached
    obtain ⟨fits⟩ := upheld_of_reaches (.tree fits _) reached
    obtain ⟨after, run, level⟩ := keepsLevel_tree node fits state
    exact ⟨after, run, Prod.mk.inj level⟩
  siblings := by
    intro tokens plan first separators elements state plan' first' separators' elements' state'
      reached visits
    obtain ⟨⟩ | ⟨⟩ | ⟨plain, below⟩ := upheld_of_reaches (.tree fits _) reached
    cases visits with
    | @others tokens plan first separators element elements state between run =>
      obtain ⟨after, run', level⟩ := keepsLevel_tree element (List.forall_mem_append.mp below).1
        (state.askElement tokens plan first)
      obtain rfl : after = between := congrArg Prod.snd (Except.ok.inj (run'.symm.trans run))
      refine Prod.mk.inj ?_
      exact (State.level_separator after _ _ plain).trans (level.trans (State.level_askElement ..))
  closes := fun _ _ _ _ _ _ _ reached closes =>
    exists_openedBy (upheld_of_reaches (.tree fits _) reached) closes
  separators := by
    intro tokens plan first separators elements state reached
    obtain ⟨⟩ | ⟨⟩ | ⟨plain, below⟩ := upheld_of_reaches (.tree fits _) reached
    exact plain
  ended := by
    obtain ⟨after, run, level⟩ := keepsLevel_tree root fits (.start table)
    exact ⟨after, run, Prod.mk.inj level⟩

/-- **Nesting is restored.** While a restored tree is printed whose free tokens are no brackets,
printing a node leaves the open delimiters and the continuation as they were, every closing
delimiter takes away what its own opening one has pushed, and in the end nothing is open. -/
theorem nestingRestored_restore {tree : DecoratedTree} {restored : Restored}
    (accepted : (tree.restore .standard).result = .ok restored)
    (plain : ∀ node ∈ tree.root.preorder, ∀ shape ∈ (standardShape node.kind).anchors,
      shape.slot = .token .free → ∀ text ∈ node.token? shape.anchor,
        text ∉ ["(", ")", "[", "]", "\x7b", "\x7d"]) :
    NestingRestored restored.root restored.comments := by
  refine nestingRestored_of_allFit
    (allFit_of_restore accepted fun node mem shape isAnchor isFree text isText => ?_) _
  have other := plain node mem shape isAnchor isFree text isText
  simp only [List.mem_cons, List.not_mem_nil, or_false, not_or] at other
  simp [IsPlain, isOpener, isCloser, other]

/-- A call in the argument of another one: their brackets are open at once. -/
def nestedCall : DecoratedTree :=
  ⟨.call (.ident "f") [.call (.ident "g") [.basicLit "1"]], .empty⟩

theorem nestingRestored_nestedCall :
    NestingRestored (nestedCall.place .standard).root (nestedCall.place .standard).comments :=
  nestingRestored_restore (restore_eq_ok_iff.mpr ⟨by decide +kernel, rfl⟩) (by decide +kernel)

end GoTrivia
