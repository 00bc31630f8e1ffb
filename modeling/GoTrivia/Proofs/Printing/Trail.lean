import GoTrivia.Proofs.Printing.Walk

/-!
# The walk with its line breaks

The trail of a decorated tree is its walk with the line breaks that trivia asks for in their
places.  What is written on the way is the walk.

**Pace.** On the way of a trail it is known how many line breaks are asked for in front of what
comes next: the most that trivia has asked for since the last token or comment, at least one
behind a line comment, and none in front of the first token or comment.
-/

set_option autoImplicit false

namespace GoTrivia

open Print (Mark)

/-! ## Steps -/

/-- A token, a comment, or line breaks asked for in front of what comes next. -/
inductive Step
  | token (text : String)
  | comment (text : String)
  | gap (spacing : Spacing)
deriving DecidableEq, Repr

/-- What a step writes. -/
def Step.mark? : Step → Option Mark
  | token text => some (.token text)
  | comment text => some (.comment text)
  | gap _ => none

/-- What steps write. -/
def written (steps : List Step) : List Mark := steps.filterMap Step.mark?

@[simp]
theorem written_append (steps more : List Step) :
    written (steps ++ more) = written steps ++ written more :=
  List.filterMap_append

@[simp]
theorem written_nil : written [] = [] := rfl

@[simp]
theorem written_token (text : String) (steps : List Step) :
    written (.token text :: steps) = .token text :: written steps := rfl

/-- Whatever steps write can be seen. -/
def Visible (steps : List Step) : Prop := ∀ mark ∈ written steps, mark.text ≠ ""

theorem Visible.of_append {steps more : List Step} (visible : Visible (steps ++ more)) :
    Visible steps ∧ Visible more := by
  rw [Visible, written_append] at visible
  exact List.forall_mem_append.mp visible

/-- The steps of a trivia group. -/
def TriviaGroup.steps (group : TriviaGroup) : List Step :=
  .gap group.spacing :: group.comments.map Step.comment

/-- The steps of a row of a comment table. -/
def CommentEntry.steps (row : CommentEntry) : List Step :=
  .gap row.spacing :: row.texts.map Step.comment

/-- The steps of trivia groups. -/
def triviaSteps (groups : List TriviaGroup) : List Step := groups.flatMap TriviaGroup.steps

@[simp]
theorem triviaSteps_nil : triviaSteps [] = [] := rfl

@[simp]
theorem triviaSteps_append (groups more : List TriviaGroup) :
    triviaSteps (groups ++ more) = triviaSteps groups ++ triviaSteps more :=
  List.flatMap_append

/-- Trivia groups write their comments. -/
@[simp]
theorem written_triviaSteps (groups : List TriviaGroup) :
    written (triviaSteps groups) = commentMarks groups := by
  have comments (texts : List String) :
      written (texts.map Step.comment) = texts.map Mark.comment := by
    induction texts with
    | nil => rfl
    | cons text texts ih => exact congrArg (_ :: ·) ih
  induction groups with
  | nil => rfl
  | cons group groups ih =>
    have split : triviaSteps (group :: groups) = group.steps ++ triviaSteps groups := rfl
    rw [split, written_append, ih]
    exact congrArg (· ++ _) (comments group.comments)

/-! ## Steps and marks -/

/-- The step that writes a mark, if it is no blank. -/
def Print.Mark.step? : Mark → Option Step
  | token text => some (.token text)
  | comment text => some (.comment text)
  | space => none
  | tab => none
  | lineFeed => none

/-- The steps that write marks. -/
def stepsOf (marks : List Mark) : List Step := marks.filterMap Mark.step?

@[simp]
theorem stepsOf_append (marks more : List Mark) :
    stepsOf (marks ++ more) = stepsOf marks ++ stepsOf more :=
  List.filterMap_append

@[simp]
theorem stepsOf_nil : stepsOf [] = [] := rfl

@[simp]
theorem stepsOf_token (text : String) (marks : List Mark) :
    stepsOf (.token text :: marks) = .token text :: stepsOf marks := rfl

/-! ## The trail of a tree -/

/-- Steps between the trivia on both sides of an anchor. -/
def Decorations.stepsAround (decorations : Decorations) (anchor : Anchor) (steps : List Step) :
    List Step :=
  triviaSteps (decorations.ofAnchor anchor).before ++ steps ++
    triviaSteps (decorations.ofAnchor anchor).after

theorem Decorations.written_stepsAround (decorations : Decorations) (anchor : Anchor)
    (steps : List Step) : written (decorations.stepsAround anchor steps) =
      decorations.around anchor (written steps) := by
  simp [stepsAround, around]

namespace Decorated

/-- The separator behind a list element. -/
def separatorSteps (separator : Option String) (shown : Bool) : List Step :=
  if shown then separator.toList.map Step.token else []

theorem written_separatorSteps (separator : Option String) (shown : Bool) :
    written (separatorSteps separator shown) = separatorMarks separator shown := by
  cases shown with
  | false => rfl
  | true => cases separator <;> rfl

theorem stepsOf_separatorMarks (separator : Option String) (shown : Bool) :
    stepsOf (separatorMarks separator shown) = separatorSteps separator shown := by
  cases shown with
  | false => rfl
  | true => cases separator <;> rfl

mutual
/-- The steps of a tree up to its finish, without the trivia behind it. -/
def trail (registry : Registry) : Decorated → List Step
  | .node kind decorations slots =>
    decorations.stepsAround .start [] ++
      trailSlots registry decorations (registry.anchorsOf kind) slots ++
      triviaSteps (decorations.ofAnchor .finish).before

/-- The steps of the slots of a node. -/
def trailSlots (registry : Registry) (decorations : Decorations) (shapes : List AnchorShape) :
    List DecoratedSlot → List Step
  | [] => []
  | slot :: slots =>
    match shapes with
    | [] => []
    | shape :: shapes =>
      trailSlot registry decorations shape (closing? decorations shapes slots) slot ++
        trailSlots registry decorations shapes slots

/-- The steps of one slot, given the trivia in front of the token that follows it. -/
def trailSlot (registry : Registry) (decorations : Decorations) (shape : AnchorShape)
    (closing : Option (List TriviaGroup)) : DecoratedSlot → List Step
  | .token none => []
  | .token (some text) => decorations.stepsAround shape.anchor [.token text]
  | .child none => []
  | .child (some child) =>
    trail registry child ++ triviaSteps (trailing child) ++
      decorations.stepsAround shape.anchor []
  | .list elements _ => trailElements registry shape.slot.separator? closing elements

/-- The steps of list elements with their separators. -/
def trailElements (registry : Registry) (separator : Option String)
    (closing : Option (List TriviaGroup)) : List Decorated → List Step
  | [] => []
  | tree :: trees =>
    trail registry tree ++
      separatorSteps separator (!trees.isEmpty || closesLater tree closing) ++
      triviaSteps (trailing tree) ++ trailElements registry separator closing trees
end

/-- The steps of a whole tree. -/
def fullTrail (registry : Registry) (tree : Decorated) : List Step :=
  trail registry tree ++ triviaSteps (trailing tree)

mutual
/-- The trail of a tree writes its walk. -/
theorem written_trail (registry : Registry) :
    ∀ tree : Decorated, written (trail registry tree) = walk registry tree
  | .node kind decorations slots => by
      rw [trail, walk, written_append, written_append, decorations.written_stepsAround,
        written_trailSlots registry decorations _ slots, written_triviaSteps, written_nil]

theorem written_trailSlots (registry : Registry) (decorations : Decorations) :
    ∀ (shapes : List AnchorShape) (slots : List DecoratedSlot),
      written (trailSlots registry decorations shapes slots) =
        walkSlots registry decorations shapes slots
  | _, [] => by rw [trailSlots, walkSlots, written_nil]
  | [], _ :: _ => by rw [trailSlots, walkSlots, written_nil]
  | shape :: shapes, slot :: slots => by
      rw [trailSlots, walkSlots, written_append, written_trailSlot registry decorations shape _ slot,
        written_trailSlots registry decorations shapes slots]

theorem written_trailSlot (registry : Registry) (decorations : Decorations) (shape : AnchorShape)
    (closing : Option (List TriviaGroup)) : ∀ slot : DecoratedSlot,
      written (trailSlot registry decorations shape closing slot) =
        walkSlot registry decorations shape closing slot
  | .token none => by rw [trailSlot, walkSlot, written_nil]
  | .token (some text) => by
      rw [trailSlot, walkSlot, decorations.written_stepsAround]
      rfl
  | .child none => by rw [trailSlot, walkSlot, written_nil]
  | .child (some child) => by
      rw [trailSlot, walkSlot, written_append, written_append, written_trail registry child,
        written_triviaSteps, decorations.written_stepsAround, written_nil]
  | .list elements _ => by
      rw [trailSlot, walkSlot, written_trailElements registry _ closing elements]

theorem written_trailElements (registry : Registry) (separator : Option String)
    (closing : Option (List TriviaGroup)) : ∀ trees : List Decorated,
      written (trailElements registry separator closing trees) =
        walkElements registry separator closing trees
  | [] => by rw [trailElements, walkElements, written_nil]
  | tree :: trees => by
      rw [trailElements, walkElements, written_append, written_append, written_append,
        written_trail registry tree, written_separatorSteps, written_triviaSteps,
        written_trailElements registry separator closing trees]
end

theorem written_fullTrail (registry : Registry) (tree : Decorated) :
    written (fullTrail registry tree) = fullWalk registry tree := by
  rw [fullTrail, fullWalk, written_append, written_trail, written_triviaSteps]

end Decorated

/-! ## Pace -/

/-- What is known in front of a step: whether something was written yet, and the line breaks
asked for since. -/
structure Pace where
  begun : Bool
  breaks : Nat
deriving DecidableEq, Repr

namespace Pace

/-- The pace at the start. -/
def start : Pace := ⟨false, 0⟩

/-- The pace behind a step. -/
def behind (pace : Pace) : Step → Pace
  | .token _ => ⟨true, 0⟩
  | .comment text => ⟨true, if isLineComment text then 1 else 0⟩
  | .gap spacing => { pace with breaks := max pace.breaks spacing.lineBreaks }

/-- The line breaks asked for in front of something written now. -/
def asked (pace : Pace) : Nat := if pace.begun then min pace.breaks 2 else 0

end Pace

/-- What steps write, each with the line breaks asked for in front of it. -/
def asks : Pace → List Step → List (Mark × Nat)
  | _, [] => []
  | pace, step :: steps =>
    (step.mark?.map (·, pace.asked)).toList ++ asks (pace.behind step) steps

theorem asks_append (pace : Pace) (steps more : List Step) :
    asks pace (steps ++ more) = asks pace steps ++ asks (steps.foldl Pace.behind pace) more := by
  induction steps generalizing pace with
  | nil => rfl
  | cons step steps ih => rw [List.cons_append, asks, asks, ih, List.append_assoc, List.foldl_cons]

theorem map_fst_asks (pace : Pace) (steps : List Step) :
    (asks pace steps).map Prod.fst = written steps := by
  induction steps generalizing pace with
  | nil => rfl
  | cons step steps ih =>
    rw [asks, List.map_append, ih]
    cases step <;> rfl

/-! ## Steps that ask for something -/

/-- Steps without those that ask for no line break. -/
def loud (steps : List Step) : List Step := steps.filter (· ≠ .gap .sameLine)

@[simp]
theorem loud_append (steps more : List Step) : loud (steps ++ more) = loud steps ++ loud more :=
  List.filter_append ..

@[simp]
theorem loud_nil : loud [] = [] := rfl

@[simp]
theorem loud_silent (steps : List Step) : loud (.gap .sameLine :: steps) = loud steps := rfl

theorem loud_cons {step : Step} (speaks : step ≠ .gap .sameLine) (steps : List Step) :
    loud (step :: steps) = step :: loud steps :=
  List.filter_cons_of_pos (by simpa using speaks)

/-- Steps that ask for no line break do not matter. -/
theorem asks_loud (pace : Pace) (steps : List Step) : asks pace (loud steps) = asks pace steps := by
  induction steps generalizing pace with
  | nil => rfl
  | cons step steps ih =>
    by_cases silent : step = .gap .sameLine
    · subst silent
      have same : pace.behind (.gap .sameLine) = pace :=
        congrArg (Pace.mk pace.begun) (Nat.max_eq_left (Nat.zero_le _))
      rw [loud_silent, asks, same]
      exact ih pace
    · rw [loud_cons silent, asks, asks, ih]

theorem written_loud (steps : List Step) : written (loud steps) = written steps := by
  rw [← map_fst_asks .start, asks_loud, map_fst_asks]

end GoTrivia
