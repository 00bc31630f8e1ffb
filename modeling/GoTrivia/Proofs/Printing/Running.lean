import GoTrivia.Proofs.Printing.Pacing

/-!
# Running the printer

The printer is a walk in a state that may stop at a node of unknown kind.  For each of its
mutually recursive rules, this module says how a run of the rule is put together from runs
of the rules it calls.
-/

set_option autoImplicit false

namespace GoTrivia

open Print

variable {registry : Registry}

/-- The state in which the slots of a node are printed. -/
def Print.State.enter (state : State) (kind : NodeKind) : State :=
  if kind = .caseClause then { state with dedented := true } else state

theorem Print.State.relaid_enter (state : State) (kind : NodeKind) :
    Relaid state (state.enter kind) := by
  unfold enter
  split <;> exact ⟨rfl, rfl, rfl, id⟩

@[simp]
theorem Print.State.table_enter (state : State) (kind : NodeKind) :
    (state.enter kind).table = state.table := by
  unfold enter
  split <;> rfl

/-- Printing a node of a known kind prints its slots; only the layout changes around
that. -/
theorem run_tree {kind : NodeKind} {span : Span} {slots : List PositionalSlot} {shape : Shape}
    (known : registry.shape? kind = some shape) {state after : State}
    (run : (printSlots registry (.node kind span slots) state.tokens shape.anchors slots).run
      (state.enter kind) = .ok ((), after)) :
    (Print.tree registry (.node kind span slots)).run state =
      .ok ((), { after with continuation := state.continuation }) := by
  have shapeOf : registry.shapeOf kind = .ok shape := by simp [Registry.shapeOf, known]
  unfold State.enter at run
  by_cases clause : kind = .caseClause
  · subst clause
    simp only [if_true] at run
    simp only [Print.tree, shapeOf, StateT.run_bind]
    show ((printSlots registry _ state.tokens shape.anchors slots).run
      { state with dedented := true } >>= _) = _
    rw [run]
    rfl
  · simp only [clause, if_false] at run
    simp only [Print.tree, shapeOf, StateT.run_bind, clause, if_false]
    show ((printSlots registry _ state.tokens shape.anchors slots).run state >>= _) = _
    rw [run]
    rfl

/-- Printing slots prints the first one and then the others. -/
theorem run_printSlots {node : Positional} {tokens : Nat} {shape : AnchorShape}
    {shapes : List AnchorShape} {slot : PositionalSlot} {slots : List PositionalSlot}
    {state between after : State}
    (first : (printSlot registry node tokens shape slots slot).run
      (state.askContinuation tokens node.kind shape.anchor slot) = .ok ((), between))
    (rest : (printSlots registry node tokens shapes slots).run between = .ok ((), after)) :
    (printSlots registry node tokens (shape :: shapes) (slot :: slots)).run state =
      .ok ((), after) := by
  simp only [printSlots, StateT.run_bind]
  show ((printSlot registry node tokens shape slots slot).run
    (state.askContinuation tokens node.kind shape.anchor slot) >>= _) = _
  rw [first]
  exact rest

/-- Printing a child prints its tree behind a gap. -/
theorem run_printSlot_child {node child : Positional} {tokens : Nat} {shape : AnchorShape}
    {following : List PositionalSlot} {state after : State}
    (run : (Print.tree registry child).run
      (state.askGap tokens shape.gap (!beginsWithParen child)) = .ok ((), after)) :
    (printSlot registry node tokens shape following (.child (some child))).run state =
      .ok ((), after) := by
  simp only [printSlot, StateT.run_bind]
  exact run

/-- How a list slot is printed. -/
def listPlan (node : Positional) (shape : AnchorShape) (layout : ListLayout)
    (following : List PositionalSlot) : ListPlan :=
  ⟨isLines node layout.style, layout.separator, shape.gap, nextToken? following⟩

/-- Printing a list prints its elements by its plan. -/
theorem run_printSlot_list {node : Positional} {tokens : Nat} {shape : AnchorShape}
    {layout : ListLayout} (isList : shape.slot = .list layout)
    {following : List PositionalSlot} {elements : List Positional} {separators : List Span}
    {state after : State}
    (run : (printElements registry tokens (listPlan node shape layout following) true separators
      elements).run state = .ok ((), after)) :
    (printSlot registry node tokens shape following (.list elements separators)).run state =
      .ok ((), if isLines node layout.style && !elements.isEmpty then after.askLine else after) := by
  simp only [printSlot, isList, StateT.run_bind]
  unfold listPlan at run
  rw [run]
  show (if _ then _ else _ : Printer Unit).run after = _
  split <;> rfl

/-- Printing list elements prints the first one, its separator and then the others. -/
theorem run_printElements {tokens : Nat} {plan : ListPlan} {first : Bool}
    {separators : List Span} {element : Positional} {elements : List Positional}
    {state between after : State}
    (head : (Print.tree registry element).run (state.askElement tokens plan first) =
      .ok ((), between))
    (rest : (printElements registry tokens plan false (separators.drop 1) elements).run
      (between.separator plan ((separators.head?.map Span.start).getD element.span.stop)
        elements.isEmpty) = .ok ((), after)) :
    (printElements registry tokens plan first separators (element :: elements)).run state =
      .ok ((), after) := by
  simp only [printElements, StateT.run_bind]
  show ((Print.tree registry element).run (state.askElement tokens plan first) >>= _) = _
  rw [head]
  exact rest

end GoTrivia
