import Mathlib.Data.List.Basic
import Mathlib.Tactic.Common
import GoTrivia.Restore.Basic

/-!
# What placing hands out

A walk that hands out offsets only ever counts up and only ever adds to the log, so what
it does from a counter `n` on is described without the log it started with: the value it
returns, the things it places, and the counter it ends at (`Lays`).  The things it
places lie above the old counter and not above the new one, in strictly ascending order
(`Ascends`), and walks that follow each other place one behind the other.
-/

set_option autoImplicit false

namespace GoTrivia

namespace Restore

/-- Things placed above `low`, not above `high`, in strictly ascending order. -/
structure Ascends (low : Nat) (placed : List Placed) (high : Nat) : Prop where
  le : low ≤ high
  sorted : placed.Pairwise (·.offset < ·.offset)
  above : ∀ thing ∈ placed, low < thing.offset
  below : ∀ thing ∈ placed, thing.offset ≤ high

namespace Ascends

theorem nil (n : Nat) : Ascends n [] n :=
  ⟨Nat.le_refl n, List.Pairwise.nil, by simp, by simp⟩

theorem append {low middle high : Nat} {first second : List Placed}
    (left : Ascends low first middle) (right : Ascends middle second high) :
    Ascends low (first ++ second) high := by
  refine ⟨Nat.le_trans left.le right.le, ?_, ?_, ?_⟩
  · refine List.pairwise_append.mpr ⟨left.sorted, right.sorted, ?_⟩
    intro a amem b bmem
    exact Nat.lt_of_le_of_lt (left.below a amem) (right.above b bmem)
  · intro thing mem
    rcases List.mem_append.mp mem with here | there
    · exact left.above thing here
    · exact Nat.lt_of_le_of_lt left.le (right.above thing there)
  · intro thing mem
    rcases List.mem_append.mp mem with here | there
    · exact Nat.le_trans (left.below thing here) right.le
    · exact right.below thing there

end Ascends

variable {α β : Type}

/-- From the counter `low` on, a walk returns `value`, places `placed` and counts up to
`high`. -/
structure Lays (walk : Synth α) (low : Nat) (value : α) (placed : List Placed) (high : Nat) :
    Prop where
  run : ∀ log, walk.run ⟨low, log⟩ = (value, ⟨high, log ++ placed.toArray⟩)
  ascends : Ascends low placed high

namespace Lays

theorem pure (value : α) (n : Nat) : Lays (Pure.pure value) n value [] n :=
  ⟨fun _ => by simp; rfl, .nil n⟩

theorem bind {walk : Synth α} {next : α → Synth β} {low middle high : Nat} {value : α}
    {result : β} {first second : List Placed} (left : Lays walk low value first middle)
    (right : Lays (next value) middle result second high) :
    Lays (walk >>= next) low result (first ++ second) high := by
  refine ⟨fun log => ?_, left.ascends.append right.ascends⟩
  show (match walk.run ⟨low, log⟩ with | (a, state) => (next a).run state) = _
  rw [left.run log]
  show (next value).run ⟨middle, log ++ first.toArray⟩ = _
  rw [right.run (log ++ first.toArray)]
  simp [Array.append_assoc]

/-- A walk that only returns places nothing. -/
theorem of_pure {value result : α} {low high : Nat} {placed : List Placed}
    (lays : Lays (Pure.pure value) low result placed high) : placed = [] ∧ high = low := by
  have same : (value, (⟨low, #[]⟩ : Synthesis)) = (result, ⟨high, #[] ++ placed.toArray⟩) :=
    lays.run #[]
  simp only [Prod.mk.injEq, Synthesis.mk.injEq] at same
  obtain ⟨-, counter, log⟩ := same
  exact ⟨by simpa using log.symm, counter.symm⟩

/-- A walk does one thing from a counter on. -/
theorem unique {walk : Synth α} {low high high' : Nat} {value value' : α}
    {placed placed' : List Placed} (lays : Lays walk low value placed high)
    (lays' : Lays walk low value' placed' high') :
    value = value' ∧ placed = placed' ∧ high = high' := by
  have same := (lays.run #[]).symm.trans (lays'.run #[])
  obtain ⟨rfl, state⟩ := Prod.mk.inj same
  obtain ⟨counter, log⟩ := Synthesis.mk.inj state
  exact ⟨rfl, by simpa using log, counter⟩

theorem andReturn {walk : Synth α} {low high : Nat} {value : α} {placed : List Placed}
    (lays : Lays walk low value placed high) (f : α → β) :
    Lays (do return f (← walk)) low (f value) placed high := by
  have all : Lays (walk >>= fun a => Pure.pure (f a)) _ _ _ _ :=
    lays.bind (Lays.pure (f value) high)
  rw [List.append_nil] at all
  exact all

end Lays

/-! ## Single things -/

theorem lays_place (spacing : Spacing) (thing : Nat → Placed)
    (offset : ∀ n, (thing n).offset = n) (n : Nat) :
    Lays (place spacing thing) n (n + (1 + spacing.lineBreaks))
      [thing (n + (1 + spacing.lineBreaks))] (n + (1 + spacing.lineBreaks)) := by
  refine ⟨fun log => ?_, ⟨by omega, by simp, ?_, ?_⟩⟩
  · simp [place]
    rfl
  · simp only [List.mem_singleton, forall_eq, offset]
    omega
  · simp [offset]

/-! ## Trivia groups -/

/-- The rows that trivia groups make from a counter on. -/
def rows (n : Nat) : List TriviaGroup → List CommentEntry
  | [] => []
  | group :: groups =>
    let offset := n + (1 + group.spacing.lineBreaks)
    ⟨offset, group.spacing, group.comments⟩ :: rows offset groups

/-- The counter behind trivia groups. -/
def behind (n : Nat) : List TriviaGroup → Nat
  | [] => n
  | group :: groups => behind (n + (1 + group.spacing.lineBreaks)) groups

theorem lays_placeGroups (groups : List TriviaGroup) (n : Nat) :
    Lays (placeGroups groups) n () ((rows n groups).map .group) (behind n groups) := by
  induction groups generalizing n with
  | nil => exact Lays.pure () n
  | cons group groups ih =>
    have first := lays_place group.spacing
      (fun offset => .group ⟨offset, group.spacing, group.comments⟩) (fun _ => rfl) n
    exact first.bind (ih _)

/-- The rows of the comment table among placed things. -/
def table (placed : List Placed) : List CommentEntry := placed.filterMap Placed.entry?

@[simp]
theorem table_nil : table [] = [] := rfl

@[simp]
theorem table_append (first second : List Placed) :
    table (first ++ second) = table first ++ table second :=
  List.filterMap_append

@[simp]
theorem table_groups (entries : List CommentEntry) : table (entries.map .group) = entries := by
  induction entries with
  | nil => rfl
  | cons entry entries ih =>
    simp only [table, List.map_cons, List.filterMap_cons, Placed.entry?] at ih ⊢
    rw [ih]

theorem mem_table_offset {placed : List Placed} {entry : CommentEntry}
    (mem : entry ∈ table placed) : ∃ thing ∈ placed, thing.offset = entry.offset := by
  obtain ⟨thing, inside, found⟩ := List.mem_filterMap.mp mem
  cases thing with
  | group row =>
    obtain rfl := Option.some.inj found
    exact ⟨_, inside, rfl⟩
  | anchor position => simp [Placed.entry?] at found
  | separator offset => simp [Placed.entry?] at found

@[simp]
theorem table_anchor (position : AnchorPosition) : table [.anchor position] = [] := rfl

@[simp]
theorem table_separator (offset : Nat) : table [.separator offset] = [] := rfl

/-! ## Points -/

/-- The offset of an anchor placed from a counter on. -/
def anchorOffset (decorations : Decorations) (anchor : Anchor) (n : Nat) : Nat :=
  behind n (decorations.ofAnchor anchor).before + 1

/-- What is placed for an anchor without the trivia behind it. -/
def anchorPlaced (kind : NodeKind) (decorations : Decorations) (anchor : Anchor) (n : Nat) :
    List Placed :=
  (rows n (decorations.ofAnchor anchor).before).map .group ++
    [.anchor ⟨kind, anchor, anchorOffset decorations anchor n⟩]

theorem lays_placeAnchor (kind : NodeKind) (decorations : Decorations) (anchor : Anchor)
    (n : Nat) :
    Lays (placeAnchor kind decorations anchor) n (anchorOffset decorations anchor n)
      (anchorPlaced kind decorations anchor n) (anchorOffset decorations anchor n) :=
  (lays_placeGroups _ n).bind
    (lays_place .sameLine (fun offset => .anchor ⟨kind, anchor, offset⟩) (fun _ => rfl) _)

theorem lays_placeAfter (decorations : Decorations) (anchor : Anchor) (n : Nat) :
    Lays (placeAfter decorations anchor) n ()
      ((rows n (decorations.ofAnchor anchor).after).map .group)
      (behind n (decorations.ofAnchor anchor).after) :=
  lays_placeGroups _ n

/-- The counter behind an anchor with the trivia on both sides. -/
def pointEnd (decorations : Decorations) (anchor : Anchor) (n : Nat) : Nat :=
  behind (anchorOffset decorations anchor n) (decorations.ofAnchor anchor).after

/-- What is placed for an anchor with the trivia on both sides. -/
def pointPlaced (kind : NodeKind) (decorations : Decorations) (anchor : Anchor) (n : Nat) :
    List Placed :=
  anchorPlaced kind decorations anchor n ++
    (rows (anchorOffset decorations anchor n) (decorations.ofAnchor anchor).after).map .group

theorem lays_placePoint (kind : NodeKind) (decorations : Decorations) (anchor : Anchor)
    (n : Nat) :
    Lays (placePoint kind decorations anchor) n (anchorOffset decorations anchor n)
      (pointPlaced kind decorations anchor n) (pointEnd decorations anchor n) :=
  (lays_placeAnchor kind decorations anchor n).bind
    ((lays_placeAfter decorations anchor _).andReturn fun _ => anchorOffset decorations anchor n)

/-! ## Nodes, slots and elements

One rule for each form a tree can have: what is placed for the form, from what is placed
for its parts. -/

section Parts

variable {registry : Registry} {kind : NodeKind} {decorations : Decorations}
  {shape : AnchorShape} {shapes : List AnchorShape} {low middle high : Nat}
  {new newRest : List Placed}

theorem lays_enclosed {slots : List DecoratedSlot} {placed : List PositionalSlot}
    (inside : Lays (placeSlots registry kind decorations (registry.anchorsOf kind) slots)
      (pointEnd decorations .start low) placed new high) :
    Lays (enclosed registry (.node kind decorations slots)) low
      (.node kind ⟨anchorOffset decorations .start low, anchorOffset decorations .finish high⟩ placed)
      (pointPlaced kind decorations .start low ++ (new ++ anchorPlaced kind decorations .finish high))
      (anchorOffset decorations .finish high) := by
  unfold enclosed
  exact (lays_placePoint kind decorations .start low).bind
    (inside.bind ((lays_placeAnchor kind decorations .finish high).andReturn _))

theorem lays_placeSlots_nil (shapes : List AnchorShape) (low : Nat) :
    Lays (placeSlots registry kind decorations shapes []) low [] [] low := by
  unfold placeSlots
  exact Lays.pure [] low

/-- Slots that have no shape left are not placed. -/
theorem lays_placeSlots_shapeless (slots : List DecoratedSlot) (low : Nat) :
    Lays (placeSlots registry kind decorations [] slots) low [] [] low := by
  cases slots with
  | nil => exact lays_placeSlots_nil [] low
  | cons slot slots =>
    unfold placeSlots
    exact Lays.pure [] low

theorem lays_placeSlots_cons {slot : DecoratedSlot} {slots : List DecoratedSlot}
    {placed : PositionalSlot} {placedRest : List PositionalSlot}
    (first : Lays (placeSlot registry kind decorations shape slot) low placed new middle)
    (rest : Lays (placeSlots registry kind decorations shapes slots) middle placedRest newRest high) :
    Lays (placeSlots registry kind decorations (shape :: shapes) (slot :: slots)) low
      (placed :: placedRest) (new ++ newRest) high := by
  unfold placeSlots
  exact first.bind (rest.andReturn _)

theorem lays_placeSlot_absent (low : Nat) :
    Lays (placeSlot registry kind decorations shape (.token none)) low (.token none) [] low := by
  unfold placeSlot
  exact Lays.pure _ low

theorem lays_placeSlot_token (text : String) (low : Nat) :
    Lays (placeSlot registry kind decorations shape (.token (some text))) low
      (.token (some ⟨text, .point (anchorOffset decorations shape.anchor low)⟩))
      (pointPlaced kind decorations shape.anchor low) (pointEnd decorations shape.anchor low) := by
  unfold placeSlot
  exact (lays_placePoint kind decorations shape.anchor low).andReturn _

theorem lays_placeSlot_vacant (low : Nat) :
    Lays (placeSlot registry kind decorations shape (.child none)) low (.child none) [] low := by
  unfold placeSlot
  exact Lays.pure _ low

theorem lays_placeSlot_child {child : Decorated} {placed : Positional}
    (inside : Lays (enclosed registry child) low placed new middle) :
    Lays (placeSlot registry kind decorations shape (.child (some child))) low (.child (some placed))
      (new ++ ((rows middle (child.info.ofAnchor .finish).after).map .group ++
        pointPlaced kind decorations shape.anchor
          (behind middle (child.info.ofAnchor .finish).after)))
      (pointEnd decorations shape.anchor (behind middle (child.info.ofAnchor .finish).after)) := by
  unfold placeSlot
  exact inside.bind ((lays_placeAfter child.info .finish middle).bind
    ((lays_placePoint kind decorations shape.anchor _).andReturn _))

theorem lays_placeSlot_list {elements : List Decorated} {placed : List Positional}
    {separators : List Span}
    (inside : Lays (placeElements registry (isSeparated shape.slot) elements) low
      (placed, separators) new high) :
    Lays (placeSlot registry kind decorations shape (.list elements ())) low
      (.list placed separators) new high := by
  unfold placeSlot
  exact inside.andReturn _

theorem lays_placeElements_nil (separated : Bool) (low : Nat) :
    Lays (placeElements registry separated []) low ([], []) [] low := by
  unfold placeElements
  exact Lays.pure _ low

section Elements

variable {tree : Decorated} {trees : List Decorated} {placed : Positional}
  {placedRest : List Positional} {separators : List Span}

theorem lays_placeElements_unseparated
    (first : Lays (enclosed registry tree) low placed new middle)
    (rest : Lays (placeElements registry false trees)
      (behind middle (tree.info.ofAnchor .finish).after) (placedRest, separators) newRest high) :
    Lays (placeElements registry false (tree :: trees)) low (placed :: placedRest, separators)
      (new ++ ((rows middle (tree.info.ofAnchor .finish).after).map .group ++ newRest)) high := by
  unfold placeElements
  exact first.bind ((lays_placeAfter tree.info .finish middle).bind (rest.andReturn _))

theorem lays_placeElements_separated
    (first : Lays (enclosed registry tree) low placed new middle)
    (rest : Lays (placeElements registry true trees)
      (behind (middle + 1) (tree.info.ofAnchor .finish).after) (placedRest, separators) newRest
      high) :
    Lays (placeElements registry true (tree :: trees)) low
      (placed :: placedRest, .point (middle + 1) :: separators)
      (new ++ ([.separator (middle + 1)] ++
        ((rows (middle + 1) (tree.info.ofAnchor .finish).after).map .group ++ newRest))) high := by
  unfold placeElements
  exact first.bind ((lays_place .sameLine .separator (fun _ => rfl) middle).bind
    ((lays_placeAfter tree.info .finish (middle + 1)).bind (rest.andReturn _)))

end Elements

end Parts

end Restore

end GoTrivia
