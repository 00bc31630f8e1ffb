import Mathlib.Data.List.Chain
import GoTrivia.Proofs.Decorating.Courses
import GoTrivia.Proofs.Decorating.Points
import GoTrivia.Proofs.Decorating.Quiet

/-!
# The trail of a rebuilt tree

Building a tree up again gives each point the next decoration in line.  So the trail of the
rebuilt tree is what the decorations pour out around the marks of the stops.

**Anchors.** A node keeps its decorations by anchor.  Since no anchor stands twice in a
shape, a decoration stays where it was put.
-/

set_option autoImplicit false

namespace GoTrivia

open Print (Mark)
open Positional (stops stopsSlots stopsSlot stopsElements)
open Decorated (trail trailSlots trailSlot trailElements closing? trailing closesLater separatorMarks
  separatorSteps)
open CommentGap (Hushed Quiet)

/-! ## Lists with their separators -/

/-- A number of elements has a separator behind each of them, perhaps but the last, if
separators are wanted at all. -/
def Separated (separator : Option String) (count : Nat) (separators : List Span) : Prop :=
  match separator with
  | some text => (count ≠ 0 → text = ",") ∧
      (count = separators.length ∨ count = separators.length + 1)
  | none => separators = []

theorem Separated.tail {separator : Option String} {count : Nat} {separators : List Span}
    (separated : Separated separator (count + 1) separators) :
    Separated separator count (separators.drop 1) := by
  cases separator with
  | none =>
    obtain rfl : separators = [] := separated
    rfl
  | some text =>
    obtain ⟨comma, lengths⟩ := separated
    refine ⟨fun _ => comma (by omega), ?_⟩
    rw [List.length_drop]
    omega

/-- The list of a slot has the separators its shape wants. -/
def Punctuated (shape : SlotShape) : PositionalSlot → Prop
  | .list nodes separators => Separated shape.separator? nodes.length separators
  | _ => True

theorem punctuated_vacant (shape : SlotShape) : Punctuated shape (.vacant shape) := by
  cases shape with
  | token text => trivial
  | child => trivial
  | list layout =>
    simp only [Slot.vacant, Punctuated, Separated, SlotShape.separator?]
    cases layout.separator with
    | none => rfl
    | some text => exact ⟨fun some => absurd rfl some, .inl rfl⟩

theorem punctuated_separated {shape : SlotShape} {layout : ListLayout} {nodes : List Positional}
    {separators : List Span} (isList : shape = .list layout) (separator : layout.separator = some ",")
    (lengths : nodes.length = separators.length ∨ nodes.length = separators.length + 1) :
    Punctuated shape (.list nodes separators) := by
  simp only [Punctuated, Separated, isList, SlotShape.separator?, separator]
  exact ⟨fun _ => trivial, lengths⟩

theorem punctuated_terminated {shape : SlotShape} {layout : ListLayout} (nodes : List Positional)
    (isList : shape = .list layout) (separator : layout.separator = none) :
    Punctuated shape (.list nodes []) := by
  simp only [Punctuated, Separated, isList, SlotShape.separator?, separator]

theorem SpellsSlots.punctuated : ∀ {kind : NodeKind} {shapes : List AnchorShape}
    {slots : List PositionalSlot} {tokens : List Token}, SpellsSlots kind shapes slots tokens →
    ∀ pair ∈ shapes.zip slots, Punctuated pair.1.slot pair.2
  | _, _, _, _, .nil => List.forall_mem_nil _
  | _, _, _, _, .vacant empty rest =>
      List.forall_mem_cons.mpr ⟨empty ▸ punctuated_vacant _, rest.punctuated⟩
  | _, _, _, _, .token _ _ _ rest => List.forall_mem_cons.mpr ⟨trivial, rest.punctuated⟩
  | _, _, _, _, .child _ _ _ rest => List.forall_mem_cons.mpr ⟨trivial, rest.punctuated⟩
  | _, _, _, _, .separated isList separator content _ rest =>
      List.forall_mem_cons.mpr
        ⟨punctuated_separated isList separator content.lengths, rest.punctuated⟩
  | _, _, _, _, .terminated isList separator _ rest =>
      List.forall_mem_cons.mpr ⟨punctuated_terminated _ isList separator, rest.punctuated⟩

/-! ## What rebuilding does -/

/-- The stops of a tree in front of its finish. -/
def inner : Positional → List Stop
  | .node kind span slots => .place span.start :: stopsSlots (standardShape kind).anchors slots

theorem stops_eq_inner (finish : Nat → Stop) (tree : Positional) :
    stops finish tree = inner tree ++ [finish tree.info.stop] := by
  obtain ⟨kind, span, slots⟩ := tree
  simp [stops, inner, SlotTree.info]

/-- A rebuilt tree leads through its decorations.  The last of them surrounds whatever
follows the tree. -/
def TreeRebuilds (tree : Positional) : Prop :=
  ∀ (ds : List Decoration) (final : Decoration) (rest : List Decoration),
    ds.length = (inner tree).length → ((inner tree).zip ds).IsChain Hushed →
    ∃ rebuilt marks, Decorate.rebuild .standard tree (ds ++ final :: rest) = (rebuilt, rest) ∧
      List.Forall₂ Shows (inner tree) marks ∧
      trail .standard rebuilt = pour ds marks ++ triviaSteps final.before ∧
      trailing rebuilt = final.after

/-- Rebuilt elements lead through their decorations, with separators between them. -/
def ElementsRebuild (separator : Option String) (separators : List Span)
    (trees : List Positional) : Prop :=
  ∀ (ds rest : List Decoration),
    ds.length = (stopsElements separator.isSome separators trees).length →
    ((stopsElements separator.isSome separators trees).zip ds).IsChain Hushed →
    ∃ rebuilt, Decorate.rebuildElements .standard trees (ds ++ rest) = (rebuilt, rest) ∧
      rebuilt.length = trees.length ∧
      ∀ closing : Option (List TriviaGroup),
        (∀ before offset final, closing = some before →
          (stopsElements separator.isSome separators trees).getLast? = some (.last offset) →
          ds.getLast? = some final → Quiet (final.after ++ before)) →
        ∃ marks, List.Forall₂ Shows (stopsElements separator.isSome separators trees) marks ∧
          trailElements .standard separator closing rebuilt = pour ds marks

/-- A rebuilt slot leads through its decorations. -/
def SlotRebuilds (shape : AnchorShape) (slot : PositionalSlot) : Prop :=
  ∀ (decorations : Decorations) (ds rest : List Decoration),
    ds.length = (stopsSlot shape.slot slot).length →
    ((stopsSlot shape.slot slot).zip ds).IsChain Hushed →
    decorations.get? shape.anchor = none →
    ∃ slot' decorations', Decorate.rebuildSlot .standard shape.anchor slot decorations (ds ++ rest) =
        (slot', decorations', rest) ∧
      (∀ other, other ≠ shape.anchor → decorations'.get? other = decorations.get? other) ∧
      slot'.isPresent = slot.isPresent ∧
      ∀ final : Decorations, final.ofAnchor shape.anchor = decorations'.ofAnchor shape.anchor →
        (∀ text, slot' = .token (some text) → ∃ lexeme decoration,
          slot = .token (some lexeme) ∧ ds = [decoration] ∧
            (final.ofAnchor shape.anchor).before = decoration.before) ∧
        ∀ closing : Option (List TriviaGroup),
          (∀ before offset decoration, closing = some before →
            (stopsSlot shape.slot slot).getLast? = some (.last offset) →
            ds.getLast? = some decoration → Quiet (decoration.after ++ before)) →
          ∃ marks, List.Forall₂ Shows (stopsSlot shape.slot slot) marks ∧
            trailSlot .standard final shape closing slot' = pour ds marks

/-- Rebuilt slots lead through their decorations. -/
def SlotsRebuild (shapes : List AnchorShape) (slots : List PositionalSlot) : Prop :=
  ∀ (decorations : Decorations) (ds rest : List Decoration),
    ds.length = (stopsSlots shapes slots).length →
    ((stopsSlots shapes slots).zip ds).IsChain Hushed →
    (∀ shape ∈ shapes, decorations.get? shape.anchor = none) →
    (shapes.map AnchorShape.anchor).Nodup →
    ∃ slots' decorations', Decorate.rebuildSlots .standard shapes slots decorations (ds ++ rest) =
        (slots', decorations', rest) ∧
      (∀ other, other ∉ shapes.map AnchorShape.anchor →
        decorations'.get? other = decorations.get? other) ∧
      ∀ final : Decorations,
        (∀ shape ∈ shapes, final.ofAnchor shape.anchor = decorations'.ofAnchor shape.anchor) →
        (∀ before, closing? final shapes slots' = some before → ∃ lexeme decoration,
          (stopsSlots shapes slots).head? = some (.token lexeme) ∧ ds.head? = some decoration ∧
            before = decoration.before) ∧
        ∃ marks, List.Forall₂ Shows (stopsSlots shapes slots) marks ∧
          trailSlots .standard final shapes slots' = pour ds marks

/-! ## Trees -/

theorem treeRebuilds_node {kind : NodeKind} {span : Span} {slots : List PositionalSlot}
    (inside : SlotsRebuild (standardShape kind).anchors slots) :
    TreeRebuilds (.node kind span slots) := by
  intro ds final rest lengths hushed
  cases ds with
  | nil => simp [inner] at lengths
  | cons first ds =>
    let opened := (Decorate.attach .empty .start (first :: ds ++ final :: rest)).1
    have implicit : ∀ anchor : Anchor, anchor.isImplicit = true →
        anchor ∉ (standardShape kind).anchors.map AnchorShape.anchor := by
      intro anchor isImplicit mem
      obtain ⟨shape, found, rfl⟩ := List.mem_map.mp mem
      simp [not_isImplicit_of_mem found] at isImplicit
    have fresh : ∀ shape ∈ (standardShape kind).anchors, opened.get? shape.anchor = none := by
      intro shape mem
      refine (Decorate.get?_attach_of_ne _ ?_).trans (OrderedMap.get?_empty _)
      rintro same
      exact implicit .start rfl (same ▸ List.mem_map_of_mem mem)
    obtain ⟨slots', decorations', rebuilt, others, led⟩ := inside opened ds (final :: rest)
      (by simpa [inner] using lengths) (by simpa [inner] using hushed.tail) fresh
      (nodup_anchors kind)
    let closed := (Decorate.attach decorations' .finish (final :: rest)).1
    have start : closed.ofAnchor .start = first := by
      have kept : closed.get? .start = opened.get? .start :=
        (Decorate.get?_attach_of_ne _ (by decide)).trans (others .start (implicit .start rfl))
      rw [Decorations.ofAnchor, kept]
      exact Decorate.ofAnchor_attach (OrderedMap.get?_empty _)
    have finish : closed.ofAnchor .finish = final := by
      refine Decorate.ofAnchor_attach ((others .finish (implicit .finish rfl)).trans ?_)
      exact (Decorate.get?_attach_of_ne _ (by decide)).trans (OrderedMap.get?_empty _)
    have between : ∀ shape ∈ (standardShape kind).anchors,
        closed.ofAnchor shape.anchor = decorations'.ofAnchor shape.anchor := by
      intro shape mem
      have kept : closed.get? shape.anchor = decorations'.get? shape.anchor := by
        refine Decorate.get?_attach_of_ne _ fun same => ?_
        exact implicit .finish rfl (same ▸ List.mem_map_of_mem mem)
      rw [Decorations.ofAnchor, Decorations.ofAnchor, kept]
    obtain ⟨-, marks, shows, led⟩ := led closed between
    refine ⟨.node kind closed slots', [] :: marks, ?_, .cons (.place _) shows, ?_, ?_⟩
    · have step : Decorate.rebuild .standard (.node kind span slots) (first :: ds ++ final :: rest) =
          (fun result => (SlotTree.node kind (Decorate.attach result.2.1 .finish result.2.2).1 result.1,
            (Decorate.attach result.2.1 .finish result.2.2).2))
          (Decorate.rebuildSlots .standard (standardShape kind).anchors slots opened
            (ds ++ final :: rest)) := by
        unfold Decorate.rebuild
        rfl
      rw [step, rebuilt]
      rfl
    · unfold trail
      show closed.stepsAround .start [] ++ trailSlots .standard closed (standardShape kind).anchors slots' ++
        triviaSteps (closed.ofAnchor .finish).before = _
      rw [led, Decorations.stepsAround, start, finish, pour, stepsOf_nil]
    · rw [trailing]
      exact congrArg _ finish

/-! ## Slots -/

theorem slotsRebuild_nil (shapes : List AnchorShape) : SlotsRebuild shapes [] := by
  intro decorations ds rest lengths _ _ _
  obtain rfl : ds = [] := List.length_eq_zero_iff.mp (by simpa [stopsSlots] using lengths)
  refine ⟨[], decorations, by unfold Decorate.rebuildSlots; rfl, fun _ _ => rfl, fun final _ => ?_⟩
  refine ⟨fun before found => ?_, [], by simp [stopsSlots], by simp [trailSlots, pour]⟩
  cases shapes <;> simp [closing?] at found

theorem getLast?_zip {α β : Type} {as : List α} {bs : List β} {a : α} {b : β}
    (lengths : as.length = bs.length) (lastLeft : as.getLast? = some a)
    (lastRight : bs.getLast? = some b) : (as.zip bs).getLast? = some (a, b) := by
  obtain ⟨as, rfl⟩ := List.getLast?_eq_some_iff.mp lastLeft
  obtain ⟨bs, rfl⟩ := List.getLast?_eq_some_iff.mp lastRight
  rw [List.zip_append (by simpa using lengths)]
  simp

theorem head?_zip {α β : Type} {as : List α} {bs : List β} {a : α} {b : β}
    (firstLeft : as.head? = some a) (firstRight : bs.head? = some b) :
    (as.zip bs).head? = some (a, b) := by
  obtain ⟨as, rfl⟩ := List.head?_eq_some_iff.mp firstLeft
  obtain ⟨bs, rfl⟩ := List.head?_eq_some_iff.mp firstRight
  rfl

/-- An empty slot has no stops. -/
theorem stopsSlot_eq_nil {shape : SlotShape} {slot : PositionalSlot}
    (absent : slot.isPresent = false) : stopsSlot shape slot = [] := by
  cases slot with
  | token content =>
    cases content with
    | none => simp [stopsSlot]
    | some lexeme => simp at absent
  | child content =>
    cases content with
    | none => simp [stopsSlot]
    | some child => simp at absent
  | list elements separators =>
    cases elements with
    | nil => simp [stopsSlot, stopsElements]
    | cons tree trees => simp at absent

theorem closing?_cons (decorations : Decorations) (shape : AnchorShape) (shapes : List AnchorShape)
    (slot : DecoratedSlot) (slots : List DecoratedSlot) :
    closing? decorations (shape :: shapes) (slot :: slots) =
      match slot with
      | .token (some _) => some (decorations.ofAnchor shape.anchor).before
      | slot => if slot.isPresent then none else closing? decorations shapes slots := by
  cases slot with
  | token content => cases content <;> simp [closing?]
  | child content => simp [closing?]
  | list elements separators => simp [closing?]

theorem slotsRebuild_cons {shape : AnchorShape} {shapes : List AnchorShape}
    {slot : PositionalSlot} {slots : List PositionalSlot} (first : SlotRebuilds shape slot)
    (behind : SlotsRebuild shapes slots) : SlotsRebuild (shape :: shapes) (slot :: slots) := by
  intro decorations ds rest lengths hushed fresh distinct
  rw [stopsSlots] at lengths
  obtain ⟨here, later, rfl, hereLength, laterLength⟩ := exists_append_of_length lengths
  rw [stopsSlots, List.zip_append hereLength.symm, List.isChain_append] at hushed
  obtain ⟨hushedHere, hushedLater, border⟩ := hushed
  obtain ⟨freshHere, freshLater⟩ := List.forall_mem_cons.mp fresh
  obtain ⟨notLater, distinct⟩ := List.nodup_cons.mp distinct
  obtain ⟨slot', middle, rebuilt, others, present, led⟩ :=
    first decorations here (later ++ rest) hereLength hushedHere freshHere
  obtain ⟨slots', decorations', rebuilt', others', led'⟩ :=
    behind middle later rest laterLength hushedLater (by
      intro other mem
      rw [others other.anchor fun same => notLater (same ▸ List.mem_map_of_mem mem)]
      exact freshLater other mem) distinct
  refine ⟨slot' :: slots', decorations', ?_, ?_, ?_⟩
  · rw [List.append_assoc]
    unfold Decorate.rebuildSlots
    simp only [rebuilt, rebuilt']
  · intro other absent
    simp only [List.map_cons, List.mem_cons, not_or] at absent
    rw [others' other absent.2, others other absent.1]
  · intro final agrees
    obtain ⟨agreesHere, agreesLater⟩ := List.forall_mem_cons.mp agrees
    have kept : final.ofAnchor shape.anchor = middle.ofAnchor shape.anchor := by
      rw [agreesHere, Decorations.ofAnchor, Decorations.ofAnchor, others' _ notLater]
    obtain ⟨isToken, led⟩ := led final kept
    obtain ⟨closes, marksLater, showsLater, ledLater⟩ := led' final agreesLater
    obtain ⟨marks, shows, ledHere⟩ := led (closing? final shapes slots') (by
      intro before offset decoration found last lastDecoration
      obtain ⟨lexeme, next, token, nextDecoration, rfl⟩ := closes before found
      refine border (.last offset, decoration) ?_ (.token lexeme, next) ?_ offset lexeme rfl rfl
      · exact getLast?_zip hereLength.symm last lastDecoration
      · exact head?_zip token nextDecoration)
    refine ⟨?_, marks ++ marksLater, ?_, ?_⟩
    · intro before found
      rw [closing?_cons] at found
      split at found
      · obtain ⟨lexeme, decoration, rfl, rfl, same⟩ := isToken _ rfl
        exact ⟨lexeme, decoration, by simp [stopsSlots, stopsSlot], rfl,
          (Option.some.inj found).symm.trans same⟩
      · split at found
        · simp at found
        · next absent =>
          rw [present, Bool.not_eq_true] at absent
          have empty : stopsSlot shape.slot slot = [] := stopsSlot_eq_nil absent
          obtain rfl : here = [] := List.length_eq_zero_iff.mp (by rw [hereLength, empty]; rfl)
          rw [stopsSlots, empty]
          exact closes before found
    · rw [stopsSlots]
      exact List.rel_append shows showsLater
    · rw [trailSlots, ledHere, ledLater, pour_append]
      rw [hereLength, shows.length_eq]

theorem slotRebuilds_absent {shape : AnchorShape} {slot : PositionalSlot}
    (absent : slot = .token none ∨ slot = .child none) : SlotRebuilds shape slot := by
  intro decorations ds rest lengths _ _
  have empty : stopsSlot shape.slot slot = [] :=
    stopsSlot_eq_nil (by rcases absent with rfl | rfl <;> rfl)
  rw [empty] at lengths ⊢
  obtain rfl := List.length_eq_zero_iff.mp lengths
  rcases absent with rfl | rfl
  · refine ⟨.token none, decorations, by simp [Decorate.rebuildSlot], fun _ _ => rfl, rfl,
      fun final _ => ⟨by simp, fun closing _ => ⟨[], .nil, by simp [trailSlot, pour]⟩⟩⟩
  · refine ⟨.child none, decorations, by simp [Decorate.rebuildSlot], fun _ _ => rfl, rfl,
      fun final _ => ⟨by simp, fun closing _ => ⟨[], .nil, by simp [trailSlot, pour]⟩⟩⟩

theorem slotRebuilds_token (shape : AnchorShape) (lexeme : Lexeme) :
    SlotRebuilds shape (.token (some lexeme)) := by
  intro decorations ds rest lengths _ fresh
  obtain ⟨decoration, rfl⟩ := List.length_eq_one_iff.mp
    (lengths.trans (by rw [stopsSlot]; rfl : _ = 1))
  refine ⟨.token (some lexeme.text), (Decorate.attach decorations shape.anchor
    (decoration :: rest)).1, by simp [Decorate.rebuildSlot, Decorate.attach],
    fun other different => Decorate.get?_attach_of_ne _ different, rfl, fun final kept => ?_⟩
  rw [Decorate.ofAnchor_attach fresh] at kept
  refine ⟨fun text _ => ⟨lexeme, decoration, rfl, rfl, by rw [kept]⟩, fun closing _ => ?_⟩
  refine ⟨[[.token lexeme.text]], ?_, ?_⟩
  · rw [stopsSlot]
    exact .cons (.token lexeme) .nil
  · simp [trailSlot, Decorations.stepsAround, kept, pour]

theorem slotRebuilds_child {shape : AnchorShape} {child : Positional}
    (inside : TreeRebuilds child) : SlotRebuilds shape (.child (some child)) := by
  intro decorations ds rest lengths hushed fresh
  have stopsHere : stopsSlot shape.slot (.child (some child)) =
      inner child ++ [.place child.info.stop, .place child.info.stop] := by
    rw [stopsSlot, stops_eq_inner, List.append_assoc]
    rfl
  rw [stopsHere] at lengths hushed ⊢
  obtain ⟨ds, behind, rfl, length, two⟩ := exists_append_of_length lengths
  obtain ⟨first, second, rfl⟩ := List.length_eq_two.mp two
  rw [List.zip_append length.symm] at hushed
  obtain ⟨rebuilt, marks, built, shows, led, after⟩ :=
    inside ds first (second :: rest) length hushed.left_of_append
  refine ⟨.child (some rebuilt), (Decorate.attach decorations shape.anchor (second :: rest)).1,
    ?_, fun other different => Decorate.get?_attach_of_ne _ different, rfl, fun final kept => ?_⟩
  · rw [List.append_assoc]
    simp [Decorate.rebuildSlot, built, Decorate.attach]
  · rw [Decorate.ofAnchor_attach fresh] at kept
    refine ⟨by simp, fun closing _ => ⟨marks ++ [[], []], ?_, ?_⟩⟩
    · exact List.rel_append shows (.cons (.place _) (.cons (.place _) .nil))
    · rw [pour_append (length.trans shows.length_eq)]
      simp [trailSlot, led, after, Decorations.stepsAround, kept, pour]

theorem slotRebuilds_list {shape : AnchorShape} {trees : List Positional}
    {separators : List Span} (inside : ElementsRebuild shape.slot.separator? separators trees) :
    SlotRebuilds shape (.list trees separators) := by
  intro decorations ds rest lengths hushed _
  rw [stopsSlot] at lengths hushed ⊢
  obtain ⟨rebuilt, built, count, led⟩ := inside ds rest lengths hushed
  refine ⟨.list rebuilt (), decorations, by simp [Decorate.rebuildSlot, built], fun _ _ => rfl,
    ?_, fun final _ => ⟨by simp, fun closing quiet => ?_⟩⟩
  · cases trees <;> cases rebuilt <;> simp_all
  · obtain ⟨marks, shows, led⟩ := led closing quiet
    exact ⟨marks, shows, by rw [trailSlot, led]⟩

/-! ## List elements -/

theorem elementsRebuild_nil (separator : Option String) (separators : List Span) :
    ElementsRebuild separator separators [] := by
  intro ds rest lengths _
  rw [stopsElements] at lengths ⊢
  obtain rfl := List.length_eq_zero_iff.mp lengths
  exact ⟨[], by simp [Decorate.rebuildElements], rfl, fun closing _ =>
    ⟨[], .nil, by simp [trailElements, pour]⟩⟩

/-- What is written behind an element is what its finish allows. -/
theorem shows_behind {separator : Option String} {separators : List Span}
    {trees : List Positional} {closes : Bool}
    (separated : Separated separator (trees.length + 1) separators) (offset : Nat)
    (quiet : Stop.behind separator.isSome separators.head? trees.isEmpty offset = .last offset →
      closes = false) :
    Shows (Stop.behind separator.isSome separators.head? trees.isEmpty offset)
      (separatorMarks separator (!trees.isEmpty || closes)) := by
  cases separator with
  | none =>
    obtain rfl : separators = [] := separated
    have none : separatorMarks none (!trees.isEmpty || closes) = [] := by
      simp [separatorMarks]
    rw [none]
    exact .place offset
  | some text =>
    obtain ⟨comma, lengths⟩ := separated
    obtain rfl := comma (by omega)
    cases separators with
    | cons span separators =>
      cases trees with
      | nil =>
        cases closes with
        | false => exact .dropped offset span
        | true => exact .kept offset span true
      | cons tree trees => exact .kept offset span false
    | nil =>
      obtain rfl : trees = [] := by simpa using lengths
      rw [quiet rfl]
      exact .last offset

/-- Quiet trivia does not close a list on a later line. -/
theorem closesLater_eq_false {tree : Decorated} {closing : Option (List TriviaGroup)}
    (quiet : ∀ before, closing = some before → Quiet (trailing tree ++ before)) :
    closesLater tree closing = false := by
  cases closing with
  | none => rfl
  | some before =>
    rw [closesLater, Option.any_some, List.any_eq_false]
    intro group mem
    rw [Bool.not_eq_true]
    exact quiet before rfl group mem

theorem elementsRebuild_cons {separator : Option String} {separators : List Span}
    {tree : Positional} {trees : List Positional}
    (separated : Separated separator (trees.length + 1) separators) (first : TreeRebuilds tree)
    (behind : ElementsRebuild separator (separators.drop 1) trees) :
    ElementsRebuild separator separators (tree :: trees) := by
  intro ds rest lengths hushed
  have split : stopsElements separator.isSome separators (tree :: trees) = inner tree ++
      (Stop.behind separator.isSome separators.head? trees.isEmpty tree.info.stop ::
        stopsElements separator.isSome (separators.drop 1) trees) := by
    rw [stopsElements, stops_eq_inner, List.append_assoc]
    rfl
  rw [split] at lengths hushed ⊢
  obtain ⟨here, others, rfl, hereLength, othersLength⟩ := exists_append_of_length lengths
  cases others with
  | nil => simp at othersLength
  | cons finish later =>
    rw [List.zip_append hereLength.symm] at hushed
    obtain ⟨rebuilt, marks, built, shows, led, after⟩ :=
      first here finish (later ++ rest) hereLength hushed.left_of_append
    obtain ⟨rebuilts, builts, count, ledLater⟩ := behind later rest (by simpa using othersLength)
      hushed.right_of_append.tail
    refine ⟨rebuilt :: rebuilts, ?_, by simp [count], fun closing quiet => ?_⟩
    · rw [List.append_assoc]
      simp [Decorate.rebuildElements, built, builts]
    · obtain ⟨marksLater, showsLater, ledLater⟩ := ledLater closing (by
        intro before offset final isClosing last lastDecoration
        refine quiet before offset final isClosing ?_ ?_
        · rw [List.getLast?_append, List.getLast?_cons, last]
          rfl
        · rw [List.getLast?_append, List.getLast?_cons, lastDecoration]
          rfl)
      have still : Stop.behind separator.isSome separators.head? trees.isEmpty tree.info.stop =
          .last tree.info.stop → closesLater rebuilt closing = false := by
        intro isLast
        refine closesLater_eq_false fun before isClosing => ?_
        obtain rfl : trees = [] := by
          unfold Stop.behind at isLast
          split at isLast
          · simp at isLast
          · split at isLast <;> simp_all
        obtain rfl : later = [] := by simpa [stopsElements] using othersLength
        rw [after]
        refine quiet before tree.info.stop finish isClosing ?_ (by simp)
        rw [isLast, stopsElements]
        simp
      refine ⟨marks ++ (separatorMarks separator (!trees.isEmpty || closesLater rebuilt closing) ::
        marksLater), ?_, ?_⟩
      · exact List.rel_append shows (.cons (shows_behind separated _ still) showsLater)
      · rw [pour_append (hereLength.trans shows.length_eq), pour, ← ledLater, trailElements,
          led, after, Decorated.stepsOf_separatorMarks]
        have same : rebuilts.isEmpty = trees.isEmpty := by
          cases trees <;> cases rebuilts <;> simp_all
        simp [same]

/-! ## Whole trees -/

mutual
/-- Every tree whose nodes are spelled leads through its decorations. -/
theorem treeRebuilds : ∀ tree : Positional, (∀ node ∈ tree.preorder, SpelledNode node) →
    TreeRebuilds tree
  | .node kind span slots, spelled => by
      rw [SlotTree.preorder] at spelled
      obtain ⟨⟨tokens, content, -⟩, below⟩ := List.forall_mem_cons.mp spelled
      exact treeRebuilds_node (slotsRebuild (standardShape kind).anchors slots
        (Nat.le_of_eq content.fits.1.symm) content.punctuated below)

theorem slotsRebuild : ∀ (shapes : List AnchorShape) (slots : List PositionalSlot),
    slots.length ≤ shapes.length →
    (∀ pair ∈ shapes.zip slots, Punctuated pair.1.slot pair.2) →
    (∀ node ∈ SlotTree.preorderSlots slots, SpelledNode node) → SlotsRebuild shapes slots
  | shapes, [], _, _, _ => slotsRebuild_nil shapes
  | [], slot :: slots, enough, _, _ => by simp at enough
  | shape :: shapes, .token none :: slots, enough, punctuated, spelled =>
      slotsRebuild_cons (slotRebuilds_absent (.inl rfl))
        (slotsRebuild shapes slots (by simpa using enough)
          (List.forall_mem_cons.mp punctuated).2 spelled)
  | shape :: shapes, .token (some lexeme) :: slots, enough, punctuated, spelled =>
      slotsRebuild_cons (slotRebuilds_token shape lexeme)
        (slotsRebuild shapes slots (by simpa using enough)
          (List.forall_mem_cons.mp punctuated).2 spelled)
  | shape :: shapes, .child none :: slots, enough, punctuated, spelled =>
      slotsRebuild_cons (slotRebuilds_absent (.inr rfl))
        (slotsRebuild shapes slots (by simpa using enough)
          (List.forall_mem_cons.mp punctuated).2 spelled)
  | shape :: shapes, .child (some child) :: slots, enough, punctuated, spelled => by
      obtain ⟨first, below⟩ := List.forall_mem_append.mp spelled
      exact slotsRebuild_cons (slotRebuilds_child (treeRebuilds child first))
        (slotsRebuild shapes slots (by simpa using enough)
          (List.forall_mem_cons.mp punctuated).2 below)
  | shape :: shapes, .list elements separators :: slots, enough, punctuated, spelled => by
      obtain ⟨first, below⟩ := List.forall_mem_append.mp spelled
      obtain ⟨separated, punctuated⟩ := List.forall_mem_cons.mp punctuated
      exact slotsRebuild_cons (slotRebuilds_list (elementsRebuild shape.slot.separator? separators
          elements separated first))
        (slotsRebuild shapes slots (by simpa using enough) punctuated below)

theorem elementsRebuild (separator : Option String) : ∀ (separators : List Span)
    (trees : List Positional), Separated separator trees.length separators →
    (∀ node ∈ SlotTree.preorderElements trees, SpelledNode node) →
    ElementsRebuild separator separators trees
  | separators, [], _, _ => elementsRebuild_nil separator separators
  | separators, tree :: trees, separated, spelled => by
      obtain ⟨first, below⟩ := List.forall_mem_append.mp spelled
      exact elementsRebuild_cons separated (treeRebuilds tree first)
        (elementsRebuild separator (separators.drop 1) trees separated.tail below)
end

/-- **Rebuilt trees.** The trail of a rebuilt tree is its decorations poured around what stands
at its stops. -/
theorem fullTrail_rebuild {root : Positional} {decorations : List Decoration}
    (spelled : ∀ node ∈ root.preorder, SpelledNode node)
    (lengths : decorations.length = (stops .place root).length)
    (hushed : ((stops .place root).zip decorations).IsChain Hushed) :
    ∃ marks, List.Forall₂ Shows (inner root) marks ∧
      Decorated.fullTrail .standard (Decorate.rebuild .standard root decorations).1 =
        pour decorations (marks ++ [[]]) := by
  rw [stops_eq_inner] at lengths hushed
  obtain ⟨ds, last, rfl, length, one⟩ := exists_append_of_length lengths
  obtain ⟨final, rfl⟩ := List.length_eq_one_iff.mp one
  rw [List.zip_append length.symm] at hushed
  obtain ⟨rebuilt, marks, built, shows, led, after⟩ :=
    treeRebuilds root spelled ds final [] length hushed.left_of_append
  refine ⟨marks, shows, ?_⟩
  rw [built, Decorated.fullTrail, led, after, pour_append (length.trans shows.length_eq)]
  simp [pour]

end GoTrivia
