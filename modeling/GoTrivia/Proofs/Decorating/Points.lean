import GoTrivia.Proofs.Decorating.Respanning

/-!
# The points of a decorated tree

The points of a decorated tree are its decorations in the order of the walk: that of a
node's start, those of its anchors in shape order with each child in front of the anchor
that holds it, and that of its finish.

**Building up.** The decorations that are handed out when a tree is built up are its points,
each taken by the next anchor in line and none left out.  This needs anchors to be told
apart: no shape may list an anchor twice or list one that every node has.
-/

set_option autoImplicit false

namespace GoTrivia

/-- Shapes that list pairwise different anchors, and none that every node has. -/
def Registry.Distinct (registry : Registry) : Prop :=
  ∀ kind shape, registry.shape? kind = some shape →
    (shape.anchors.map AnchorShape.anchor).Nodup ∧
      ∀ anchor ∈ shape.anchors, anchor.anchor.isImplicit = false

/-- No anchor stands twice in a shape. -/
theorem nodup_anchors (kind : NodeKind) :
    ((standardShape kind).anchors.map AnchorShape.anchor).Nodup := by
  cases kind <;> decide

theorem not_isImplicit_of_mem {kind : NodeKind} {shape : AnchorShape}
    (mem : shape ∈ (standardShape kind).anchors) : shape.anchor.isImplicit = false := by
  have all := not_isImplicit_standardShape
  rw [List.all_eq_true] at all
  have each := all kind (by cases kind <;> decide)
  rw [List.all_eq_true] at each
  simpa using each shape mem

theorem Registry.distinct_standard : Registry.standard.Distinct := by
  rintro kind shape ⟨⟩
  exact ⟨nodup_anchors kind, fun _ => not_isImplicit_of_mem⟩

/-! ## Points -/

namespace Decorated

mutual
/-- The decorations of a tree in walk order. -/
def points (registry : Registry) : Decorated → List Decoration
  | .node kind decorations slots =>
    decorations.ofAnchor .start ::
      (pointsSlots registry decorations (registry.anchorsOf kind) slots ++
        [decorations.ofAnchor .finish])

/-- The decorations of the slots of a node. -/
def pointsSlots (registry : Registry) (decorations : Decorations) (shapes : List AnchorShape) :
    List DecoratedSlot → List Decoration
  | [] => []
  | slot :: slots =>
    match shapes with
    | [] => []
    | shape :: shapes =>
      pointsSlot registry decorations shape.anchor slot ++
        pointsSlots registry decorations shapes slots

/-- The decorations of one slot. -/
def pointsSlot (registry : Registry) (decorations : Decorations) (anchor : Anchor) :
    DecoratedSlot → List Decoration
  | .token none => []
  | .token (some _) => [decorations.ofAnchor anchor]
  | .child none => []
  | .child (some child) => points registry child ++ [decorations.ofAnchor anchor]
  | .list elements _ => pointsElements registry elements

/-- The decorations of list elements. -/
def pointsElements (registry : Registry) : List Decorated → List Decoration
  | [] => []
  | tree :: trees => points registry tree ++ pointsElements registry trees
end

end Decorated

/-! ## Attaching decorations -/

namespace Decorate

theorem get?_attach_of_ne {decorations : Decorations} {anchor other : Anchor}
    (supply : List Decoration) (different : other ≠ anchor) :
    (attach decorations anchor supply).1.get? other = decorations.get? other := by
  cases supply with
  | nil => rfl
  | cons next rest =>
    simp only [attach]
    split
    · rfl
    · rw [OrderedMap.get?_insert, if_neg (Ne.symm different)]

theorem ofAnchor_attach {decorations : Decorations} {anchor : Anchor} {decoration : Decoration}
    {rest : List Decoration} (fresh : decorations.get? anchor = none) :
    (attach decorations anchor (decoration :: rest)).1.ofAnchor anchor = decoration := by
  simp only [attach]
  split
  · next empty =>
    obtain ⟨before, after⟩ := decoration
    simp only [Decoration.isEmpty, Bool.and_eq_true, List.isEmpty_iff] at empty
    obtain ⟨rfl, rfl⟩ := empty
    simp [Decorations.ofAnchor, fresh, Decoration.empty]
  · simp [Decorations.ofAnchor, OrderedMap.get?_insert]

@[simp]
theorem attach_cons_snd (decorations : Decorations) (anchor : Anchor) (decoration : Decoration)
    (rest : List Decoration) : (attach decorations anchor (decoration :: rest)).2 = rest := rfl

end Decorate

/-- A list as long as two others together is cut where the first of them ends. -/
theorem exists_append_of_length {α β : Type} {all : List α} {front back : List β}
    (lengths : all.length = (front ++ back).length) :
    ∃ first second, all = first ++ second ∧ first.length = front.length ∧
      second.length = back.length := by
  rw [List.length_append] at lengths
  refine ⟨all.take front.length, all.drop front.length, (List.take_append_drop _ _).symm, ?_, ?_⟩
  · rw [List.length_take]
    omega
  · rw [List.length_drop]
    omega

/-! ## Building up -/

open Decorated Positional
open Decorate (attach rebuild rebuildSlots rebuildSlot rebuildElements Kinded)

/-- The fragments of a tree that are points. -/
def pointFragments (fragments : List Fragment) : List Fragment := fragments.filter Fragment.isPoint

@[simp]
theorem pointFragments_append (front back : List Fragment) :
    pointFragments (front ++ back) = pointFragments front ++ pointFragments back :=
  List.filter_append _ _

@[simp]
theorem pointFragments_cons_point (span : Span) (rest : List Fragment) :
    pointFragments (.point span :: rest) = .point span :: pointFragments rest := rfl

@[simp]
theorem pointFragments_cons_separator (span : Span) (rest : List Fragment) :
    pointFragments (.separator span :: rest) = pointFragments rest := rfl

@[simp]
theorem pointFragments_nil : pointFragments [] = [] := rfl

@[simp]
theorem pointFragments_separators (separator : Option Span) :
    pointFragments (separator.map Fragment.separator).toList = [] := by
  cases separator <;> rfl

variable {registry : Registry}

/-- A tree takes as many decorations as it has points, and they become its points. -/
def TreeTakes (registry : Registry) (tree : Positional) : Prop :=
  ∀ ds rest : List Decoration, ds.length = (pointFragments tree.fragments).length →
    ∃ rebuilt, rebuild registry tree (ds ++ rest) = (rebuilt, rest) ∧ points registry rebuilt = ds

/-- List elements take as many decorations as they have points. -/
def ElementsTake (registry : Registry) (separators : List Span) (trees : List Positional) : Prop :=
  ∀ ds rest : List Decoration,
    ds.length = (pointFragments (fragmentsElements separators trees)).length →
    ∃ rebuilt, rebuildElements registry trees (ds ++ rest) = (rebuilt, rest) ∧
      pointsElements registry rebuilt = ds

/-- A slot takes as many decorations as it has points.  Its anchor keeps the one it was
given as long as the decorations of the node do. -/
def SlotTakes (registry : Registry) (anchor : Anchor) (slot : PositionalSlot) : Prop :=
  ∀ (decorations : Decorations) (ds rest : List Decoration),
    ds.length = (pointFragments (fragmentsSlots [slot])).length →
    decorations.get? anchor = none →
    ∃ slot' decorations', rebuildSlot registry anchor slot decorations (ds ++ rest) =
        (slot', decorations', rest) ∧
      (∀ other, other ≠ anchor → decorations'.get? other = decorations.get? other) ∧
      ∀ final : Decorations, final.ofAnchor anchor = decorations'.ofAnchor anchor →
        pointsSlot registry final anchor slot' = ds

/-- Slots take as many decorations as they have points. -/
def SlotsTake (registry : Registry) (shapes : List AnchorShape) (slots : List PositionalSlot) :
    Prop :=
  ∀ (decorations : Decorations) (ds rest : List Decoration),
    ds.length = (pointFragments (fragmentsSlots slots)).length →
    (∀ shape ∈ shapes, decorations.get? shape.anchor = none) →
    (shapes.map AnchorShape.anchor).Nodup →
    ∃ slots' decorations', rebuildSlots registry shapes slots decorations (ds ++ rest) =
        (slots', decorations', rest) ∧
      (∀ other, other ∉ shapes.map AnchorShape.anchor →
        decorations'.get? other = decorations.get? other) ∧
      ∀ final : Decorations,
        (∀ shape ∈ shapes, final.ofAnchor shape.anchor = decorations'.ofAnchor shape.anchor) →
        pointsSlots registry final shapes slots' = ds

theorem ofAnchor_congr {left right : Decorations} {anchor : Anchor}
    (same : left.get? anchor = right.get? anchor) : left.ofAnchor anchor = right.ofAnchor anchor := by
  rw [Decorations.ofAnchor, Decorations.ofAnchor, same]

theorem anchorsOf_distinct (distinct : registry.Distinct) (kind : NodeKind) :
    ((registry.anchorsOf kind).map AnchorShape.anchor).Nodup ∧
      ∀ anchor : Anchor, anchor.isImplicit = true →
        anchor ∉ (registry.anchorsOf kind).map AnchorShape.anchor := by
  unfold Registry.anchorsOf
  cases known : registry.shape? kind with
  | none => simp
  | some shape =>
    obtain ⟨nodup, explicit⟩ := distinct kind shape known
    refine ⟨nodup, fun anchor isImplicit mem => ?_⟩
    obtain ⟨other, found, rfl⟩ := List.mem_map.mp mem
    simp [explicit other found] at isImplicit

theorem treeTakes_node (distinct : registry.Distinct) {kind : NodeKind} {span : Span}
    {slots : List PositionalSlot} (inside : SlotsTake registry (registry.anchorsOf kind) slots) :
    TreeTakes registry (.node kind span slots) := by
  intro ds rest lengths
  obtain ⟨nodup, implicit⟩ := anchorsOf_distinct distinct kind
  rw [fragments, pointFragments_cons_point, pointFragments_append] at lengths
  cases ds with
  | nil => simp at lengths
  | cons first ds =>
    obtain ⟨ds, last, rfl, length, one⟩ := exists_append_of_length (Nat.succ.inj lengths)
    obtain ⟨final, rfl⟩ := List.length_eq_one_iff.mp one
    let opened := (attach .empty .start (first :: ds ++ [final] ++ rest)).1
    have fresh : ∀ shape ∈ registry.anchorsOf kind, opened.get? shape.anchor = none := by
      intro shape mem
      refine (Decorate.get?_attach_of_ne _ ?_).trans (OrderedMap.get?_empty _)
      exact fun same => implicit .start rfl (same ▸ List.mem_map_of_mem mem)
    obtain ⟨slots', decorations', rebuilt, others, points⟩ :=
      inside opened ds (final :: rest) length fresh nodup
    let closed := (attach decorations' .finish (final :: rest)).1
    have start : closed.ofAnchor .start = first := by
      have kept : closed.get? .start = opened.get? .start :=
        (Decorate.get?_attach_of_ne _ (by decide)).trans (others .start (implicit .start rfl))
      exact (ofAnchor_congr kept).trans (Decorate.ofAnchor_attach (OrderedMap.get?_empty _))
    have finish : closed.ofAnchor .finish = final := by
      refine Decorate.ofAnchor_attach ((others .finish (implicit .finish rfl)).trans ?_)
      exact (Decorate.get?_attach_of_ne _ (by decide)).trans (OrderedMap.get?_empty _)
    have between : ∀ shape ∈ registry.anchorsOf kind,
        closed.ofAnchor shape.anchor = decorations'.ofAnchor shape.anchor := by
      intro shape mem
      refine ofAnchor_congr (Decorate.get?_attach_of_ne _ fun same => ?_)
      exact implicit .finish rfl (same ▸ List.mem_map_of_mem mem)
    refine ⟨.node kind closed slots', ?_, ?_⟩
    · have step : rebuild registry (.node kind span slots) (first :: (ds ++ [final]) ++ rest) =
          (fun result => (SlotTree.node kind (attach result.2.1 .finish result.2.2).1 result.1,
            (attach result.2.1 .finish result.2.2).2))
          (rebuildSlots registry (registry.anchorsOf kind) slots opened (ds ++ final :: rest)) := by
        unfold rebuild
        simp only [List.cons_append, List.append_assoc, List.nil_append, opened]
        rfl
      rw [step, rebuilt]
      rfl
    · rw [Decorated.points, start, finish, points closed between]

theorem fragmentsSlots_cons (slot : PositionalSlot) (slots : List PositionalSlot) :
    fragmentsSlots (slot :: slots) = fragmentsSlots [slot] ++ fragmentsSlots slots := by
  cases slot with
  | token content => cases content <;> simp [fragmentsSlots]
  | child content => cases content <;> simp [fragmentsSlots]
  | list elements separators => simp [fragmentsSlots]

theorem slotsTake_nil (shapes : List AnchorShape) : SlotsTake registry shapes [] := by
  intro decorations ds rest lengths _ _
  obtain rfl := List.length_eq_zero_iff.mp lengths
  exact ⟨[], decorations, by unfold rebuildSlots; rfl, fun _ _ => rfl,
    fun final _ => by rw [pointsSlots]⟩

theorem slotsTake_cons {shape : AnchorShape} {shapes : List AnchorShape} {slot : PositionalSlot}
    {slots : List PositionalSlot} (first : SlotTakes registry shape.anchor slot)
    (behind : SlotsTake registry shapes slots) :
    SlotsTake registry (shape :: shapes) (slot :: slots) := by
  intro decorations ds rest lengths fresh distinct
  rw [fragmentsSlots_cons, pointFragments_append] at lengths
  obtain ⟨here, later, rfl, hereLength, laterLength⟩ := exists_append_of_length lengths
  obtain ⟨freshHere, freshLater⟩ := List.forall_mem_cons.mp fresh
  obtain ⟨notLater, distinct⟩ := List.nodup_cons.mp distinct
  obtain ⟨slot', middle, rebuilt, others, points⟩ :=
    first decorations here (later ++ rest) hereLength freshHere
  obtain ⟨slots', decorations', rebuilt', others', points'⟩ :=
    behind middle later rest laterLength (by
      intro other mem
      rw [others other.anchor fun same => notLater (same ▸ List.mem_map_of_mem mem)]
      exact freshLater other mem) distinct
  refine ⟨slot' :: slots', decorations', ?_, ?_, ?_⟩
  · rw [List.append_assoc]
    unfold rebuildSlots
    simp only [rebuilt, rebuilt']
  · intro other absent
    simp only [List.map_cons, List.mem_cons, not_or] at absent
    rw [others' other absent.2, others other absent.1]
  · intro final agrees
    obtain ⟨agreesHere, agreesLater⟩ := List.forall_mem_cons.mp agrees
    have kept : final.ofAnchor shape.anchor = middle.ofAnchor shape.anchor :=
      agreesHere.trans (ofAnchor_congr (others' _ notLater))
    rw [pointsSlots, points final kept, points' final agreesLater]

theorem slotTakes_absent {anchor : Anchor} {slot : PositionalSlot}
    (absent : slot = .token none ∨ slot = .child none) : SlotTakes registry anchor slot := by
  intro decorations ds rest lengths _
  obtain rfl : ds = [] := by
    refine List.length_eq_zero_iff.mp (lengths.trans ?_)
    rcases absent with rfl | rfl <;> rfl
  rcases absent with rfl | rfl
  · exact ⟨.token none, decorations, by simp [rebuildSlot], fun _ _ => rfl,
      fun final _ => by rw [pointsSlot]⟩
  · exact ⟨.child none, decorations, by simp [rebuildSlot], fun _ _ => rfl,
      fun final _ => by rw [pointsSlot]⟩

theorem slotTakes_token (anchor : Anchor) (lexeme : Lexeme) :
    SlotTakes registry anchor (.token (some lexeme)) := by
  intro decorations ds rest lengths fresh
  obtain ⟨decoration, rfl⟩ := List.length_eq_one_iff.mp lengths
  refine ⟨.token (some lexeme.text), (attach decorations anchor (decoration :: rest)).1,
    by simp [rebuildSlot], fun other different => Decorate.get?_attach_of_ne _ different,
    fun final kept => ?_⟩
  rw [pointsSlot, kept, Decorate.ofAnchor_attach fresh]

theorem slotTakes_child {anchor : Anchor} {child : Positional} (inside : TreeTakes registry child) :
    SlotTakes registry anchor (.child (some child)) := by
  intro decorations ds rest lengths fresh
  have split : pointFragments (fragmentsSlots [.child (some child)]) =
      pointFragments child.fragments ++ [.point (.point (span child).stop)] := by
    simp [fragmentsSlots]
  rw [split] at lengths
  obtain ⟨ds, last, rfl, length, one⟩ := exists_append_of_length lengths
  obtain ⟨decoration, rfl⟩ := List.length_eq_one_iff.mp one
  obtain ⟨rebuilt, built, points⟩ := inside ds (decoration :: rest) length
  refine ⟨.child (some rebuilt), (attach decorations anchor (decoration :: rest)).1, ?_,
    fun other different => Decorate.get?_attach_of_ne _ different, fun final kept => ?_⟩
  · rw [List.append_assoc]
    simp [rebuildSlot, built]
  · rw [pointsSlot, points, kept, Decorate.ofAnchor_attach fresh]

theorem slotTakes_list {anchor : Anchor} {elements : List Positional} {separators : List Span}
    (inside : ElementsTake registry separators elements) :
    SlotTakes registry anchor (.list elements separators) := by
  intro decorations ds rest lengths _
  obtain ⟨rebuilt, built, points⟩ := inside ds rest (by simpa [fragmentsSlots] using lengths)
  refine ⟨.list rebuilt (), decorations, ?_, fun _ _ => rfl, fun final _ => ?_⟩
  · simp [rebuildSlot, built]
  · rw [pointsSlot, points]

theorem elementsTake_cons {separators : List Span} {tree : Positional} {trees : List Positional}
    (first : TreeTakes registry tree) (behind : ElementsTake registry (separators.drop 1) trees) :
    ElementsTake registry separators (tree :: trees) := by
  intro ds rest lengths
  have split : pointFragments (fragmentsElements separators (tree :: trees)) =
      pointFragments tree.fragments ++
        pointFragments (fragmentsElements (separators.drop 1) trees) := by
    simp [fragmentsElements]
  rw [split] at lengths
  obtain ⟨here, later, rfl, hereLength, laterLength⟩ := exists_append_of_length lengths
  obtain ⟨rebuilt, built, points⟩ := first here (later ++ rest) hereLength
  obtain ⟨rebuilts, builts, pointsLater⟩ := behind later rest laterLength
  refine ⟨rebuilt :: rebuilts, ?_, ?_⟩
  · rw [List.append_assoc]
    simp [rebuildElements, built, builts]
  · rw [pointsElements, points, pointsLater]

mutual
/-- **Points.** The decorations a tree is built up with become its points. -/
theorem treeTakes (distinct : registry.Distinct) : ∀ tree : Positional,
    Kinded registry tree.preorder → TreeTakes registry tree
  | .node kind span slots, kinded => by
      rw [SlotTree.preorder] at kinded
      obtain ⟨here, below⟩ := List.forall_mem_cons.mp kinded
      exact treeTakes_node distinct (slotsTake distinct (registry.anchorsOf kind) slots
        (Nat.le_of_eq (Decorate.length_of_kindFault? here).symm) below)

theorem slotsTake (distinct : registry.Distinct) :
    ∀ (shapes : List AnchorShape) (slots : List PositionalSlot), slots.length ≤ shapes.length →
      Kinded registry (SlotTree.preorderSlots slots) → SlotsTake registry shapes slots
  | shapes, [], _, _ => slotsTake_nil shapes
  | [], slot :: slots, enough, _ => by simp at enough
  | shape :: shapes, .token none :: slots, enough, kinded =>
      slotsTake_cons (slotTakes_absent (.inl rfl))
        (slotsTake distinct shapes slots (by simpa using enough) kinded)
  | shape :: shapes, .token (some lexeme) :: slots, enough, kinded =>
      slotsTake_cons (slotTakes_token shape.anchor lexeme)
        (slotsTake distinct shapes slots (by simpa using enough) kinded)
  | shape :: shapes, .child none :: slots, enough, kinded =>
      slotsTake_cons (slotTakes_absent (.inr rfl))
        (slotsTake distinct shapes slots (by simpa using enough) kinded)
  | shape :: shapes, .child (some child) :: slots, enough, kinded => by
      obtain ⟨first, below⟩ := List.forall_mem_append.mp kinded
      exact slotsTake_cons (slotTakes_child (treeTakes distinct child first))
        (slotsTake distinct shapes slots (by simpa using enough) below)
  | shape :: shapes, .list elements separators :: slots, enough, kinded => by
      obtain ⟨first, below⟩ := List.forall_mem_append.mp kinded
      exact slotsTake_cons (slotTakes_list (elementsTake distinct separators elements first))
        (slotsTake distinct shapes slots (by simpa using enough) below)

theorem elementsTake (distinct : registry.Distinct) :
    ∀ (separators : List Span) (trees : List Positional),
      Kinded registry (SlotTree.preorderElements trees) → ElementsTake registry separators trees
  | _, [], _ => fun ds rest lengths => by
      obtain rfl := List.length_eq_zero_iff.mp lengths
      exact ⟨[], by simp [rebuildElements], by rw [pointsElements]⟩
  | separators, tree :: trees, kinded => by
      obtain ⟨first, below⟩ := List.forall_mem_append.mp kinded
      exact elementsTake_cons (treeTakes distinct tree first)
        (elementsTake distinct (separators.drop 1) trees below)
end

/-- When decorating succeeds, and with what. -/
theorem decorate_eq_ok {source : SourceTree} {resolver : LineResolver} {tree : DecoratedTree} :
    (source.decorate registry resolver).result = .ok tree ↔
      Kinded registry source.root.preorder ∧ ∃ assignments,
        (CommentGap.assignAll resolver
          (CommentGap.ofFragments none (source.resolved resolver).fragments
            source.comments)).result = .ok assignments ∧
        tree = ⟨(rebuild registry source.root (CommentGap.decorations none assignments)).1,
          source.metadata⟩ := by
  have kinded : Kinded registry source.root.preorder ↔
      source.root.preorder.findSome? (SlotTree.kindFault? registry) = none := by
    rw [List.findSome?_eq_none_iff]
    rfl
  rw [kinded, SourceTree.decorate]
  cases source.root.preorder.findSome? (SlotTree.kindFault? registry) with
  | some error => simp
  | none =>
    show Except.map _ _ = _ ↔ _
    cases (CommentGap.assignAll resolver (CommentGap.ofFragments none
      (source.resolved resolver).fragments source.comments)).result with
    | error error => simp [Except.map]
    | ok assignments => simp [Except.map, eq_comm]

theorem decorate_eq_ok_of_eq {source : SourceTree} {resolver : LineResolver}
    {tree : DecoratedTree} (stands : resolver.resolve = Positional.span) :
    (source.decorate registry resolver).result = .ok tree ↔
      Kinded registry source.root.preorder ∧ ∃ assignments,
        (CommentGap.assignAll resolver
          (CommentGap.ofFragments none source.root.fragments source.comments)).result =
            .ok assignments ∧
        tree = ⟨(rebuild registry source.root (CommentGap.decorations none assignments)).1,
          source.metadata⟩ := by
  rw [decorate_eq_ok, SourceTree.resolved_of_eq stands]

/-- The points of a decorated tree are the decorations it was built up with. -/
theorem points_rebuild (distinct : registry.Distinct) {root : Positional}
    {decorations : List Decoration} (kinded : Kinded registry root.preorder)
    (enough : decorations.length = (pointFragments root.fragments).length) :
    (rebuild registry root decorations).1.points registry = decorations := by
  obtain ⟨rebuilt, built, points⟩ := treeTakes distinct root kinded decorations [] enough
  rw [List.append_nil] at built
  rw [built, points]

end GoTrivia
