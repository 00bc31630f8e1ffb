import GoTrivia.Decorate.Fragment
import GoTrivia.Proofs.Grammar.Abreast
import GoTrivia.Proofs.Tree.Erasing

/-!
# Trees that agree but for where they stand

Such trees have slots of the right kinds, and laid out flat they agree point by point.  If
offsets only stand for themselves the trees are the same, and then the relation says no more
than that the slots are of the right kinds.
-/

set_option autoImplicit false

namespace GoTrivia

namespace Grammar.Pairing

variable {pairing : Pairing}

/-- Fragments that agree but for where they stand. -/
inductive Fragments (pairing : Pairing) : Fragment → Fragment → Prop
  | point {span span' : Span} : pairing.Spans span span' →
      Fragments pairing (.point span) (.point span')
  | separator {span span' : Span} : pairing.Spans span span' →
      Fragments pairing (.separator span) (.separator span')

theorem Fragments.spans {fragment fragment' : Fragment}
    (fragments : pairing.Fragments fragment fragment') :
    pairing.Spans fragment.span fragment'.span := by
  cases fragments with
  | point spans => exact spans
  | separator spans => exact spans

/-! ## Laid out flat -/

mutual
theorem Trees.fragments {tree tree' : Positional} (trees : pairing.Trees tree tree') :
    List.Forall₂ pairing.Fragments tree.fragments tree'.fragments := by
  cases trees with
  | node spans slots =>
    rw [Positional.fragments, Positional.fragments]
    exact .cons (.point ⟨spans.1, spans.1⟩) (List.rel_append slots.fragments
      (.cons (.point ⟨spans.2, spans.2⟩) .nil))

theorem SlotLists.fragments {sorts : List SlotSort} {slots slots' : List PositionalSlot}
    (lists : pairing.SlotLists sorts slots slots') :
    List.Forall₂ pairing.Fragments (Positional.fragmentsSlots slots)
      (Positional.fragmentsSlots slots') := by
  cases lists with
  | nil =>
    rw [Positional.fragmentsSlots]
    exact .nil
  | cons slot rest =>
    cases slot with
    | vacant =>
      rw [Positional.fragmentsSlots, Positional.fragmentsSlots]
      exact rest.fragments
    | token lexemes =>
      rw [Positional.fragmentsSlots, Positional.fragmentsSlots]
      exact .cons (.point lexemes.spans) rest.fragments
    | childless =>
      rw [Positional.fragmentsSlots, Positional.fragmentsSlots]
      exact rest.fragments
    | child tree =>
      rw [Positional.fragmentsSlots, Positional.fragmentsSlots]
      exact List.rel_append tree.fragments
        (.cons (.point ⟨tree.spans.2, tree.spans.2⟩) rest.fragments)
    | list trees separators =>
      rw [Positional.fragmentsSlots, Positional.fragmentsSlots]
      exact List.rel_append (trees.fragments separators) rest.fragments

theorem TreeLists.fragments {trees trees' : List Positional} {separators separators' : List Span}
    (lists : pairing.TreeLists trees trees')
    (spans : List.Forall₂ pairing.Spans separators separators') :
    List.Forall₂ pairing.Fragments (Positional.fragmentsElements separators trees)
      (Positional.fragmentsElements separators' trees') := by
  cases lists with
  | nil =>
    rw [Positional.fragmentsElements]
    exact .nil
  | cons tree rest =>
    rw [Positional.fragmentsElements, Positional.fragmentsElements]
    cases spans with
    | nil => exact List.rel_append (List.rel_append tree.fragments .nil) (rest.fragments .nil)
    | cons span others =>
      exact List.rel_append (List.rel_append tree.fragments (.cons (.separator span) .nil))
        (rest.fragments others)
end

/-! ## Slots of the right kinds -/

theorem Slots.fits {slot slot' : PositionalSlot} {shape : SlotShape}
    (slots : pairing.Slots (sortOf shape) slot slot') : slot.fits shape = true := by
  cases shape <;> cases slots <;> rfl

theorem SlotLists.fits {shapes : List AnchorShape} {slots slots' : List PositionalSlot}
    (lists : pairing.SlotLists (shapes.map fun shape => sortOf shape.slot) slots slots') :
    shapes.length = slots.length ∧
      ∀ pair ∈ shapes.zip slots, pair.2.fits pair.1.slot = true := by
  induction shapes generalizing slots slots' with
  | nil =>
    cases lists
    simp
  | cons shape shapes ih =>
    cases lists with
    | cons slot rest =>
      obtain ⟨lengths, fit⟩ := ih rest
      simp only [List.length_cons, lengths, List.zip_cons_cons, List.mem_cons, forall_eq_or_imp,
        true_and]
      exact ⟨slot.fits, fit⟩

theorem Trees.kindFault? {tree tree' : Positional} (trees : pairing.Trees tree tree') :
    SlotTree.kindFault? .standard tree = none := by
  cases trees with
  | node _ lists =>
    obtain ⟨lengths, fit⟩ := lists.fits
    simp only [SlotTree.kindFault?, SlotTree.kind, Registry.shape?_standard, SlotTree.countFault?,
      SlotTree.slots, lengths, if_true, Option.none_or, List.findSome?_eq_none_iff]
    exact fun pair mem => if_pos (fit pair mem)

mutual
theorem Trees.kinded {tree tree' : Positional} (trees : pairing.Trees tree tree') :
    Decorate.Kinded .standard tree.preorder := by
  have here := trees.kindFault?
  cases trees with
  | node _ slots =>
    rw [SlotTree.preorder]
    exact List.forall_mem_cons.mpr ⟨here, slots.kinded⟩

theorem SlotLists.kinded {sorts : List SlotSort} {slots slots' : List PositionalSlot}
    (lists : pairing.SlotLists sorts slots slots') :
    Decorate.Kinded .standard (SlotTree.preorderSlots slots) := by
  cases lists with
  | nil =>
    rw [SlotTree.preorderSlots]
    exact List.forall_mem_nil _
  | cons slot rest =>
    cases slot with
    | vacant =>
      rw [SlotTree.preorderSlots]
      exact rest.kinded
    | token _ =>
      rw [SlotTree.preorderSlots]
      exact rest.kinded
    | childless =>
      rw [SlotTree.preorderSlots]
      exact rest.kinded
    | child tree =>
      rw [SlotTree.preorderSlots]
      exact List.forall_mem_append.mpr ⟨tree.kinded, rest.kinded⟩
    | list trees _ =>
      rw [SlotTree.preorderSlots]
      exact List.forall_mem_append.mpr ⟨trees.kinded, rest.kinded⟩

theorem TreeLists.kinded {trees trees' : List Positional}
    (lists : pairing.TreeLists trees trees') :
    Decorate.Kinded .standard (SlotTree.preorderElements trees) := by
  cases lists with
  | nil =>
    rw [SlotTree.preorderElements]
    exact List.forall_mem_nil _
  | cons tree rest =>
    rw [SlotTree.preorderElements]
    exact List.forall_mem_append.mpr ⟨tree.kinded, rest.kinded⟩
end

/-- A node of the right slots has them in the order of its shape. -/
theorem fits_of_kindFault? {kind : NodeKind} {info : Span} {slots : List PositionalSlot}
    (fine : SlotTree.kindFault? .standard (.node kind info slots : Positional) = none) :
    (standardShape kind).anchors.length = slots.length ∧
      ∀ pair ∈ (standardShape kind).anchors.zip slots, pair.2.fits pair.1.slot = true := by
  have lengths := Decorate.length_of_kindFault? fine
  refine ⟨lengths, fun pair mem => ?_⟩
  simp only [SlotTree.kindFault?, SlotTree.kind, Registry.shape?_standard, Option.or_eq_none_iff,
    List.findSome?_eq_none_iff] at fine
  have holds := fine.2 pair mem
  by_contra other
  simp [other] at holds

theorem sortOf_token {shape : SlotShape} {content : Option Lexeme}
    (fit : (Slot.token content : PositionalSlot).fits shape = true) : sortOf shape = .token := by
  cases shape with
  | token _ => rfl
  | child => cases fit
  | list _ => cases fit

theorem sortOf_child {shape : SlotShape} {content : Option Positional}
    (fit : (Slot.child content : PositionalSlot).fits shape = true) : sortOf shape = .child := by
  cases shape with
  | token _ => cases fit
  | child => rfl
  | list _ => cases fit

theorem sortOf_list {shape : SlotShape} {elements : List Positional} {separators : List Span}
    (fit : (Slot.list elements separators : PositionalSlot).fits shape = true) :
    sortOf shape = .list := by
  cases shape with
  | token _ => cases fit
  | child => cases fit
  | list _ => rfl

mutual
/-- A tree with slots of the right kinds agrees with itself. -/
theorem Trees.refl (refl : ∀ a, pairing.offset a a) : ∀ tree : Positional,
    Decorate.Kinded .standard tree.preorder → pairing.Trees tree tree
  | .node kind info slots, kinded => by
      rw [SlotTree.preorder] at kinded
      obtain ⟨here, below⟩ := List.forall_mem_cons.mp kinded
      obtain ⟨lengths, fit⟩ := fits_of_kindFault? here
      exact .node ⟨refl _, refl _⟩ (SlotLists.refl refl _ slots lengths fit below)

theorem SlotLists.refl (refl : ∀ a, pairing.offset a a) : ∀ (shapes : List AnchorShape)
    (slots : List PositionalSlot), shapes.length = slots.length →
    (∀ pair ∈ shapes.zip slots, pair.2.fits pair.1.slot = true) →
    Decorate.Kinded .standard (SlotTree.preorderSlots slots) →
    pairing.SlotLists (shapes.map fun shape => sortOf shape.slot) slots slots
  | [], [], _, _, _ => .nil
  | [], _ :: _, lengths, _, _ => by simp at lengths
  | _ :: _, [], lengths, _, _ => by simp at lengths
  | shape :: shapes, .token content :: slots, lengths, fit, kinded => by
      obtain ⟨here, others⟩ := List.forall_mem_cons.mp fit
      rw [SlotTree.preorderSlots] at kinded
      rw [List.map_cons, sortOf_token here]
      refine .cons (.ofToken ?_) (SlotLists.refl refl shapes slots (by simpa using lengths) others kinded)
      cases content with
      | none => exact .none
      | some lexeme => exact .some ⟨rfl, refl _, refl _⟩
  | shape :: shapes, .child none :: slots, lengths, fit, kinded => by
      obtain ⟨here, others⟩ := List.forall_mem_cons.mp fit
      rw [SlotTree.preorderSlots] at kinded
      rw [List.map_cons, sortOf_child here]
      exact .cons .childless (SlotLists.refl refl shapes slots (by simpa using lengths) others kinded)
  | shape :: shapes, .child (some child) :: slots, lengths, fit, kinded => by
      obtain ⟨here, others⟩ := List.forall_mem_cons.mp fit
      rw [SlotTree.preorderSlots] at kinded
      obtain ⟨first, below⟩ := List.forall_mem_append.mp kinded
      rw [List.map_cons, sortOf_child here]
      exact .cons (.child (Trees.refl refl child first))
        (SlotLists.refl refl shapes slots (by simpa using lengths) others below)
  | shape :: shapes, .list elements separators :: slots, lengths, fit, kinded => by
      obtain ⟨here, others⟩ := List.forall_mem_cons.mp fit
      rw [SlotTree.preorderSlots] at kinded
      obtain ⟨first, below⟩ := List.forall_mem_append.mp kinded
      rw [List.map_cons, sortOf_list here]
      exact .cons (.list (TreeLists.refl refl elements first)
          (List.forall₂_same.mpr fun _ _ => ⟨refl _, refl _⟩))
        (SlotLists.refl refl shapes slots (by simpa using lengths) others below)

theorem TreeLists.refl (refl : ∀ a, pairing.offset a a) : ∀ trees : List Positional,
    Decorate.Kinded .standard (SlotTree.preorderElements trees) → pairing.TreeLists trees trees
  | [], _ => .nil
  | tree :: trees, kinded => by
      rw [SlotTree.preorderElements] at kinded
      obtain ⟨first, rest⟩ := List.forall_mem_append.mp kinded
      exact .cons (Trees.refl refl tree first) (TreeLists.refl refl trees rest)
end

end Grammar.Pairing

/-! ## Offsets that stand for themselves only -/

/-- Lists that agree element by element under a relation within equality are equal. -/
theorem eq_of_forall₂ {α : Type} {relation : α → α → Prop} {list list' : List α}
    (within : ∀ {a b}, relation a b → a = b) (related : List.Forall₂ relation list list') :
    list = list' := by
  rw [← List.forall₂_eq_eq_eq]
  exact related.imp fun _ _ => within

namespace Grammar.Pairing

variable {pairing : Pairing}

/-- Offsets that stand for each other are the same. -/
def Rigid (pairing : Pairing) : Prop := ∀ {a b}, pairing.offset a b → a = b

theorem Spans.eq {span span' : Span} (rigid : pairing.Rigid) (spans : pairing.Spans span span') :
    span = span' := by
  obtain ⟨start, stop⟩ := spans
  cases span
  cases span'
  rw [Span.mk.injEq]
  exact ⟨rigid start, rigid stop⟩

theorem Lexemes.eq {lexeme lexeme' : Lexeme} (rigid : pairing.Rigid)
    (lexemes : pairing.Lexemes lexeme lexeme') : lexeme = lexeme' := by
  obtain ⟨text, spans⟩ := lexemes
  cases lexeme
  cases lexeme'
  rw [Lexeme.mk.injEq]
  exact ⟨text, spans.eq rigid⟩

theorem Tokens.eq {token token' : Token} (rigid : pairing.Rigid)
    (tokens : pairing.Tokens token token') : token = token' := by
  obtain ⟨lexemes, kind, -⟩ := tokens
  cases token
  cases token'
  rw [Token.mk.injEq]
  exact ⟨lexemes.eq rigid, kind⟩

theorem Reports.eq {diagnostic diagnostic' : Diagnostic} (rigid : pairing.Rigid)
    (reports : pairing.Reports diagnostic diagnostic') : diagnostic = diagnostic' := by
  obtain ⟨message, spans⟩ := reports
  cases diagnostic
  cases diagnostic'
  rw [Diagnostic.mk.injEq]
  exact ⟨message, spans.eq rigid⟩

mutual
theorem Trees.eq {tree tree' : Positional} (rigid : pairing.Rigid)
    (trees : pairing.Trees tree tree') : tree = tree' := by
  cases trees with
  | node spans slots => rw [spans.eq rigid, slots.eq rigid]

theorem SlotLists.eq {sorts : List SlotSort} {slots slots' : List PositionalSlot}
    (rigid : pairing.Rigid) (lists : pairing.SlotLists sorts slots slots') : slots = slots' := by
  cases lists with
  | nil => rfl
  | cons slot rest =>
    rw [rest.eq rigid]
    cases slot with
    | vacant => rfl
    | token lexemes => rw [lexemes.eq rigid]
    | childless => rfl
    | child tree => rw [tree.eq rigid]
    | list trees separators => rw [trees.eq rigid, eq_of_forall₂ (Spans.eq rigid) separators]

theorem TreeLists.eq {trees trees' : List Positional} (rigid : pairing.Rigid)
    (lists : pairing.TreeLists trees trees') : trees = trees' := by
  cases lists with
  | nil => rfl
  | cons tree rest => rw [tree.eq rigid, rest.eq rigid]
end

end Grammar.Pairing

end GoTrivia
