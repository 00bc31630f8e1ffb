import GoTrivia.Proofs.Decorating.AnyText
import GoTrivia.Proofs.Printing.Linear

/-!
# Which texts are printed back

A text without diagnostics is always decorated.  Its unedited tree is printed exactly if every
node fits its shape in full, and there are two things the grammar accepts that no shape does:
brackets with nothing between them that want a list there, and semicolons that were inserted
at the end of a line and fill a slot of their own.
-/

set_option autoImplicit false

namespace GoTrivia

/-- What a tree without faults is printed as. -/
theorem print_of_marks {tree : DecoratedTree} {marks : List Print.Mark}
    (faultless : Faultless .standard tree.root.preorder)
    (written : Print.marks .standard (tree.place .standard).root (tree.place .standard).comments =
      .ok marks) : print tree = .ok (Print.finish marks) := by
  refine Except.bind_eq_ok.mpr ⟨tree.place .standard, restore_eq_ok_iff.mpr ⟨faultless, rfl⟩, ?_⟩
  rw [Positional.print, written]
  rfl

/-- A decorated tree is printed exactly if none of its nodes has a fault. -/
theorem exists_print_iff {tree : DecoratedTree} :
    (∃ output, print tree = .ok output) ↔ Faultless .standard tree.root.preorder := by
  constructor
  · rintro ⟨output, printed⟩
    obtain ⟨restored, accepted, -⟩ := Except.bind_eq_ok.mp printed
    exact (restore_eq_ok_iff.mp accepted).1
  · intro faultless
    obtain ⟨marks, written, -⟩ := exists_marks faultless
    exact ⟨Print.finish marks, print_of_marks faultless written⟩

/-- Decorating a tree gives its nodes no other faults than they have without their spans. -/
theorem faultless_rebuild_iff {registry : Registry} {root : Positional}
    (kinded : Decorate.Kinded registry root.preorder) (supply : List Decoration) :
    Faultless registry (Decorate.rebuild registry root supply).1.preorder ↔
      ∀ node ∈ root.preorder, SlotTree.fault? registry (Positional.erase node) = none := by
  have same := Decorate.erase_rebuild root supply kinded
  generalize (Decorate.rebuild registry root supply).1 = rebuilt at same ⊢
  calc Faultless registry rebuilt.preorder
    _ ↔ ∀ bare ∈ rebuilt.erase.preorder, SlotTree.fault? registry bare = none := by
        rw [Decorated.erase, SlotTree.preorder_map, List.forall_mem_map]
        simp only [SlotTree.fault?_map, Faultless]
    _ ↔ ∀ bare ∈ root.erase.preorder, SlotTree.fault? registry bare = none := by rw [same]
    _ ↔ _ := by
        rw [Positional.erase, SlotTree.preorder_map, List.forall_mem_map]
        rfl

/-- **Texts printed back.** A text without diagnostics is decorated, and its tree is printed
exactly if no node has empty brackets that want a list and none has an inserted semicolon. -/
theorem print_decorate_iff (text : String) (resolver : LineResolver)
    (indexes : resolver.Indexes text) (clean : (parse text).diagnostics = []) :
    ∃ tree, decorateWith resolver text = .ok tree ∧
      ((∃ output, print tree = .ok output) ↔ ∀ node ∈ (parse text).tree.root.preorder,
        hasEmptyBrackets node.kind (node.slots.map Slot.isPresent) = false ∧
          node.slots.any isInserted = false) := by
  obtain ⟨assignments, -, decorated⟩ := exists_decorate clean
  rw [← decorateWith_eq indexes] at decorated
  have kinded := kinded_parse clean
  have spelled := spelledNode_of_mem clean
  generalize (parse text).tree = source at decorated kinded spelled ⊢
  refine ⟨_, decorated, exists_print_iff.trans ((faultless_rebuild_iff kinded _).trans ?_)⟩
  exact forall₂_congr fun node mem => (spelled node mem).fault?_iff

/-- A function with brackets for type parameters and nothing between them. -/
def emptyTypeParams : String := "package p\n\nfunc f[]() \x7b\n\x7d\n"

theorem print_emptyTypeParams :
    (parse emptyTypeParams).diagnostics = [] ∧
      ∃ tree, decorate emptyTypeParams = .ok tree ∧ ¬∃ output, print tree = .ok output := by
  have clean : (parse emptyTypeParams).diagnostics = [] := by decide +kernel
  obtain ⟨tree, decorated, printed⟩ := print_decorate_iff emptyTypeParams _ (indexes_ofText _) clean
  exact ⟨clean, tree, decorated, printed.not.mpr (by decide +kernel)⟩

/-- A conditional whose first clause ends with its line instead of a semicolon. -/
def lineEndedClause : String :=
  "package p\n\nfunc f() \x7b\n\tif x := 1\n\tx < 2 \x7b\n\t\x7d\n\x7d\n"

/-- Not every text without diagnostics is printed back. -/
theorem print_lineEndedClause :
    (parse lineEndedClause).diagnostics = [] ∧ (decorate lineEndedClause).isOk = true ∧
      (decorate lineEndedClause >>= print).isOk = false := by
  decide +kernel

end GoTrivia
