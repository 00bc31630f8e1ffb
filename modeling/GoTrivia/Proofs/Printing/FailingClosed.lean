import GoTrivia.Proofs.Printing.Linear
import GoTrivia.Proofs.Restoring.Checking
import GoTrivia.RoundTrip

/-!
# Which trees are refused

A decorated tree may be edited into anything.  It is restored exactly if every node fits its
shape in full, and otherwise refused for the first thing that is wrong with the first node that
does not fit.  Printing asks for no more than restoring: what is refused is the same, for the
same reason, and a restored tree is always printed.
-/

set_option autoImplicit false

namespace GoTrivia

open Restore

variable {registry : Registry}

theorem printWith_of_refused {tree : DecoratedTree} {error : TreeError}
    (refused : (tree.restore registry).result = .error error) :
    tree.printWith registry = .error error := by
  unfold DecoratedTree.printWith
  rw [refused]
  rfl

/-- A restored tree is printed. -/
theorem exists_printWith {tree : DecoratedTree} {restored : Restored}
    (accepted : (tree.restore registry).result = .ok restored) :
    ∃ text, restored.root.print registry restored.comments = .ok text ∧
      tree.printWith registry = .ok text := by
  obtain ⟨faultless, rfl⟩ := restore_eq_ok_iff.mp accepted
  obtain ⟨marks, written, -⟩ := exists_marks faultless
  have printed : (tree.place registry).root.print registry (tree.place registry).comments =
      .ok (Print.finish marks) := by
    rw [Positional.print, written]
    rfl
  refine ⟨Print.finish marks, printed, ?_⟩
  unfold DecoratedTree.printWith
  rw [accepted]
  exact printed

/-- **Failing closed.** A tree is restored exactly if all its nodes fit their shapes.  If not, it
is refused for the first of them that does not fit, by the first of its anchors.  A tree is
printed unless it is refused: what is restored the printer never rejects. -/
theorem restore_iff_fits (registry : Registry) (tree : DecoratedTree) :
    ((∃ restored, (tree.restore registry).result = .ok restored) ↔
      ∀ node ∈ tree.root.preorder, SlotTree.Fits registry node) ∧
    (∀ error, (tree.restore registry).result = .error error ↔
      SlotTree.FirstOf (SlotTree.Fits registry) (SlotTree.Misfits registry) tree.root.preorder
        error) ∧
    (∀ error, tree.printWith registry = .error error ↔
      (tree.restore registry).result = .error error) ∧
    ∀ restored, (tree.restore registry).result = .ok restored →
      ∃ text, restored.root.print registry restored.comments = .ok text ∧
        tree.printWith registry = .ok text := by
  refine ⟨?_, fun error => ?_, fun error => ⟨fun failed => ?_, printWith_of_refused⟩,
    fun restored accepted => exists_printWith accepted⟩
  · simp only [result_restore, SlotTree.unlessFault_eq_ok_iff fun _ => SlotTree.fault?_eq_none_iff,
      exists_and_left, exists_eq, and_true]
  · rw [result_restore]
    exact SlotTree.unlessFault_eq_error_iff (fun _ => SlotTree.fault?_eq_none_iff)
      fun _ _ => SlotTree.fault?_eq_some_iff
  · cases accepted : (tree.restore registry).result with
    | error found =>
      cases (printWith_of_refused accepted).symm.trans failed
      rfl
    | ok restored =>
      obtain ⟨text, -, printed⟩ := exists_printWith accepted
      cases printed.symm.trans failed

/-- A call of a call whose inner closing parenthesis is missing, and whose outer opening one is
not the prescribed one. -/
def unclosedCall : DecoratedTree where
  root := .node .callExpr .empty
    [.child (some (.node .callExpr .empty
      [.child (some (Decorated.ident "f")), .token (some "("), .list [] (), .token none, .token none])),
     .token (some "("), .list [Decorated.ident "a"] (), .token none, .token (some ")")]
  metadata := .empty

theorem restore_iff_fits_unclosedCall :
    (∃ text, DecoratedTree.printWith ⟨.call (.ident "f") [.ident "a"], .empty⟩ .standard =
      .ok text) ∧
    unclosedCall.printWith .standard = .error (.mismatch .callExpr .rparen .missing) := by
  have accepted : (DecoratedTree.restore ⟨.call (.ident "f") [.ident "a"], .empty⟩ .standard).result =
      .ok (DecoratedTree.place ⟨.call (.ident "f") [.ident "a"], .empty⟩ .standard) :=
    restore_eq_ok_iff.mpr ⟨by decide +kernel, rfl⟩
  obtain ⟨text, -, printed⟩ := (restore_iff_fits .standard _).2.2.2 _ accepted
  refine ⟨⟨text, printed⟩, ?_⟩
  refine ((restore_iff_fits .standard unclosedCall).2.2.1 _).mpr ?_
  rw [result_restore]
  have first : unclosedCall.root.preorder.findSome? (SlotTree.fault? .standard) =
      some (.mismatch .callExpr .rparen .missing) := by decide +kernel
  rw [SlotTree.unlessFault, first]

end GoTrivia
