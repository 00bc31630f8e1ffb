import GoTrivia.Restore.Basic

/-!
# Which trees are restored

A tree is checked node by node before it is placed.  It is restored exactly if no node of
it has a fault, and then what is restored is the placed tree.
-/

set_option autoImplicit false

namespace GoTrivia

open Restore

variable {registry : Registry}

/-- None of these nodes has a fault. -/
abbrev Faultless (registry : Registry) (nodes : List Decorated) : Prop :=
  ∀ node ∈ nodes, SlotTree.fault? registry node = none

theorem audit_eq_ok_iff {nodes : List Decorated} :
    (audit registry nodes).result = .ok () ↔ Faultless registry nodes := by
  induction nodes with
  | nil => simp [audit, Faultless]
  | cons node nodes ih =>
    unfold audit
    cases fault : SlotTree.fault? registry node with
    | some error => simp [Faultless, fault]
    | none => simpa [Faultless, fault] using ih

/-- A tree is restored exactly if none of its nodes has a fault. -/
theorem restore_eq_ok_iff {tree : DecoratedTree} {restored : Restored} :
    (tree.restore registry).result = .ok restored ↔
      Faultless registry tree.root.preorder ∧ restored = tree.place registry := by
  rw [← audit_eq_ok_iff]
  unfold DecoratedTree.restore
  cases audited : (audit registry tree.root.preorder).result with
  | error error => simp [audited]
  | ok done => simp [audited, eq_comm]

end GoTrivia
