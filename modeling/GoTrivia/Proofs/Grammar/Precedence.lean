import GoTrivia.Proofs.Grammar.GrownNodes
import GoTrivia.Proofs.Printing.Refusing
import GoTrivia.Proofs.Restoring.Structure

/-!
# Operators and their operands

A binary expression has on its left no operator that binds looser than its own, and on its
right only operators that bind tighter.  Written in a row, operands and operators then
determine how they are grouped: the operator at the root is the last one of those that bind
loosest.  So no parentheses are needed around operands, and the printer writes none.
-/

set_option autoImplicit false

namespace GoTrivia

open Grammar (operatorPrecedence? leastAt tightest childSlot tokenSlot)
open Print (Mark)

/-! ## Operations in a row -/

namespace SlotTree

variable {ν τ σ ν' τ' σ' : Type}

/-- The operands of a binary expression with the operators between them, in the order in which
they are written.  Any other tree is an operand. -/
def flat : SlotTree ν τ σ → List (τ ⊕ SlotTree ν τ σ)
  | .node .binaryExpr _ [.child (some x), .token (some op), .child (some y)] =>
    x.flat ++ .inl op :: y.flat
  | tree => [.inr tree]

theorem flat_of_kind {tree : SlotTree ν τ σ} (other : tree.kind ≠ .binaryExpr) :
    tree.flat = [.inr tree] := by
  unfold flat
  split
  · exact absurd rfl other
  · rfl

end SlotTree

/-- A tree whose operators bind at least so tightly, and to the left where they bind the same. -/
inductive Climbs : Nat → Bare → Prop
  | operator {least precedence : Nat} {op : String} {x y : Bare}
      (binds : operatorPrecedence? op = some precedence) (atLeast : least ≤ precedence)
      (left : Climbs precedence x) (right : Climbs (precedence + 1) y) :
      Climbs least (.node .binaryExpr () [.child (some x), .token (some op), .child (some y)])
  | operand {least : Nat} {tree : Bare} (other : tree.kind ≠ .binaryExpr) : Climbs least tree

namespace Climbs

variable {least least' : Nat} {tree tree' : Bare}

/-- No operator of the row binds looser. -/
theorem tight (climbs : Climbs least tree) {op : String} (mem : .inl op ∈ tree.flat) :
    ∃ precedence, operatorPrecedence? op = some precedence ∧ least ≤ precedence := by
  induction climbs with
  | operator binds atLeast left right leftIh rightIh =>
    rw [SlotTree.flat] at mem
    rcases List.mem_append.mp mem with inside | here
    · obtain ⟨precedence, isPrecedence, le⟩ := leftIh inside
      exact ⟨precedence, isPrecedence, Nat.le_trans atLeast le⟩
    · rcases List.mem_cons.mp here with same | inside
      · obtain rfl := Sum.inl.inj same
        exact ⟨_, binds, atLeast⟩
      · obtain ⟨precedence, isPrecedence, le⟩ := rightIh inside
        exact ⟨precedence, isPrecedence, by omega⟩
  | operand other => simp [SlotTree.flat_of_kind other] at mem

/-- If an operator is a root on the right of which another one stands, then that one is no root
on the left of which the first one stands. -/
theorem between_eq_nil {op op' : String} {precedence precedence' : Nat} {x y : Bare}
    {front between back : List (String ⊕ Bare)} (binds : operatorPrecedence? op = some precedence)
    (binds' : operatorPrecedence? op' = some precedence') (left : Climbs precedence' x)
    (right : Climbs (precedence + 1) y) (isFront : x.flat = front ++ between)
    (isBack : .inl op :: y.flat = between ++ .inl op' :: back) : between = [] := by
  cases between with
  | nil => rfl
  | cons first between =>
    obtain ⟨rfl, rest⟩ := List.cons.inj isBack
    have onLeft : .inl op ∈ x.flat := by simp [isFront]
    have onRight : .inl op' ∈ y.flat := by simp [rest]
    obtain ⟨here, isHere, le⟩ := left.tight onLeft
    obtain ⟨there, isThere, lt⟩ := right.tight onRight
    obtain rfl := Option.some.inj (isHere.symm.trans binds)
    obtain rfl := Option.some.inj (isThere.symm.trans binds')
    omega

/-- What stands in a row has one grouping. -/
theorem eq_of_flat (climbs : Climbs least tree) (climbs' : Climbs least' tree')
    (same : tree.flat = tree'.flat) : tree = tree' := by
  induction climbs generalizing least' tree' with
  | @operator least precedence op x y binds atLeast left right leftIh rightIh =>
    cases climbs' with
    | @operator _ precedence' op' x' y' binds' atLeast' left' right' =>
      rw [SlotTree.flat, SlotTree.flat] at same
      have split : x.flat = x'.flat ∧ Sum.inl op :: y.flat = .inl op' :: y'.flat := by
        rcases List.append_eq_append_iff.mp same with ⟨between, front, back⟩ | ⟨between, front, back⟩
        · obtain rfl := between_eq_nil binds binds' left' right front back
          exact ⟨by simpa using front.symm, back⟩
        · obtain rfl := between_eq_nil binds' binds left right' front back
          exact ⟨by simpa using front, back.symm⟩
      obtain ⟨sameOp, back⟩ := List.cons.inj split.2
      obtain rfl := Sum.inl.inj sameOp
      rw [leftIh left' split.1, rightIh right' back]
    | operand other =>
      rw [SlotTree.flat, SlotTree.flat_of_kind other] at same
      have inside : .inl op ∈ x.flat ++ .inl op :: y.flat := by simp
      rw [same] at inside
      simp at inside
  | operand other =>
    rw [SlotTree.flat_of_kind other] at same
    cases climbs' with
    | @operator _ _ op' x' y' =>
      rw [SlotTree.flat] at same
      have inside : .inl op' ∈ x'.flat ++ .inl op' :: y'.flat := by simp
      rw [← same] at inside
      simp at inside
    | operand other' =>
      rw [SlotTree.flat_of_kind other'] at same
      simpa using same

end Climbs

/-- The operators of a grown tree are grouped as they bind. -/
theorem Grammar.Grown.climbs {whole : List Token} {count least : Nat} {place : Grammar.Place}
    {tree : Positional} (grown : Grown whole count place least tree) :
    Climbs least tree.erase := by
  induction grown with
  | operator binds atLeast _ _ leftIh rightIh => exact .operator binds atLeast leftIh rightIh
  | node other => exact .operand other

/-! ## What is written of an operation -/

/-- The text of a token. -/
def Print.Mark.token? : Mark → Option String
  | token text => some text
  | _ => none

namespace Decorated

/-- The tokens of a tree as they are written. -/
def tokens (tree : Decorated) : List String := (fullWalk .standard tree).filterMap Mark.token?

theorem filterMap_commentMarks (groups : List TriviaGroup) :
    (commentMarks groups).filterMap Mark.token? = [] := by
  simp [commentMarks, List.filterMap_flatMap, List.filterMap_map, Function.comp_def,
    Print.Mark.token?]

theorem filterMap_around (decorations : Decorations) (anchor : Anchor) (marks : List Mark) :
    (decorations.around anchor marks).filterMap Mark.token? = marks.filterMap Mark.token? := by
  simp [Decorations.around, filterMap_commentMarks]

/-- Operands are written with their operators between them, and with nothing else. -/
theorem tokens_eq_flat (tree : Decorated) :
    tree.tokens = tree.flat.flatMap (Sum.elim (fun op => [op]) tokens) := by
  fun_induction SlotTree.flat tree with
  | case1 decorations x op y leftIh rightIh =>
    rw [List.flatMap_append, List.flatMap_cons, ← leftIh, ← rightIh]
    have shapes : Registry.standard.anchorsOf .binaryExpr = StandardShape.anchors .binaryExpr := rfl
    simp [tokens, fullWalk, walk, shapes, StandardShape.anchors, walkSlots, walkSlot,
      filterMap_around, filterMap_commentMarks, Print.Mark.token?]
  | case2 tree other => simp

end Decorated

/-! ## Every text -/

/-- How tightly the operator of a binary expression binds. -/
def Positional.precedence? (tree : Positional) : Option Nat :=
  (tree.token? .op).bind fun op => operatorPrecedence? op.text

/-- What is at the root of a grown tree with a binary operator on top binds as tightly as
asked. -/
theorem Grammar.Grown.binds {whole : List Token} {count least : Nat} {place : Grammar.Place}
    {tree : Positional} (grown : Grown whole count place least tree)
    (isBinary : tree.kind = .binaryExpr) :
    ∃ precedence, tree.precedence? = some precedence ∧ least ≤ precedence := by
  cases grown with
  | operator binds atLeast => exact ⟨_, binds, atLeast⟩
  | node other => exact absurd isBinary other

theorem Grammar.lt_tightest {text : String} {precedence : Nat}
    (binds : operatorPrecedence? text = some precedence) : precedence < tightest := by
  unfold operatorPrecedence? at binds
  split at binds <;> cases binds <;> decide

/-- What the operators of a text are grouped by. -/
structure GroupedByPrecedence (text : String) : Prop where
  /-- On the left of an operator is none that binds looser, on its right one that binds
  tighter. -/
  binary : ∀ node ∈ (parse text).tree.root.preorder, node.kind = .binaryExpr →
    ∃ (x y : Positional) (op : Lexeme) (precedence : Nat),
      node.slots = [childSlot x, tokenSlot op, childSlot y] ∧
      operatorPrecedence? op.text = some precedence ∧
      (x.kind = .binaryExpr → ∃ left, x.precedence? = some left ∧ precedence ≤ left) ∧
      (y.kind = .binaryExpr → ∃ right, y.precedence? = some right ∧ precedence < right)
  /-- Operands of other operators, and what selectors, indices, assertions and calls are
  about, are no binary expressions. -/
  operand : ∀ node ∈ (parse text).tree.root.preorder, ∀ anchor child,
    Grammar.isOperand node.kind anchor = true → node.child? anchor = some child →
      child.kind ≠ .binaryExpr
  /-- The printer writes the operands of the decorated tree with their operators between them
  and with no parentheses around them, and in the tree of no text are they grouped in another
  way. -/
  kept : ∀ resolver tree, ((parse text).tree.decorate .standard resolver).result = .ok tree →
    (∀ output, print tree = .ok output →
      (∀ row ∈ (tree.place .standard).comments, row.offset < Print.lastOffset) →
        ∃ marks, output = Print.finish marks ∧
          marks.filterMap Mark.token? = Decorated.tokens tree.root) ∧
    ∀ node ∈ tree.root.preorder,
      Decorated.tokens node = node.flat.flatMap (Sum.elim (fun op => [op]) Decorated.tokens) ∧
        ∀ text', ∀ node' ∈ (parse text').tree.root.preorder,
          (Positional.erase node').flat = (Decorated.erase node).flat →
            Positional.erase node' = Decorated.erase node

/-- The tokens of the printed text are those of the walk. -/
theorem exists_marks_tokens {tree : DecoratedTree} {output : String}
    (printed : print tree = .ok output)
    (small : ∀ row ∈ (tree.place .standard).comments, row.offset < Print.lastOffset) :
    ∃ marks, output = Print.finish marks ∧
      marks.filterMap Mark.token? = Decorated.tokens tree.root := by
  have faultless := exists_print_iff.mp ⟨output, printed⟩
  obtain ⟨marks, written, walked⟩ := exists_marks faultless
  refine ⟨marks, Except.ok.inj (printed.symm.trans (print_of_marks faultless written)), ?_⟩
  have noItem (mark : Mark) (blank : mark.isItem = false) : mark.token? = none := by
    cases mark with
    | token | comment => cases blank
    | space | tab | lineFeed => rfl
  rw [Decorated.tokens, ← walked small, Print.filterMap_filter_isItem noItem]

/-- The operators of a decorated tree are grouped as they bind. -/
theorem climbs_of_decorate {text : String} {resolver : LineResolver} {tree : DecoratedTree}
    (decorated : ((parse text).tree.decorate .standard resolver).result = .ok tree)
    {node : Decorated} (mem : node ∈ tree.root.preorder) : ∃ least, Climbs least node.erase := by
  have erased : (Decorated.erase tree.root).preorder =
      (Positional.erase (parse text).tree.root).preorder :=
    congrArg SlotTree.preorder (erase_of_decorate decorated).1
  rw [Decorated.erase, Positional.erase, SlotTree.preorder_map, SlotTree.preorder_map] at erased
  have inside := List.mem_map_of_mem (f := SlotTree.map (fun _ => ()) id id) mem
  rw [erased] at inside
  obtain ⟨source, mem, same⟩ := List.mem_map.mp inside
  obtain ⟨place, least, grown⟩ := grown_of_mem text source mem
  refine ⟨least, ?_⟩
  rw [Decorated.erase, ← same]
  exact grown.climbs

/-- **Precedence.** In the tree of every text the operators are grouped as they bind, to the
left where they bind the same, and the operators and operands that are printed in a row have no
other grouping. -/
theorem groupedByPrecedence (text : String) : GroupedByPrecedence text where
  binary node mem isBinary := by
    obtain ⟨place, least, grown⟩ := grown_of_mem text node mem
    cases grown with
    | @operator _ _ precedence span op x y binds atLeast left right =>
      exact ⟨x, y, op, precedence, rfl, binds, left.binds, right.binds⟩
    | node other => exact absurd isBinary other
  operand node mem anchor child isOperand found isBinary := by
    obtain ⟨place, least, grown⟩ := grown_of_mem text node mem
    have tight := grown.step (show node.step? (.child anchor) = some child from found)
    rw [leastAt, PathStep.anchor, if_pos isOperand] at tight
    obtain ⟨precedence, isPrecedence, le⟩ := tight.binds isBinary
    obtain ⟨op, -, binds⟩ := Option.bind_eq_some_iff.mp isPrecedence
    exact absurd (Grammar.lt_tightest binds) (Nat.not_lt.mpr le)
  kept resolver tree decorated := by
    refine ⟨fun output printed small => exists_marks_tokens printed small, fun node mem =>
      ⟨Decorated.tokens_eq_flat node, fun text' node' mem' same => ?_⟩⟩
    obtain ⟨least, climbs⟩ := climbs_of_decorate decorated mem
    obtain ⟨place, least', grown⟩ := grown_of_mem text' node' mem'
    exact grown.climbs.eq_of_flat climbs same

/-- A sum with a product in it, and a difference. -/
def mixedOperators : String := "package p\n\nvar x = a+b * c-d\n"

theorem groupedByPrecedence_mixedOperators :
    ∃ tree marks,
      ((parse mixedOperators).tree.decorate .standard (.ofText mixedOperators)).result = .ok tree ∧
      print tree = .ok "package p\n\nvar x = a + b * c - d\n" ∧
      "package p\n\nvar x = a + b * c - d\n" = Print.finish marks ∧
      marks.filterMap Mark.token? = Decorated.tokens tree.root ∧
      ∃ node ∈ tree.root.preorder, Decorated.tokens node = ["a", "+", "b", "*", "c", "-", "d"] ∧
        ∀ text', ∀ node' ∈ (parse text').tree.root.preorder,
          (Positional.erase node').flat = (Decorated.erase node).flat →
            Positional.erase node' = Decorated.erase node := by
  have succeeds : (((parse mixedOperators).tree.decorate .standard
      (.ofText mixedOperators)).result.toOption.any fun tree =>
        (print tree).toOption == some "package p\n\nvar x = a + b * c - d\n" &&
          ((tree.place .standard).comments.all fun row => row.offset < Print.lastOffset) &&
          tree.root.preorder.any fun node =>
            Decorated.tokens node == ["a", "+", "b", "*", "c", "-", "d"]) = true := by
    decide +kernel
  cases decorated : ((parse mixedOperators).tree.decorate .standard
      (.ofText mixedOperators)).result with
  | error error =>
    rw [decorated] at succeeds
    cases succeeds
  | ok tree =>
    rw [decorated] at succeeds
    obtain ⟨⟨same, small⟩, inside⟩ :
        ((print tree).toOption = some _ ∧ ∀ row ∈ (tree.place .standard).comments,
          row.offset < Print.lastOffset) ∧ ∃ node ∈ tree.root.preorder, Decorated.tokens node = _ := by
      simpa [Except.toOption, and_assoc] using succeeds
    obtain ⟨node, mem, written⟩ := inside
    obtain ⟨prints, each⟩ := (groupedByPrecedence mixedOperators).kept _ tree decorated
    have printed : print tree = .ok "package p\n\nvar x = a + b * c - d\n" := by
      cases outcome : print tree with
      | error error => simp [outcome, Except.toOption] at same
      | ok output => simpa [outcome, Except.toOption] using same
    obtain ⟨marks, finished, tokens⟩ := prints _ printed small
    exact ⟨tree, marks, rfl, printed, finished, tokens, node, mem, written, (each node mem).2⟩

end GoTrivia
