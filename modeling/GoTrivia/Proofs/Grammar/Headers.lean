import GoTrivia.Proofs.Grammar.GrownNodes
import GoTrivia.Proofs.Grammar.Total

/-!
# Braces behind headers

A brace behind a bare type name opens a literal, unless the name stands in the header of a
control clause and not between brackets: there the brace opens the body.

**In trees.** Below a header no path without brackets leads to a literal behind a bare type
name (`IsOpenBelow`).  The places of a tree are handed down from its root (`Placed`): they say of
each expression whether it is read with literals or without.

**In operands.** Where such literals are allowed, an operand that is a bare type name has no
brace behind it.

**In rules.** Whether literals are allowed is the same before and after everything a rule
reads: a rule that is told asks the rules below it for the same, between brackets it asks for
literals, and in headers for none.  So rules below it that only differ in what they do when
told otherwise make no difference.
-/

set_option autoImplicit false

namespace GoTrivia

namespace Grammar

/-! ## Headers in trees -/

/-- A node stands below a tree on a path without brackets. -/
inductive IsOpenBelow : Positional → Positional → Prop
  | here (tree : Positional) : IsOpenBelow tree tree
  | step {tree child node : Positional} {step : PathStep} (found : tree.step? step = some child)
      (isOpen : isBracketed tree.kind step.anchor = false) (rest : IsOpenBelow child node) :
      IsOpenBelow tree node

variable {whole : List Token} {count least : Nat} {place : Place} {tree root node : Positional}

/-- Without brackets nothing is allowed below a place that is not allowed there. -/
theorem placeAt_isShut {kind : NodeKind} {anchor : Anchor} {index : Nat}
    (isShut : place.isShut = true) (isOpen : isBracketed kind anchor = false) :
    (placeAt place kind anchor index).isShut = true := by
  unfold placeAt
  split
  · rfl
  have kept : ∀ extent, (place.upTo extent).isShut = true := fun extent => by
    cases place <;> exact isShut
  split <;> first | rfl | exact kept _ | cases isOpen

/-- On a path without brackets nothing is allowed that is not allowed where it begins. -/
theorem Grown.openBelow (grown : Grown whole count place least tree) (isShut : place.isShut = true)
    (below : IsOpenBelow tree node) :
    ∃ place' least', place'.isShut = true ∧ Grown whole count place' least' node := by
  induction below generalizing place least with
  | here => exact ⟨place, least, isShut, grown⟩
  | step found isOpen _ ih => exact ih (grown.step found) (placeAt_isShut isShut isOpen)

/-- Where no literals are allowed, none has a bare type name. -/
theorem Grown.isTypeName_eq_false (grown : Grown whole count place least tree)
    (isShut : place.isShut = true) (isLiteral : tree.kind = .compositeLit) {type : Positional}
    (typed : tree.child? .type = some type) : isTypeName type.kind = false := by
  cases grown with
  | operator => cases isLiteral
  | @node _ _ kind span slots other unnamed =>
    obtain rfl : kind = .compositeLit := isLiteral
    have unnamed := unnamed isShut
    have first : (Shape.indexOf? (standardShape .compositeLit) .type) = some 0 := rfl
    simp only [SlotTree.child?, SlotTree.slot?, SlotTree.indexOf?, SlotTree.kind, first,
      SlotTree.slots, Option.bind_some] at typed
    cases slots with
    | nil => simp at typed
    | cons slot slots =>
      cases slot with
      | token | list => simp at typed
      | child content =>
        obtain rfl : content = some type := by simpa using typed
        exact unnamed

/-! ## Places in trees -/

/-- A node of a tree stands at a place.  A file is code where literals are allowed, and what is
allowed is handed down from each node to its children. -/
inductive Placed (root : Positional) : Place → Positional → Prop
  | root : Placed root (.whole true) root
  | step {place : Place} {tree child : Positional} {step : PathStep} (placed : Placed root place tree)
      (found : tree.step? step = some child) :
      Placed root (placeAt place tree.kind step.anchor step.index) child

/-- What stands at a place has grown there. -/
theorem Grown.placed (grown : Grown whole count (.whole true) least root)
    (placed : Placed root place node) : ∃ least', Grown whole count place least' node := by
  induction placed with
  | root => exact ⟨least, grown⟩
  | step _ found ih =>
    obtain ⟨_, grown⟩ := ih
    exact ⟨_, grown.step found⟩

/-- Behind a bare type name that was read as a whole, where literals are allowed, no brace
stands. -/
theorem Grown.unbraced (grown : Grown whole count (.whole true) least tree)
    (isName : isTypeName tree.kind = true) : Unbraced whole tree.span := by
  cases grown with
  | operator => cases isName
  | node _ _ unbraced => exact unbraced rfl isName

/-! ## Operands -/

variable {α : Type} {gathered : α → Prop} {step : α → Parse (Flow α)}

/-- A repetition whose steps advance ends with a step that says it is done. -/
theorem Advances.exists_done (advances : Advances gathered step) {value result : α}
    {state after : ParseState} (holds : gathered value) (ended : state.Ended)
    (run : (iterate step value).run state = (result, after)) :
    ∃ last before, (step last).run before = (.done result, after) := by
  have upTo : ∀ fuel value state, gathered value → state.Ended → state.upcoming.length < fuel →
      (iterateUpTo step fuel value).run state = (result, after) →
        ∃ last before, (step last).run before = (.done result, after) := by
    intro fuel
    induction fuel with
    | zero => intro value state _ _ enough; omega
    | succ fuel ih =>
      intro value state holds ended enough run
      have goesOn := advances value state holds ended
      rw [iterateUpTo, StateT.run_bind] at run
      cases stepped : (step value).run state with
      | mk flow between =>
        rw [stepped] at goesOn run
        cases flow with
        | done last =>
          obtain ⟨rfl, rfl⟩ : last = result ∧ between = after := Prod.mk.inj run
          exact ⟨value, state, stepped⟩
        | again value' =>
          obtain ⟨holds, ended, fewer⟩ := goesOn value' rfl
          have fewer : between.upcoming.length < state.upcoming.length := fewer
          exact ih value' between holds ended (by omega) run
  exact upTo _ value state holds ended (Nat.lt_succ_self _) run

/-- Nothing more is read behind an operand only if no brace opens a literal there. -/
theorem current_ne_leftBrace_of_done {rules : Rules} {literals : Bool} {last x : Positional}
    {before after : ParseState} (done : (primaryStep rules literals last).run before = (.done x, after))
    (accepts : acceptsLiteral literals x.kind = true) : after.current.kind ≠ .leftBrace := by
  have goesOn : ∀ rule : Parse Positional,
      (do return .again (← rule) : Parse (Flow Positional)).run before ≠ (.done x, after) :=
    fun rule same => by cases congrArg Prod.fst same
  have looked : ∀ next : TokenKind → Parse (Flow Positional),
      (peek >>= next).run before = (next before.current.kind).run before := fun _ => rfl
  unfold primaryStep at done
  rw [looked] at done
  split at done
  · exact absurd done (goesOn _)
  · exact absurd done (goesOn _)
  · exact absurd done (goesOn _)
  · split at done
    · exact absurd done (goesOn _)
    · next refuses =>
      obtain ⟨same, -⟩ := Prod.mk.inj done
      exact absurd (Flow.done.inj same ▸ accepts) refuses
  · next other =>
    obtain ⟨-, rfl⟩ := Prod.mk.inj done
    exact other

/-- An operand that accepts a literal has no brace behind it. -/
theorem current_primary_ne_leftBrace {level : Nat} {literals : Bool} {x : Positional}
    {state after : ParseState} (ended : state.Ended)
    (run : (primary (.level level) literals).run state = (x, after))
    (accepts : acceptsLiteral literals x.kind = true) : after.current.kind ≠ .leftBrace := by
  have went := goes_operand (rulesGo_level (Pairing.same []) level _) (Nat.le_refl _) ended.abreast
  rw [primary_eq, StateT.run_bind] at run
  obtain ⟨left, -, abreast, trees⟩ := went
  obtain ⟨last, before, done⟩ := (advances_of_isLoop (.primary literals)).exists_done
    (treeFit_iff.mpr trees) abreast.ended run
  exact current_ne_leftBrace_of_done done accepts

/-! ## Rules -/

/-- Rules that may only differ in expressions outside of brackets. -/
structure AlikeInside (rules rules' : Rules) : Prop where
  type : rules.type = rules'.type
  elided : rules.elided = rules'.elided
  block : rules.block = rules'.block
  statements : rules.statements = rules'.statements
  conditional : rules.conditional = rules'.conditional
  binary : rules.binary true = rules'.binary true

/-- Rules that do the same for expressions when told whether literals are allowed. -/
structure AlikeAt (literals : Bool) (rules rules' : Rules) : Prop where
  primary : primary rules literals = primary rules' literals
  unary : rules.unary literals = rules'.unary literals
  binary : rules.binary literals = rules'.binary literals

section Rules

variable {rules rules' : Rules} {literals : Bool}

namespace AlikeInside

variable (inside : AlikeInside rules rules')

include inside

theorem paramType_eq : paramType rules = paramType rules' := by
  simp only [paramType, inside.type]

theorem results_eq : results rules = results rules' := by
  simp only [results, inside.type, inside.paramType_eq]

theorem signature_eq : signature rules = signature rules' := by
  simp only [signature, inside.paramType_eq, inside.results_eq]

theorem funcType_eq : funcType rules = funcType rules' := by
  simp only [funcType, inside.signature_eq]

theorem constraint_eq : constraint rules = constraint rules' := by
  simp only [constraint, constraintTerm, inside.type]

theorem typeParams_eq : typeParams rules = typeParams rules' := by
  simp only [typeParams, inside.constraint_eq]

theorem structType_eq : structType rules = structType rules' := by
  simp only [structType, structField, inside.type]

theorem interfaceType_eq : interfaceType rules = interfaceType rules' := by
  simp only [interfaceType, interfaceMember, inside.signature_eq, inside.constraint_eq]

theorem type_eq : Grammar.type rules = Grammar.type rules' := by
  simp only [Grammar.type, typeName, typeArgs, arrayType, arrayLength, mapType, inside.type,
    inside.binary, inside.funcType_eq, inside.structType_eq, inside.interfaceType_eq]

theorem selectorOrAssertion_eq : selectorOrAssertion rules = selectorOrAssertion rules' := by
  funext x
  simp only [selectorOrAssertion, inside.type]

theorem indexOrSlice_eq : indexOrSlice rules = indexOrSlice rules' := by
  funext x
  simp only [indexOrSlice, sliceFrom, inside.type, inside.binary]

theorem call_eq : call rules = call rules' := by
  funext callee
  simp only [call, arguments, inside.binary]

theorem compositeLit_eq : compositeLit rules = compositeLit rules' := by
  funext start type
  simp only [compositeLit, element, elementValue, inside.elided, inside.binary]

theorem operand_eq : operand rules = operand rules' := by
  simp only [operand, funcLit, inside.block, inside.binary, inside.funcType_eq, inside.type_eq]

theorem block_eq : Grammar.block rules = Grammar.block rules' := by
  simp only [Grammar.block, inside.statements]

/-- What is read behind an operand is read the same whether literals are allowed or not. -/
theorem primary_eq (literals : Bool) : primary rules literals = primary rules' literals := by
  simp only [primary, inside.operand_eq, inside.selectorOrAssertion_eq, inside.indexOrSlice_eq,
    inside.call_eq, inside.compositeLit_eq]

end AlikeInside

namespace AlikeAt

section Told

variable (alike : AlikeAt literals rules rules')

include alike

theorem unary_eq : Grammar.unary rules literals = Grammar.unary rules' literals := by
  simp only [Grammar.unary, alike.unary, alike.primary]

theorem binary_eq : Grammar.binary rules literals = Grammar.binary rules' literals := by
  funext least
  simp only [Grammar.binary, alike.binary, alike.unary_eq]

theorem exprList_eq : exprList rules literals = exprList rules' literals := by
  simp only [exprList, expr, alike.binary_eq]

theorem finishSimple_eq : finishSimple rules literals = finishSimple rules' literals := by
  funext lhs
  simp only [finishSimple, alike.exprList_eq]

theorem simple_eq : simple rules literals = simple rules' literals := by
  simp only [simple, alike.finishSimple_eq, alike.exprList_eq]

end Told

section Headers

variable (alike : AlikeAt false rules rules')

include alike

theorem conditionalHeader_eq : conditionalHeader rules = conditionalHeader rules' := by
  simp only [conditionalHeader, expr, alike.simple_eq, alike.binary_eq]

theorem loopHeader_eq : loopHeader rules = loopHeader rules' := by
  simp only [loopHeader, rangeHeader, countingHeader, expr, alike.simple_eq,
    alike.finishSimple_eq, alike.exprList_eq, alike.binary_eq]

theorem switchHeader_eq : switchHeader rules = switchHeader rules' := by
  simp only [switchHeader, alike.simple_eq]

end Headers

section Elsewhere

variable (alike : AlikeAt true rules rules')

include alike

theorem callStmt_eq : callStmt rules = callStmt rules' := by
  funext kind
  simp only [callStmt, expr, alike.binary_eq]

theorem returnStmt_eq : returnStmt rules = returnStmt rules' := by
  simp only [returnStmt, alike.exprList_eq]

variable (inside : AlikeInside rules rules')

include inside

theorem genDecl_eq : genDecl rules = genDecl rules' := by
  simp only [genDecl, valueSpec, typeSpec, alike.exprList_eq, inside.type_eq, inside.typeParams_eq]

theorem decl_eq : decl rules = decl rules' := by
  simp only [decl, funcDecl, receiver, alike.genDecl_eq inside, inside.type_eq, inside.block,
    inside.signature_eq, inside.typeParams_eq]

theorem switchBody_eq : switchBody rules = switchBody rules' := by
  simp only [switchBody, clauses, caseClause, alike.exprList_eq, inside.statements]

end Elsewhere

end AlikeAt

end Rules

/-! ## Headers, operands and rules -/

/-- What is known about braces behind bare type names. -/
structure HeaderBraces : Prop where
  /-- In the tree of a text no path without brackets leads from a child in the header of a
  control clause to a literal behind a bare type name. -/
  header : ∀ text, ∀ node ∈ (parse text).tree.root.preorder, ∀ anchor child,
    isHeader node.kind anchor = true → node.child? anchor = some child →
      ∀ inner, IsOpenBelow child inner → inner.kind = .compositeLit →
        ∀ type, inner.child? .type = some type → isTypeName type.kind = false
  /-- In the tree of a text it depends on the place of a node alone what a brace behind a bare
  type name is: where an expression is read with literals, none stands behind such a name, and
  where it is read without, no literal has one. -/
  placed : ∀ text place node, Placed (parse text).tree.root place node →
    (place = .whole true → isTypeName node.kind = true → Unbraced (lex text).tokens node.span) ∧
      (place.isShut = true → node.kind = .compositeLit →
        ∀ type, node.child? .type = some type → isTypeName type.kind = false)
  /-- Where literals are allowed, reading an operand that is a bare type name does not stop in
  front of a brace. -/
  operand : ∀ level state x after, state.Ended →
    (primary (.level level) true).run state = (x, after) → isTypeName x.kind = true →
      after.current.kind ≠ .leftBrace
  /-- What is read between brackets, in blocks and in types does not depend on whether literals
  are allowed around it, and neither does what is read between two parts of an operand. -/
  bracketed : ∀ rules rules', AlikeInside rules rules' →
    Grammar.type rules = Grammar.type rules' ∧ Grammar.operand rules = Grammar.operand rules' ∧
      selectorOrAssertion rules = selectorOrAssertion rules' ∧
      indexOrSlice rules = indexOrSlice rules' ∧ call rules = call rules' ∧
      compositeLit rules = compositeLit rules' ∧ Grammar.block rules = Grammar.block rules' ∧
      primary rules = primary rules'
  /-- A rule that is told whether literals are allowed tells the rules below it the same,
  whatever it has read before. -/
  told : ∀ rules rules' literals, AlikeAt literals rules rules' →
    Grammar.unary rules literals = Grammar.unary rules' literals ∧
      Grammar.binary rules literals = Grammar.binary rules' literals ∧
      exprList rules literals = exprList rules' literals ∧
      finishSimple rules literals = finishSimple rules' literals ∧
      simple rules literals = simple rules' literals
  /-- Headers are read without literals from beginning to end. -/
  headers : ∀ rules rules', AlikeAt false rules rules' →
    conditionalHeader rules = conditionalHeader rules' ∧ loopHeader rules = loopHeader rules' ∧
      switchHeader rules = switchHeader rules'
  /-- Declarations, the clauses of switches and what follows keywords are read with literals. -/
  elsewhere : ∀ rules rules', AlikeInside rules rules' → AlikeAt true rules rules' →
    genDecl rules = genDecl rules' ∧ decl rules = decl rules' ∧
      switchBody rules = switchBody rules' ∧ callStmt rules = callStmt rules' ∧
      returnStmt rules = returnStmt rules'

/-- **Braces.** In the header of a control clause a brace behind a bare type name opens the
body, elsewhere it opens a literal, and which of the two it is depends on the place alone. -/
theorem headerBraces : HeaderBraces where
  header text node mem anchor child isHeader found inner below isLiteral type typed := by
    obtain ⟨place, least, grown⟩ := grown_of_mem text node mem
    have inHeader := grown.step (show node.step? (.child anchor) = some child from found)
    rw [PathStep.anchor, placeAt_of_isHeader isHeader] at inHeader
    obtain ⟨place', least', isShut, inside⟩ := inHeader.openBelow rfl below
    exact inside.isTypeName_eq_false isShut isLiteral typed
  placed text place node placed := by
    obtain ⟨least, grown⟩ := (grown_root text).placed placed
    refine ⟨?_, fun isShut isLiteral type typed => grown.isTypeName_eq_false isShut isLiteral typed⟩
    rintro rfl isName
    exact grown.unbraced isName
  operand level state x after ended run named := by
    refine current_primary_ne_leftBrace ended run ?_
    generalize x.kind = kind at named ⊢
    cases kind <;> simp_all [isTypeName, acceptsLiteral]
  bracketed rules rules' inside :=
    ⟨inside.type_eq, inside.operand_eq, inside.selectorOrAssertion_eq, inside.indexOrSlice_eq,
      inside.call_eq, inside.compositeLit_eq, inside.block_eq, funext inside.primary_eq⟩
  told rules rules' literals alike :=
    ⟨alike.unary_eq, alike.binary_eq, alike.exprList_eq, alike.finishSimple_eq, alike.simple_eq⟩
  headers rules rules' alike :=
    ⟨alike.conditionalHeader_eq, alike.loopHeader_eq, alike.switchHeader_eq⟩
  elsewhere rules rules' inside alike :=
    ⟨alike.genDecl_eq inside, alike.decl_eq inside, alike.switchBody_eq inside,
      alike.callStmt_eq, alike.returnStmt_eq⟩

end Grammar

end GoTrivia
