import GoTrivia.Proofs.Grammar.Declarations

/-!
# Statements spell their tokens

The header of a control clause is read as a simple statement first.  Where it turns out to
be the condition, the expression is taken out of the statement again; the two spell the same
tokens.
-/

set_option autoImplicit false

namespace GoTrivia

namespace Grammar

variable {rules : Rules} [KeepsRules rules]

/-! ## Simple statements -/

section Simple

variable {origin state after : ParseState} {lhs : Elements} {tree x : Positional}
  {tokens : List Token}

/-- The one expression of a list spells what the list does. -/
theorem clean_single (joined : lhs.Joined tokens) (run : Clean (single lhs) state x after) :
    after = state ∧ Ending x tokens := by
  obtain ⟨nodes, separators⟩ := lhs
  obtain ⟨spells, lengths⟩ := joined
  unfold single at run
  split at run
  · next none => simp [show nodes = [] from none] at lengths
  · next node one =>
    simp at run
    obtain ⟨rfl, rfl, -⟩ := run
    obtain rfl : nodes = [x] := one
    obtain rfl : separators = [] := List.length_eq_zero_iff.mp (by simpa using lengths.symm)
    cases spells with
    | last content ends => exact ⟨rfl, content, ends⟩
  · simp at run

theorem spells_finishSimple (sound : rules.Sound) {literals : Bool} (took : Took origin tokens state)
    (joined : lhs.Joined tokens) (run : Clean (finishSimple rules literals lhs) state tree after) :
    ∃ tokens, Took origin tokens after ∧ Spells tree tokens := by
  have some : tokens ≠ [] := (joined.1.ends joined.2).solid.ne_nil
  simp [finishSimple] at run
  rcases run with ⟨assigns, run⟩ | ⟨-, x, middle, singleRun, run⟩
  · have fits : TokenFits .free state.current.kind := by
      refine ⟨?_, ?_, ?_, ?_⟩ <;> intro same <;> simp [same, TokenKind.isAssignOperator] at assigns
    have reading := Reading.start .assignStmt (standardShape .assignStmt).anchors took.lawful
    have reading := (reading.separated rfl rfl took joined.1).settle joined.not_trailing
    have reading := reading.token rfl rfl fits trivial
    split at run
    · next none =>
      have lengths := joined.2
      simp [none] at lengths
    · next node nodes filled =>
      have start : node.info.start = origin.current.span.start := by
        have separated := joined.1
        rw [Elements.Separated, filled] at separated
        exact head_start separated (took.head some)
      simp [start] at run
      obtain ⟨rhs, rhsRun, rfl, -⟩ := run
      obtain ⟨more, rhsTook, rhsJoined⟩ := reads_exprList sound literals rhsRun reading.lawful trivial
      have reading := (reading.separated rfl rfl rhsTook rhsJoined.1).settle rhsJoined.not_trailing
      refine ⟨_, reading.took, reading.close (by decide) ?_ (rhsJoined.1.ends rhsJoined.2).solid.append⟩
      simp [joined.isPresent, rhsJoined.isPresent]
      rfl
  · obtain ⟨rfl, ending⟩ := clean_single joined singleRun
    rw [took.start ending.1] at run
    rcases run with ⟨isStep, rfl, rfl, -⟩ | ⟨-, rfl, rfl, -⟩
    · have fits : TokenFits .free middle.current.kind := by
        rcases isStep with same | same <;> simp [same, TokenFits]
      have reading := Reading.start .incDecStmt (standardShape .incDecStmt).anchors took.lawful
      have reading := reading.child rfl took ending.1 ending.2
      have reading := reading.token rfl rfl fits (List.forall_mem_singleton.mpr isStep)
      exact ⟨_, reading.took, reading.close (by decide) rfl (Solid.single rfl fits.1)⟩
    · have reading := Reading.start .exprStmt (standardShape .exprStmt).anchors took.lawful
      have reading := reading.child rfl took ending.1 trivial
      exact ⟨_, reading.took, reading.close (by decide) rfl ending.2.solid⟩

theorem reads_simple (sound : rules.Sound) (literals : Bool) :
    Reads (simple rules literals) Anywhere Spells := by
  intro state tree after run lawful _
  simp [simple] at run
  obtain ⟨lhs, middle, lhsRun, run⟩ := run
  obtain ⟨tokens, took, joined⟩ := reads_exprList sound literals lhsRun lawful trivial
  exact spells_finishSimple sound took joined run

/-- The expression of an expression statement spells what the statement does. -/
theorem clean_exprOf (spells : Spells tree tokens) (run : Clean (exprOf tree) state x after) :
    after = state ∧ Spells x tokens := by
  unfold exprOf at run
  split at run
  · simp at run
    obtain ⟨rfl, rfl, -⟩ := run
    cases spells with
    | node content =>
      cases content with
      | vacant empty rest => cases empty
      | child isChild content joins rest =>
        cases rest
        exact ⟨rfl, by simpa using content⟩
  · simp at run

end Simple

/-! ## Blocks -/

theorem mayFill_blockStmt : ∀ filled : Bool, mayFill .blockStmt [true, filled, true] = true := by
  decide

omit [KeepsRules rules] in
theorem reads_block (sound : rules.Sound) : Reads (block rules) Anywhere Ending := by
  intro state tree after run lawful _
  simp [block] at run
  obtain ⟨isOpen, list, middle, listRun, isClose, rfl, rfl, -⟩ := run
  have reading := Reading.start .blockStmt (standardShape .blockStmt).anchors lawful
  have reading := reading.token rfl isOpen rfl trivial
  obtain ⟨more, listTook, terminated⟩ := sound.statements listRun reading.lawful trivial
  have reading := reading.terminated rfl rfl listTook terminated
  have reading := reading.token rfl isClose rfl trivial
  exact ⟨_, reading.took,
    reading.close (by decide) (mayFill_blockStmt _) (Solid.single isClose (by decide)),
    Ends.single isClose rfl⟩

/-! ## Conditionals -/

/-- The shapes between the keyword of a conditional and its body. -/
def conditionShapes : List AnchorShape :=
  [(StandardShape.child .init).optional.spaced,
   (StandardShape.token .semicolon ";").together .init, (StandardShape.child .cond).spaced]

section Headers

variable {origin now after : ParseState} {whole shapes : List AnchorShape}
  {slots more : List PositionalSlot} {tokens : List Token}

theorem Reading.conditionalHeader (sound : rules.Sound)
    (reading : Reading .ifStmt origin whole (conditionShapes ++ shapes) slots tokens now False)
    (run : Clean (conditionalHeader rules) now more after) :
    ∃ tokens filled, Reading .ifStmt origin whole shapes (slots ++ more) tokens after False ∧
      more.map Slot.isPresent = [filled, filled, true] := by
  simp [Grammar.conditionalHeader] at run
  obtain ⟨stmt, middle, stmtRun, run⟩ := run
  obtain ⟨front, stmtTook, spells⟩ := reads_simple sound false stmtRun reading.lawful trivial
  rcases run with ⟨isSemicolon, cond, condRun, rfl⟩ | ⟨-, cond, condRun, rfl⟩
  · have reading := reading.child rfl stmtTook spells trivial
    have reading := reading.token rfl isSemicolon rfl trivial
    obtain ⟨rest, condTook, operand⟩ := reads_expr sound false condRun reading.lawful trivial
    have reading := reading.child rfl condTook operand.spells trivial
    exact ⟨_, true, reading.of_slots (by simp [tokenSlot, childSlot]), rfl⟩
  · obtain ⟨rfl, spells⟩ := clean_exprOf spells condRun
    have reading := (reading.vacant (.child none) rfl).vacant (.token none) rfl
    have reading := reading.child rfl stmtTook spells trivial
    exact ⟨_, false, reading.of_slots (by simp [childSlot]), rfl⟩

theorem reads_conditional (sound : rules.Sound) :
    Reads (conditional rules) (· = .ifKw) Spells := by
  intro state tree after run lawful isIf
  simp [conditional] at run
  obtain ⟨header, middle, headerRun, body, next, bodyRun, run⟩ := run
  have reading := Reading.start .ifStmt (standardShape .ifStmt).anchors lawful
  have reading := reading.token rfl isIf rfl trivial
  obtain ⟨tokens, filled, reading, present⟩ := Reading.conditionalHeader sound reading headerRun
  obtain ⟨more, bodyTook, bodyEnding⟩ := reads_block sound bodyRun reading.lawful trivial
  have reading := reading.child rfl bodyTook bodyEnding.1 trivial
  have full : ∀ filled alternative : Bool, mayFill .ifStmt
      [true, filled, filled, true, true, alternative, alternative] = true := by decide
  have finish : ∀ alternative more, next.current.kind = .elseKw →
      Took next.advance more after → Spells alternative more →
      tree = .node .ifStmt (.closing state.current.span.start after.lastEnd)
        (tokenSlot state.current.toLexeme ::
          (header ++ [childSlot body, tokenSlot next.current.toLexeme, childSlot alternative])) →
      ∃ tokens, Took state tokens after ∧ Spells tree tokens := by
    rintro alternative more isElse took spells rfl
    have reading := reading.token rfl isElse rfl trivial
    have reading := reading.child rfl took spells trivial
    have reading := reading.of_slots (by simp; rfl)
    refine ⟨_, reading.took, reading.closeVisible (by decide) ?_ spells.stopsAt.append.visible⟩
    simpa [present, tokenSlot, childSlot] using full filled true
  rcases run with ⟨isElse, run⟩ | ⟨-, rfl, rfl, -⟩
  · have elseTook := reading.took.take (by simp [isElse])
    rcases run with ⟨isIf, alternative, alternativeRun, same, -⟩ |
      ⟨-, alternative, alternativeRun, same, -⟩
    · obtain ⟨more, took, spells⟩ := sound.conditional alternativeRun elseTook.lawful_after isIf
      exact finish alternative more isElse took spells same
    · obtain ⟨more, took, ending⟩ := reads_block sound alternativeRun elseTook.lawful_after trivial
      exact finish alternative more isElse took ending.1 same
  · have reading := (reading.vacant (.token none) rfl).vacant (.child none) rfl
    have reading := reading.of_slots (by simp; rfl)
    refine ⟨_, reading.took, reading.close (by decide) ?_ bodyEnding.2.solid.append⟩
    simpa [present, tokenSlot, childSlot] using full filled false

end Headers

/-! ## Loops -/

/-- The slots of the iteration variables of a loop. -/
def iteratedSlots (lhs : Elements) : List PositionalSlot :=
  match lhs.nodes, lhs.separators with
  | key :: value :: _, comma :: _ => [childSlot key, tokenSlot ⟨",", comma⟩, childSlot value]
  | key :: _, _ => [childSlot key, .token none, .child none]
  | [], _ => [.child none, .token none, .child none]

/-- The shapes of the iteration variables of a loop. -/
def iteratedShapes : List AnchorShape :=
  [(StandardShape.child .key).optional.spaced, (StandardShape.token .comma ",").together .value,
   (StandardShape.child .value).optional.spaced]

/-- One or two iteration variables fill their slots. -/
theorem spells_iterated {lhs : Elements} {front tail : List Token} {shapes : List AnchorShape}
    {slots : List PositionalSlot} (joined : lhs.Joined front) (few : lhs.nodes.length ≤ 2)
    (regular : ∀ token ∈ front, token.Regular) (rest : SpellsSlots .rangeStmt shapes slots tail) :
    SpellsSlots .rangeStmt (iteratedShapes ++ shapes) (iteratedSlots lhs ++ slots)
      (front ++ tail) := by
  obtain ⟨nodes, separators⟩ := lhs
  obtain ⟨spells, lengths⟩ := joined
  cases spells with
  | nil => simp at lengths
  | last key ends => exact .child rfl key trivial (.vacant rfl (.vacant rfl rest))
  | @cons node nodes comma separators front tokens key ends isComma others =>
    cases others with
    | nil => simp at lengths
    | @last node' tokens value ends' =>
      have text : comma.text = "," :=
        (regular comma (by simp)).spelled (by simp [isComma]) "," (by rw [isComma]; rfl)
      have lexeme : tokenSlot ⟨",", comma.span⟩ = (.token (some comma.toLexeme) : PositionalSlot) := by
        rw [tokenSlot, ← text]
      have spells : SpellsSlots .rangeStmt (iteratedShapes ++ shapes)
          (.child (some node) :: .token (some comma.toLexeme) :: .child (some node') :: slots)
          (front ++ comma :: (tokens ++ tail)) :=
        .child rfl key trivial
          (.token rfl (by rw [isComma]; rfl) trivial (.child rfl value trivial rest))
      simpa [iteratedSlots, childSlot, lexeme] using spells
    | cons value ends' isComma' others =>
      cases others <;> simp at few lengths

theorem present_iterated {lhs : Elements} {front : List Token} (joined : lhs.Joined front) :
    ∃ both, (iteratedSlots lhs).map Slot.isPresent = [true, both, both] := by
  obtain ⟨nodes, separators⟩ := lhs
  have lengths := joined.2
  match nodes, separators with
  | [], _ => simp at lengths
  | [_], _ => exact ⟨false, rfl⟩
  | _ :: _ :: _, [] => simp at lengths
  | _ :: _ :: _, _ :: _ => exact ⟨true, rfl⟩

/-- The header of a loop over a range, behind its iteration variables. -/
def rangeRest (rules : Rules) (lhs : Elements) : Parse (NodeKind × List PositionalSlot) := do
  let tok ← take
  let keyword ← take
  let x ← expr rules false
  return (.rangeStmt, iteratedSlots lhs ++ [tokenSlot tok, tokenSlot keyword, childSlot x])

omit [KeepsRules rules] in
theorem rangeHeader_eq (lhs : Elements) :
    rangeHeader rules lhs = match lhs.nodes with
      | _ :: _ :: extra :: _ => do
        reportAt "expected at most two iteration variables" extra.span
        rangeRest rules lhs
      | _ => rangeRest rules lhs := rfl

/-- A loop up to its body. -/
structure LoopHeader (origin : ParseState) (kind : NodeKind) (slots : List PositionalSlot)
    (now : ParseState) : Prop where
  read : ∃ tokens, Reading kind origin (standardShape kind).anchors
    [(StandardShape.child .body).spaced] (tokenSlot origin.current.toLexeme :: slots) tokens now
    False
  filled : mayFill kind (true :: (slots.map Slot.isPresent ++ [true])) = true
  below : kind ≠ .file

section Loops

variable {origin now after : ParseState} {kind : NodeKind} {slots : List PositionalSlot}
  {front tokens : List Token} {header : NodeKind × List PositionalSlot}

theorem loopHeader_range (sound : rules.Sound) {lhs : Elements} (lawful : Lawful origin.tokens)
    (isFor : origin.current.kind = .forKw) (took : Took origin.advance front now)
    (joined : lhs.Joined front) (assigns : now.current.kind = .colonEq ∨ now.current.kind = .eq)
    (isRange : (now.upcoming[0]?.map Token.kind).getD .eof = .rangeKw)
    (run : Clean (rangeHeader rules lhs) now header after) :
    LoopHeader origin header.1 header.2 after := by
  have fits : TokenFits .free now.current.kind := by
    rcases assigns with same | same <;> simp [same, TokenFits]
  rw [rangeHeader_eq] at run
  split at run
  · have keeps : Keeps (rangeRest rules lhs) := by
      unfold rangeRest
      infer_instance
    obtain ⟨_, middle, report, -⟩ := run.of_bind fun _ => keeps
    simp at report
  · next few =>
    have few : lhs.nodes.length ≤ 2 := by
      rcases same : lhs.nodes with _ | ⟨key, _ | ⟨value, _ | ⟨extra, rest⟩⟩⟩
      · simp
      · simp
      · simp
      · exact absurd same (few key value extra rest)
    simp [rangeRest] at run
    obtain ⟨x, xRun, rfl⟩ := run
    have isRange := ParseState.kind_advance isRange (by decide)
    have reading := Reading.start .rangeStmt (standardShape .rangeStmt).anchors lawful
    have reading := reading.token rfl isFor rfl trivial
    have regular : ∀ token ∈ front, token.Regular := fun token mem =>
      took.lawful.regular token (by simp [took.split, mem])
    have reading : Reading .rangeStmt origin (standardShape .rangeStmt).anchors _
        (tokenSlot origin.current.toLexeme :: iteratedSlots lhs) _ now False :=
      ⟨reading.took.trans took, fun spells _ => by
        have := reading.extend (spells_iterated joined few regular spells) False.elim
        simpa [tokenSlot] using this⟩
    have reading := reading.token rfl rfl fits trivial
    have reading := reading.token rfl isRange rfl trivial
    obtain ⟨more, xTook, operand⟩ := reads_expr sound false xRun reading.lawful trivial
    have reading := reading.child rfl xTook operand.spells trivial
    obtain ⟨both, present⟩ := present_iterated joined
    have full : ∀ both : Bool, mayFill .rangeStmt
      [true, true, both, both, true, true, true, true] = true := by decide
    refine ⟨⟨_, reading.of_slots (by simp [tokenSlot, childSlot])⟩, ?_, by simp⟩
    simpa [present, tokenSlot, childSlot] using full both

/-- The shapes of the header of a counting loop behind its initial statement. -/
def countingShapes : List AnchorShape :=
  [(StandardShape.token .initSemicolon ";").optional, (StandardShape.child .cond).optional.spaced,
   (StandardShape.token .condSemicolon ";").together .initSemicolon,
   (StandardShape.child .post).optional.spaced, (StandardShape.child .body).spaced]

theorem mayFill_forStmt : ∀ init counted cond post : Bool,
    mayFill .forStmt [true, init, counted, cond, counted, post, true] = true := by decide

theorem loopHeader_post (sound : rules.Sound) {init cond : Option Positional} {semicolon : Lexeme}
    (reading : Reading .forStmt origin (standardShape .forStmt).anchors
      [(StandardShape.token .condSemicolon ";").together .initSemicolon,
       (StandardShape.child .post).optional.spaced, (StandardShape.child .body).spaced]
      [tokenSlot origin.current.toLexeme, .child init, tokenSlot semicolon, .child cond] tokens now
      False)
    (isSemicolon : now.current.kind = .semicolon)
    (run : now.advance.current.kind = .leftBrace ∧ header = (.forStmt,
          [.child init, tokenSlot semicolon, .child cond, .token (some now.current.toLexeme),
           .child none]) ∧ after = now.advance ∧ now.advance.diagnostics = [] ∨
        ¬now.advance.current.kind = .leftBrace ∧ ∃ post,
          Clean (simple rules false) now.advance post after ∧ header = (.forStmt,
            [.child init, tokenSlot semicolon, .child cond, .token (some now.current.toLexeme),
             .child (some post)])) :
    LoopHeader origin header.1 header.2 after := by
  have reading := reading.token rfl isSemicolon rfl trivial
  have full := mayFill_forStmt init.isSome true cond.isSome
  rcases run with ⟨-, rfl, rfl, -⟩ | ⟨-, post, postRun, rfl⟩
  · exact ⟨⟨_, (reading.vacant (.child none) rfl).of_slots (by simp)⟩, full false, by simp⟩
  · obtain ⟨more, postTook, spells⟩ := reads_simple sound false postRun reading.lawful trivial
    have reading := reading.child rfl postTook spells trivial
    exact ⟨⟨_, reading.of_slots (by simp)⟩, full true, by simp⟩

theorem loopHeader_counting (sound : rules.Sound) {init : Option Positional}
    (reading : Reading .forStmt origin (standardShape .forStmt).anchors countingShapes
      [tokenSlot origin.current.toLexeme, .child init] tokens now False)
    (isSemicolon : now.current.kind = .semicolon)
    (run : Clean (countingHeader rules init) now header after) :
    LoopHeader origin header.1 header.2 after := by
  have reading := reading.token rfl isSemicolon rfl trivial
  simp [countingHeader] at run
  rcases run with ⟨isSemicolon, run⟩ | ⟨-, cond, middle, condRun, isSemicolon, run⟩
  · exact loopHeader_post sound (reading.vacant (.child none) rfl) isSemicolon run
  · obtain ⟨more, condTook, operand⟩ := reads_expr sound false condRun reading.lawful trivial
    have reading := reading.child rfl condTook operand.spells trivial
    exact loopHeader_post sound reading isSemicolon run

theorem clean_loopHeader (sound : rules.Sound) (lawful : Lawful origin.tokens)
    (isFor : origin.current.kind = .forKw)
    (run : Clean (loopHeader rules) origin.advance header after) :
    LoopHeader origin header.1 header.2 after := by
  have counting := Reading.start .forStmt (standardShape .forStmt).anchors lawful
  have counting := counting.token rfl isFor rfl trivial
  unfold loopHeader at run
  rw [Clean.peek_bind_iff] at run
  split at run
  · simp at run
    obtain ⟨rfl, rfl, -⟩ := run
    have reading := (counting.vacant (.child none) rfl).vacant (.token none) rfl
    have reading := (reading.vacant (.child none) rfl).vacant (.token none) rfl
    have reading := reading.vacant (.child none) rfl
    exact ⟨⟨_, reading.of_slots (by simp; rfl)⟩, mayFill_forStmt false false false false,
      by simp⟩
  · next isRange =>
    simp at run
    obtain ⟨x, xRun, rfl⟩ := run
    have reading := Reading.start .rangeStmt (standardShape .rangeStmt).anchors lawful
    have reading := reading.token rfl isFor rfl trivial
    have reading := (reading.vacant (.child none) rfl).vacant (.token none) rfl
    have reading := (reading.vacant (.child none) rfl).vacant (.token none) rfl
    have reading := reading.token rfl isRange rfl trivial
    obtain ⟨more, xTook, operand⟩ := reads_expr sound false xRun reading.lawful trivial
    have reading := reading.child rfl xTook operand.spells trivial
    exact ⟨⟨_, reading.of_slots (by simp [tokenSlot, childSlot])⟩, rfl, by simp⟩
  · next isSemicolon =>
    exact loopHeader_counting sound (counting.vacant (.child none) rfl) isSemicolon run
  · simp at run
    obtain ⟨lhs, middle, lhsRun, run⟩ := run
    obtain ⟨front, lhsTook, joined⟩ := reads_exprList sound false lhsRun counting.lawful trivial
    rcases run with ⟨⟨assigns, isRange⟩, run⟩ | ⟨-, stmt, next, stmtRun, run⟩
    · exact loopHeader_range sound lawful isFor lhsTook joined assigns isRange run
    · obtain ⟨tokens, stmtTook, spells⟩ := spells_finishSimple sound lhsTook joined stmtRun
      rcases run with ⟨isSemicolon, run⟩ | ⟨-, cond, condRun, rfl⟩
      · have reading := counting.child rfl stmtTook spells trivial
        exact loopHeader_counting sound reading isSemicolon run
      · obtain ⟨rfl, spells⟩ := clean_exprOf spells condRun
        have reading := (counting.vacant (.child none) rfl).vacant (.token none) rfl
        have reading := reading.child rfl stmtTook spells trivial
        have reading := (reading.vacant (.token none) rfl).vacant (.child none) rfl
        exact ⟨⟨_, reading.of_slots (by simp [tokenSlot, childSlot])⟩,
          mayFill_forStmt false false true false, by simp⟩

theorem reads_loop (sound : rules.Sound) : Reads (loop rules) (· = .forKw) Spells := by
  intro state tree after run lawful isFor
  simp [loop] at run
  obtain ⟨kind, header, middle, headerRun, body, bodyRun, rfl, -⟩ := run
  obtain ⟨⟨tokens, reading⟩, filled, below⟩ := clean_loopHeader sound lawful isFor headerRun
  obtain ⟨more, bodyTook, ending⟩ := reads_block sound bodyRun reading.lawful trivial
  have joins : ∀ tokens, Joins kind Anchor.body tokens := by
    intro tokens
    cases kind <;> trivial
  have reading := reading.child rfl bodyTook ending.1 (joins more)
  refine ⟨_, reading.took, reading.close below ?_ ending.2.solid.append⟩
  simpa [childSlot, tokenSlot] using filled

end Loops

/-! ## Switches -/

theorem mayFill_caseClause : ∀ listed filled : Bool,
    mayFill .caseClause [true, listed, true, filled] = true := by decide

/-- The keywords of clauses. -/
def IsClauseKeyword (kind : TokenKind) : Prop := kind = .caseKw ∨ kind = .defaultKw

omit [KeepsRules rules] in
theorem Reading.clauseRest (sound : rules.Sound) {list body : Elements} {tokens : List Token}
    {origin now after : ParseState}
    (reading : Reading .caseClause origin (standardShape .caseClause).anchors
      [StandardShape.token .colon ":", (StandardShape.list .body StandardShape.lines).optional]
      [tokenSlot origin.current.toLexeme, list.slot] tokens now False)
    (isColon : now.current.kind = .colon) (run : Clean rules.statements now.advance body after) :
    ∃ tokens, Took origin tokens after ∧
      Spells (.node .caseClause (.closing origin.current.span.start after.lastEnd)
        [tokenSlot origin.current.toLexeme, list.slot, .token (some now.current.toLexeme),
         body.slot]) tokens := by
  have reading := reading.token rfl isColon rfl trivial
  obtain ⟨more, took, terminated⟩ := sound.statements run reading.lawful trivial
  have reading := reading.terminated rfl rfl took terminated
  have reading := reading.of_slots (by simp; rfl)
  refine ⟨_, reading.took, reading.closeVisible (by decide) (mayFill_caseClause _ _) ?_⟩
  exact ⟨now.current, by simp, isImplicit_of_kind (by simp [isColon])⟩

theorem reads_caseClause (sound : rules.Sound) :
    Reads (caseClause rules) IsClauseKeyword Spells := by
  intro state tree after run lawful isKeyword
  have fits : TokenFits .free state.current.kind := by
    rcases isKeyword with same | same <;> simp [same, TokenFits]
  have reading := Reading.start .caseClause (standardShape .caseClause).anchors lawful
  have reading := reading.token rfl rfl fits trivial
  simp [caseClause] at run
  rcases run with ⟨-, list, middle, listRun, isColon, body, bodyRun, rfl, -⟩ |
    ⟨-, isColon, body, bodyRun, rfl, -⟩
  · obtain ⟨more, listTook, joined⟩ := reads_exprList sound true listRun reading.lawful trivial
    have reading := (reading.separated rfl rfl listTook joined.1).settle joined.not_trailing
    exact Reading.clauseRest sound reading isColon bodyRun
  · exact Reading.clauseRest sound (reading.vacant Elements.empty.slot rfl) isColon bodyRun

/-- One more clause behind those read so far. -/
theorem Took.pushClause (sound : rules.Sound) {list : Elements} {clause : Positional}
    {tokens : List Token} {origin now later : ParseState} (took : Took origin tokens now)
    (terminated : list.Terminated tokens) (isKeyword : IsClauseKeyword now.current.kind)
    (run : Clean (caseClause rules) now clause later) :
    ∃ longer, tokens.length < longer.length ∧ Took origin longer later ∧
      (list.push clause).Terminated longer := by
  obtain ⟨front, clauseTook, content⟩ := took.read (reads_caseClause sound) run isKeyword
  have longer := List.length_pos_iff.mpr content.ne_nil
  exact ⟨_, by simp; omega, clauseTook, terminated.1, terminated.2.push content⟩

theorem reads_clauses (sound : rules.Sound) :
    Reads (clauses rules) Anywhere Elements.Terminated := by
  intro state list after run lawful _
  refine (Took.refl lawful).iterate Elements.Terminated Elements.Terminated run
    (fun _ => .bind inferInstance fun _ => by split <;> infer_instance) ⟨rfl, .nil⟩ ?_ ?_
  · intro list now tokens next later took terminated step
    rw [Clean.peek_bind_iff] at step
    split at step <;> simp at step
    · next isCase =>
      obtain ⟨clause, clauseRun, rfl⟩ := step
      exact took.pushClause sound terminated (.inl isCase) clauseRun
    · next isDefault =>
      obtain ⟨clause, clauseRun, rfl⟩ := step
      exact took.pushClause sound terminated (.inr isDefault) clauseRun
  · intro list now tokens next later took terminated step
    rw [Clean.peek_bind_iff] at step
    split at step <;> simp at step
    all_goals
      obtain ⟨rfl, rfl, -⟩ := step
      exact ⟨tokens, took, terminated⟩

theorem reads_switchBody (sound : rules.Sound) : Reads (switchBody rules) Anywhere Ending := by
  intro state tree after run lawful _
  simp [switchBody] at run
  obtain ⟨isOpen, list, middle, listRun, isClose, rfl, rfl, -⟩ := run
  have reading := Reading.start .blockStmt (standardShape .blockStmt).anchors lawful
  have reading := reading.token rfl isOpen rfl trivial
  obtain ⟨more, listTook, terminated⟩ := reads_clauses sound listRun reading.lawful trivial
  have reading := reading.terminated rfl rfl listTook terminated
  have reading := reading.token rfl isClose rfl trivial
  exact ⟨_, reading.took,
    reading.close (by decide) (mayFill_blockStmt _) (Solid.single isClose (by decide)),
    Ends.single isClose rfl⟩

/-- The shapes between the keyword of a switch and its body. -/
def switchShapes : List AnchorShape :=
  [(StandardShape.child .init).optional.spaced,
   (StandardShape.token .semicolon ";").together .init,
   (StandardShape.child .tag).optional.spaced]

theorem mayFill_switchStmt : ∀ init tag : Bool,
    mayFill .switchStmt [true, init, init, tag, true] = true := by decide

set_option synthInstance.maxSize 400 in
theorem Reading.switchHeader (sound : rules.Sound) {origin now after : ParseState}
    {whole shapes : List AnchorShape} {slots more : List PositionalSlot} {tokens : List Token}
    (reading : Reading .switchStmt origin whole (switchShapes ++ shapes) slots tokens now False)
    (run : Clean (switchHeader rules) now more after) :
    ∃ tokens init tag, Reading .switchStmt origin whole shapes (slots ++ more) tokens after False ∧
      more.map Slot.isPresent = [init, init, tag] := by
  simp [Grammar.switchHeader] at run
  rcases run with ⟨-, rfl, rfl, -⟩ | ⟨-, stmt, middle, stmtRun, run⟩
  · have reading := (reading.vacant (.child none) rfl).vacant (.token none) rfl
    have reading := reading.vacant (.child none) rfl
    exact ⟨_, false, false, reading.of_slots (by simp), rfl⟩
  · obtain ⟨front, stmtTook, spells⟩ := reads_simple sound false stmtRun reading.lawful trivial
    rcases run with ⟨isSemicolon, run⟩ | ⟨-, tag, tagRun, rfl⟩
    · have reading := reading.child rfl stmtTook spells trivial
      have reading := reading.token rfl isSemicolon rfl trivial
      rcases run with ⟨-, rfl, rfl, -⟩ | ⟨-, stmt', next, stmtRun, tag, tagRun, rfl⟩
      · have reading := reading.vacant (.child none) rfl
        exact ⟨_, true, false, reading.of_slots (by simp [tokenSlot, childSlot]), rfl⟩
      · obtain ⟨rest, stmtTook, spells⟩ := reads_simple sound false stmtRun reading.lawful trivial
        obtain ⟨rfl, spells⟩ := clean_exprOf spells tagRun
        have reading := reading.child rfl stmtTook spells trivial
        exact ⟨_, true, true, reading.of_slots (by simp [tokenSlot, childSlot]), rfl⟩
    · obtain ⟨rfl, spells⟩ := clean_exprOf spells tagRun
      have reading := (reading.vacant (.child none) rfl).vacant (.token none) rfl
      have reading := reading.child rfl stmtTook spells trivial
      exact ⟨_, false, true, reading.of_slots (by simp [childSlot]), rfl⟩

theorem reads_switchStmt (sound : rules.Sound) :
    Reads (switchStmt rules) (· = .switchKw) Spells := by
  intro state tree after run lawful isSwitch
  simp [switchStmt] at run
  obtain ⟨header, middle, headerRun, body, bodyRun, rfl, -⟩ := run
  have reading := Reading.start .switchStmt (standardShape .switchStmt).anchors lawful
  have reading := reading.token rfl isSwitch rfl trivial
  obtain ⟨tokens, init, tag, reading, present⟩ := Reading.switchHeader sound reading headerRun
  obtain ⟨more, bodyTook, ending⟩ := reads_switchBody sound bodyRun reading.lawful trivial
  have reading := reading.child rfl bodyTook ending.1 trivial
  have reading := reading.of_slots (by simp; rfl)
  refine ⟨_, reading.took, reading.close (by decide) ?_ ending.2.solid.append⟩
  simpa [present, tokenSlot, childSlot] using mayFill_switchStmt init tag

/-! ## Statements -/

theorem reads_callStmt (sound : rules.Sound) {kind : NodeKind} {keyword : TokenKind}
    (isCall : kind = .goStmt ∧ keyword = .goKw ∨ kind = .deferStmt ∧ keyword = .deferKw) :
    Reads (callStmt rules kind) (· = keyword) Spells := by
  intro state tree after run lawful isKeyword
  simp [callStmt] at run
  obtain ⟨call, callRun, rfl, -⟩ := run
  have reading := Reading.start kind (standardShape kind).anchors lawful
  rcases isCall with ⟨rfl, rfl⟩ | ⟨rfl, rfl⟩
  all_goals
    have reading := reading.token rfl isKeyword rfl trivial
    obtain ⟨more, callTook, operand⟩ := reads_expr sound true callRun reading.lawful trivial
    have reading := reading.child rfl callTook operand.spells trivial
    exact ⟨_, reading.took, reading.close (by decide) rfl operand.ends.solid.append⟩

theorem reads_returnStmt (sound : rules.Sound) :
    Reads (returnStmt rules) (· = .returnKw) Spells := by
  intro state tree after run lawful isReturn
  have full : ∀ filled : Bool, mayFill .returnStmt [true, filled] = true := by decide
  have reading := Reading.start .returnStmt (standardShape .returnStmt).anchors lawful
  have reading := reading.token rfl isReturn rfl trivial
  simp [returnStmt] at run
  rcases run with ⟨-, rfl, rfl, -⟩ | ⟨-, results, resultsRun, rfl, -⟩
  · have reading := reading.vacant Elements.empty.slot rfl
    exact ⟨_, reading.took, reading.close (by decide) (full false) (Solid.single isReturn (by decide))⟩
  · obtain ⟨more, resultsTook, joined⟩ := reads_exprList sound true resultsRun reading.lawful trivial
    have reading := (reading.separated rfl rfl resultsTook joined.1).settle joined.not_trailing
    refine ⟨_, reading.took, reading.close (by decide) ?_ (joined.1.ends joined.2).solid.append⟩
    exact full _

theorem reads_branchStmt : Reads branchStmt (TokenFits .free) Spells := by
  intro state tree after run lawful fits
  have reading := Reading.start .branchStmt (standardShape .branchStmt).anchors lawful
  have reading := reading.token rfl rfl fits trivial
  simp [branchStmt] at run
  rcases run with ⟨-, label, labelRun, rfl, -⟩ | ⟨-, rfl, rfl, -⟩
  · obtain ⟨more, labelTook, isName⟩ := reads_ident labelRun reading.lawful trivial
    have reading := reading.child rfl labelTook isName.1.spells trivial
    exact ⟨_, reading.took, reading.close (by decide) rfl isName.1.ends.solid.append⟩
  · have reading := reading.vacant (.child none) rfl
    exact ⟨_, reading.took, reading.close (by decide) rfl (Solid.single rfl fits.1)⟩

theorem reads_declStmt (sound : rules.Sound) : Reads (declStmt rules) IsDeclKeyword Spells := by
  intro state tree after run lawful isKeyword
  simp [declStmt] at run
  obtain ⟨decl, declRun, rfl, -⟩ := run
  obtain ⟨tokens, took, spells⟩ := reads_genDecl sound declRun lawful isKeyword
  have reading := Reading.start .declStmt (standardShape .declStmt).anchors lawful
  have reading := reading.child rfl took spells trivial
  exact ⟨_, reading.took, reading.closeVisible (by decide) rfl spells.stopsAt.append.visible⟩

theorem reads_statement (sound : rules.Sound) : Reads (statement rules) Anywhere Spells := by
  intro state tree after run lawful _
  unfold statement at run
  rw [Clean.peek_bind_iff] at run
  split at run
  · next same => exact reads_declStmt sound run lawful (.inr (.inr (.inl same)))
  · next same => exact reads_declStmt sound run lawful (.inr (.inl same))
  · next same => exact reads_declStmt sound run lawful (.inr (.inr (.inr same)))
  · next same => exact reads_returnStmt sound run lawful same
  · next same => exact reads_branchStmt run lawful (by simp [same, TokenFits])
  · next same => exact reads_branchStmt run lawful (by simp [same, TokenFits])
  · next same => exact reads_branchStmt run lawful (by simp [same, TokenFits])
  · next same => exact reads_branchStmt run lawful (by simp [same, TokenFits])
  · next same => exact reads_callStmt sound (.inl ⟨rfl, rfl⟩) run lawful same
  · next same => exact reads_callStmt sound (.inr ⟨rfl, rfl⟩) run lawful same
  · obtain ⟨tokens, took, ending⟩ := reads_block sound run lawful trivial
    exact ⟨tokens, took, ending.1⟩
  · next same => exact reads_conditional sound run lawful same
  · next same => exact reads_loop sound run lawful same
  · next same => exact reads_switchStmt sound run lawful same
  · exact reads_simple sound true run lawful trivial

theorem reads_statements (sound : rules.Sound) :
    Reads (statements rules) Anywhere Elements.Terminated := by
  intro state list after run lawful _
  refine (Took.refl lawful).iterate Elements.Terminated Elements.Terminated run
    (fun _ => inferInstance) ⟨rfl, .nil⟩ ?_ ?_
  · intro list now tokens next later took terminated step
    simp at step
    rcases step with ⟨-, ⟨isSemicolon, rfl, rfl, -⟩ | ⟨-, node, middle, nodeRun, ⟨_, endRun⟩, -, rfl, -⟩⟩
    · have semicolonTook := took.take (by simp [isSemicolon])
      exact ⟨_, by simp, semicolonTook, terminated.1, terminated.2.terminate isSemicolon⟩
    · obtain ⟨front, nodeTook, content⟩ := took.read (reads_statement sound) nodeRun trivial
      obtain ⟨more, endTook, terminator⟩ := nodeTook.read reads_terminator endRun trivial
      have positive := List.length_pos_iff.mpr content.ne_nil
      exact ⟨_, by simp; omega, endTook, terminated.push content terminator⟩
  · intro list now tokens next later took terminated step
    simp at step
    obtain ⟨-, rfl, rfl, -⟩ := step
    exact ⟨tokens, took, terminated⟩

end Grammar

end GoTrivia
