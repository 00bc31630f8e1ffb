import GoTrivia.Proofs.Grammar.Params

/-!
# Types spell their tokens

Each rule for types is followed from its first token to its last.  The rules it refers to
are assumed to be sound (`Rules.Sound`), which is discharged level by level in the end.
-/

set_option autoImplicit false

namespace GoTrivia

namespace Grammar

/-- The rules that may contain themselves read what they should. -/
structure Rules.Sound (rules : Rules) : Prop where
  type : Reads rules.type Anywhere Operand
  binary : ∀ literals least, Reads (rules.binary literals least) Anywhere Operand
  unary : ∀ literals, Reads (rules.unary literals) Anywhere Operand
  elided : Reads rules.elided (· = .leftBrace) Operand
  block : Reads rules.block Anywhere Ending
  statements : Reads rules.statements Anywhere Elements.Terminated
  conditional : Reads rules.conditional (· = .ifKw) Spells

theorem Reads.ending {rule : Parse Positional} {starts : TokenKind → Prop}
    (reads : Reads rule starts Operand) : Reads rule starts Ending := by
  intro state tree after run lawful fits
  obtain ⟨tokens, took, operand⟩ := reads run lawful fits
  exact ⟨tokens, took, operand.ending⟩

variable {rules : Rules} [KeepsRules rules]

/-! ## Signatures -/

/-- The shapes of the results of a function. -/
def resultShapes : List AnchorShape :=
  [(StandardShape.token .resultsOpen "(").optional.spaced,
   (StandardShape.list .results StandardShape.commas).optional.spaced,
   (StandardShape.token .resultsClose ")").together .resultsOpen]

/-- The shapes of the parameters and results of a function. -/
def signatureShapes : List AnchorShape :=
  [StandardShape.token .paramsOpen "(",
   (StandardShape.list .params StandardShape.commas).optional,
   StandardShape.token .paramsClose ")"] ++ resultShapes

/-- Node kinds that have a signature. -/
def HasSignature (kind : NodeKind) : Prop := kind = .funcDecl ∨ kind = .funcType

theorem HasSignature.joins {kind : NodeKind} (isFunction : HasSignature kind) (anchor : Anchor)
    (tokens : List Token) : Joins kind anchor tokens := by
  rcases isFunction with rfl | rfl <;> trivial

omit [KeepsRules rules] in
theorem reads_paramType (sound : rules.Sound) : Reads (paramType rules) Anywhere Ending := by
  intro state tree after run lawful _
  simp [paramType] at run
  rcases run with ⟨isDots, type, typeRun, rfl, -⟩ | ⟨-, run⟩
  · have reading := Reading.start .ellipsis (standardShape .ellipsis).anchors lawful
    have reading := reading.token rfl isDots rfl trivial
    obtain ⟨more, typeTook, operand⟩ := sound.type typeRun reading.lawful trivial
    have reading := reading.child rfl typeTook operand.spells trivial
    exact ⟨_, reading.took, reading.close (by decide) rfl operand.ends.solid.append,
      operand.ends.append⟩
  · exact sound.type.ending run lawful trivial

section Signature

variable {kind : NodeKind} {origin now after : ParseState} {whole shapes : List AnchorShape}
  {slots more : List PositionalSlot} {tokens : List Token}

theorem Reading.results (sound : rules.Sound) (isFunction : HasSignature kind)
    (reading : Reading kind origin whole (resultShapes ++ shapes) slots tokens now False)
    (ends : Ends tokens) (run : Clean (results rules) now more after) :
    ∃ tokens, Reading kind origin whole shapes (slots ++ more) tokens after False ∧
      Ends tokens ∧ ∃ opened filled, more.map Slot.isPresent = [opened, filled, opened] := by
  have joins := isFunction.joins
  simp [Grammar.results] at run
  rcases run with ⟨isParen, list, middle, listRun, ⟨isClose, rfl, -⟩, rfl⟩ |
    ⟨-, ⟨-, type, typeRun, rfl⟩ | ⟨-, rfl, rfl, -⟩⟩
  · have reading := reading.token rfl isParen rfl (joins _ _)
    obtain ⟨front, listTook, delimited⟩ :=
      reads_params .rightParen (reads_paramType sound) listRun reading.lawful trivial
    have reading := reading.separated rfl rfl listTook delimited.1
    have reading := reading.closer rfl isClose rfl (joins _ _) fun _ => rfl
    exact ⟨_, reading.of_slots (by simp [tokenSlot]), Ends.single isClose rfl, true,
      list.slot.isPresent, rfl⟩
  · obtain ⟨front, typeTook, operand⟩ := sound.type typeRun reading.lawful trivial
    have lawful := reading.lawful
    rw [typeTook.split] at lawful
    have field : Ending (fieldOf .empty type) front :=
      ⟨spells_field_unnamed operand.spells lawful, operand.ends⟩
    have joined := Elements.joined_single field
    have reading := (reading.vacant (.token none) rfl).separated rfl rfl typeTook joined.1
    have reading := (reading.settle joined.not_trailing).vacant (.token none) rfl
    exact ⟨_, reading.of_slots (by simp), operand.ends.append, false, true, rfl⟩
  · have reading := (reading.vacant (.token none) rfl).vacant Elements.empty.slot rfl
    have reading := reading.vacant (.token none) rfl
    exact ⟨_, reading.of_slots (by simp), ends, false, false, rfl⟩

theorem Reading.signature (sound : rules.Sound) (isFunction : HasSignature kind)
    (reading : Reading kind origin whole (signatureShapes ++ shapes) slots tokens now False)
    (run : Clean (signature rules) now more after) :
    ∃ tokens, Reading kind origin whole shapes (slots ++ more) tokens after False ∧
      Ends tokens ∧ ∃ params opened filled,
        more.map Slot.isPresent = [true, params, true, opened, filled, opened] := by
  have joins := isFunction.joins
  simp [Grammar.signature] at run
  obtain ⟨isOpen, list, middle, listRun, isClose, slots', resultsRun, rfl⟩ := run
  have reading := reading.token rfl isOpen rfl (joins _ _)
  obtain ⟨front, listTook, delimited⟩ :=
    reads_params .rightParen (reads_paramType sound) listRun reading.lawful trivial
  have reading := reading.separated rfl rfl listTook delimited.1
  have reading := reading.closer rfl isClose rfl (joins _ _) fun _ => rfl
  obtain ⟨tokens, reading, ends, opened, filled, present⟩ :=
    Reading.results sound isFunction reading (Ends.single isClose rfl) resultsRun
  refine ⟨tokens, reading.of_slots (by simp [tokenSlot]), ends, list.slot.isPresent, opened,
    filled, ?_⟩
  simp [present, tokenSlot, Slot.isPresent]

end Signature

theorem mayFill_funcType : ∀ keyword params opened filled : Bool,
    mayFill .funcType [keyword, true, params, true, opened, filled, opened] = true := by
  decide

theorem reads_funcType (sound : rules.Sound) :
    Reads (funcType rules) (· = .funcKw) Operand := by
  intro state tree after run lawful isFunc
  simp [funcType] at run
  obtain ⟨slots, signatureRun, rfl, -⟩ := run
  have reading := Reading.start .funcType (standardShape .funcType).anchors lawful
  have reading := reading.token rfl isFunc rfl trivial
  obtain ⟨tokens, reading, ends, params, opened, filled, present⟩ :=
    Reading.signature sound (.inr rfl) reading signatureRun
  have full : mayFill .funcType ((tokenSlot state.current.toLexeme :: slots).map Slot.isPresent) =
      true := by
    rw [List.map_cons, present]
    exact mayFill_funcType true params opened filled
  exact ⟨tokens, reading.took, reading.operand (by decide) full isFunc rfl ends⟩

/-! ## Constraints -/

/-- An operator in front of an operand makes an operand. -/
theorem operand_unary {state after : ParseState} {tree : Positional} {more : List Token}
    (lawful : Lawful state.tokens) (isUnary : state.current.kind.isUnaryOperator = true)
    (took : Took state.advance more after) (operand : Operand tree more) :
    ∃ tokens, Took state tokens after ∧
      Operand (.node .unaryExpr (.closing state.current.span.start after.lastEnd)
        [tokenSlot state.current.toLexeme, childSlot tree]) tokens := by
  have fits : TokenFits .free state.current.kind := by
    refine ⟨?_, ?_, ?_, ?_⟩ <;> intro same <;> simp [same, TokenKind.isUnaryOperator] at isUnary
  have reading := Reading.start .unaryExpr (standardShape .unaryExpr).anchors lawful
  have reading := reading.token rfl rfl fits (List.forall_mem_singleton.mpr isUnary)
  have reading := reading.child rfl took operand.spells operand.starts
  exact ⟨_, reading.took, reading.operand (by decide) rfl rfl
    (by simp [TokenKind.beginsOperand, isUnary]) operand.ends.append⟩

/-- An operand in parentheses is an operand. -/
theorem operand_paren {state middle : ParseState} {tree : Positional} {more : List Token}
    (lawful : Lawful state.tokens) (isParen : state.current.kind = .leftParen)
    (took : Took state.advance more middle) (operand : Operand tree more)
    (isClose : middle.current.kind = .rightParen) :
    ∃ tokens, Took state tokens middle.advance ∧
      Operand (.node .parenExpr (.closing state.current.span.start middle.advance.lastEnd)
        [tokenSlot state.current.toLexeme, childSlot tree,
         .token (some middle.current.toLexeme)]) tokens := by
  have reading := Reading.start .parenExpr (standardShape .parenExpr).anchors lawful
  have reading := reading.token rfl isParen rfl trivial
  have reading := reading.child rfl took operand.spells trivial
  have reading := reading.token rfl isClose rfl trivial
  exact ⟨_, reading.took, reading.operand (by decide) rfl isParen rfl (Ends.single isClose rfl)⟩

/-- A star in front of an operand makes an operand. -/
theorem operand_star {state after : ParseState} {tree : Positional} {more : List Token}
    (lawful : Lawful state.tokens) (isStar : state.current.kind = .star)
    (took : Took state.advance more after) (operand : Operand tree more) :
    ∃ tokens, Took state tokens after ∧
      Operand (.node .starExpr (.closing state.current.span.start after.lastEnd)
        [tokenSlot state.current.toLexeme, childSlot tree]) tokens := by
  have reading := Reading.start .starExpr (standardShape .starExpr).anchors lawful
  have reading := reading.token rfl isStar rfl trivial
  have reading := reading.child rfl took operand.spells operand.starts
  exact ⟨_, reading.took, reading.operand (by decide) rfl isStar rfl operand.ends.append⟩

/-- Two operands with an operator between them make an operand. -/
theorem operand_binary {origin state after : ParseState} {left right : Positional}
    {tokens more : List Token} (leftTook : Took origin tokens state) (leftOperand : Operand left tokens)
    (fits : TokenFits .free state.current.kind) (took : Took state.advance more after)
    (operand : Operand right more) :
    ∃ longer, tokens.length < longer.length ∧ Took origin longer after ∧
      Operand (.node .binaryExpr (.closing left.info.start after.lastEnd)
        [childSlot left, tokenSlot state.current.toLexeme, childSlot right]) longer := by
  rw [leftTook.start leftOperand.spells]
  have reading := Reading.start .binaryExpr (standardShape .binaryExpr).anchors leftTook.lawful
  have reading := reading.child rfl leftTook leftOperand.spells trivial
  have reading := reading.token rfl rfl fits trivial
  have reading := reading.child rfl took operand.spells trivial
  exact ⟨_, by simp, reading.took, reading.close (by decide) rfl operand.ends.solid.append,
    leftOperand.starts.append.append, operand.ends.append⟩

omit [KeepsRules rules] in
theorem reads_constraintTerm (sound : rules.Sound) :
    Reads (constraintTerm rules) Anywhere Operand := by
  intro state tree after run lawful _
  simp [constraintTerm] at run
  rcases run with ⟨isTilde, x, xRun, rfl, -⟩ | ⟨-, run⟩
  · have tildeTook := (Took.refl lawful).take (by simp [isTilde])
    obtain ⟨more, xTook, operand⟩ := sound.type xRun tildeTook.lawful_after trivial
    exact operand_unary lawful (by rw [isTilde]; rfl) xTook operand
  · exact sound.type run lawful trivial

theorem reads_constraint (sound : rules.Sound) : Reads (constraint rules) Anywhere Operand := by
  intro state tree after run lawful _
  simp [constraint] at run
  obtain ⟨first, middle, firstRun, run⟩ := run
  obtain ⟨tokens, took, operand⟩ := reads_constraintTerm sound firstRun lawful trivial
  refine took.iterate Operand Operand run (fun _ => inferInstance) operand ?_ ?_
  · intro lhs now tokens next later took operand step
    simp at step
    obtain ⟨isPipe, rhs, rhsRun, rfl, -⟩ := step
    have pipeTook := took.take (by simp [isPipe])
    obtain ⟨more, rhsTook, rhsOperand⟩ :=
      reads_constraintTerm sound rhsRun pipeTook.lawful_after trivial
    exact operand_binary took operand (by simp [isPipe, TokenFits]) rhsTook rhsOperand
  · intro lhs now tokens next later took operand step
    simp at step
    obtain ⟨-, rfl, rfl, -⟩ := step
    exact ⟨tokens, took, operand⟩

/-- The shapes of the type parameters of a declaration. -/
def typeParamShapes : List AnchorShape :=
  [(StandardShape.token .typeParamsOpen "[").optional,
   (StandardShape.list .typeParams StandardShape.commas).together .typeParamsOpen,
   (StandardShape.token .typeParamsClose "]").together .typeParamsOpen]

/-- Type parameters in brackets, which are empty only if the brackets meet. -/
theorem Reading.typeParams {kind : NodeKind} {origin now after : ParseState}
    {whole shapes : List AnchorShape} {slots more : List PositionalSlot} {tokens : List Token}
    (sound : rules.Sound) (isDeclaration : kind = .typeSpec ∨ kind = .funcDecl)
    (reading : Reading kind origin whole (typeParamShapes ++ shapes) slots tokens now False)
    (isOpen : now.current.kind = .leftBracket) (run : Clean (typeParams rules) now more after) :
    ∃ tokens filled, Reading kind origin whole shapes (slots ++ more) tokens after False ∧
      more.map Slot.isPresent = [true, filled, true] ∧
      (filled = false → now.advance.current.kind = .rightBracket) := by
  have joins : ∀ anchor tokens, Joins kind anchor tokens := by
    intro anchor tokens
    rcases isDeclaration with rfl | rfl <;> trivial
  simp [Grammar.typeParams] at run
  obtain ⟨list, middle, listRun, ⟨isClose, rfl, -⟩, rfl⟩ := run
  have reading := reading.token rfl isOpen rfl (joins _ _)
  obtain ⟨front, listTook, delimited⟩ :=
    reads_params .rightBracket (reads_constraint sound).ending listRun reading.lawful trivial
  have reading := reading.separated rfl rfl listTook delimited.1
  have reading := reading.closer rfl isClose rfl (joins _ _) fun _ => rfl
  refine ⟨_, list.slot.isPresent, reading.of_slots (by simp [tokenSlot]), rfl, fun none => ?_⟩
  have none : list.nodes = [] := by simpa [Elements.slot, Slot.isPresent] using none
  have split := listTook.split
  rw [delimited.2 none, List.nil_append, ParseState.tokens, ParseState.tokens] at split
  rw [(List.cons.inj split).1, isClose]

/-! ## Members -/

/-- The shapes of a list of members in braces. -/
def memberShapes (anchor : Anchor) : List AnchorShape :=
  [(StandardShape.token .lbrace "\x7b").after .spaceIfContent,
   (StandardShape.list anchor StandardShape.lines).optional, StandardShape.token .rbrace "\x7d"]

theorem Reading.members {kind : NodeKind} {anchor : Anchor} {origin now after : ParseState}
    {whole : List AnchorShape} {slots more : List PositionalSlot} {tokens : List Token}
    {element : Parse Positional} [Keeps element] (reads : Reads element Anywhere Spells)
    (isType : kind = .structType ∨ kind = .interfaceType)
    (reading : Reading kind origin whole (memberShapes anchor) slots tokens now False)
    (run : Clean (members element) now more after) :
    ∃ tokens filled, Reading kind origin whole [] (slots ++ more) tokens after False ∧
      Ends tokens ∧ more.map Slot.isPresent = [true, filled, true] := by
  have joins : ∀ anchor tokens, Joins kind anchor tokens := by
    intro anchor tokens
    rcases isType with rfl | rfl <;> trivial
  simp [Grammar.members] at run
  obtain ⟨isOpen, list, middle, listRun, ⟨isClose, rfl, -⟩, rfl⟩ := run
  have reading := reading.token rfl isOpen rfl (joins _ _)
  obtain ⟨front, listTook, terminated⟩ :=
    reads_terminated .rightBrace reads listRun reading.lawful trivial
  have reading := reading.terminated rfl rfl listTook terminated
  have reading := reading.token rfl isClose rfl (joins _ _)
  exact ⟨_, list.slot.isPresent, reading.of_slots (by simp [tokenSlot]), Ends.single isClose rfl,
    rfl⟩

/-- A field of a structure behind its names. -/
def fieldRest (rules : Rules) (start : Nat) (names : Elements) : Parse Positional := do
  let type ← rules.type
  let tag ← if (← peek) = .string then pure (some (← basicLit)) else pure none
  close .field start [names.slot, childSlot type, .child tag]

/-- Whatever follows its first name, a field has no names or a list of them. -/
theorem clean_structField {state after : ParseState} {tree : Positional}
    (run : Clean (structField rules) state tree after) :
    ∃ names middle, (names = .empty ∧ middle = state ∨ Clean (separated ident) state names middle) ∧
      Clean (fieldRest rules state.current.span.start names) middle tree after := by
  have embedded : Clean (fieldRest rules state.current.span.start .empty) state tree after →
      ∃ names middle,
        (names = .empty ∧ middle = state ∨ Clean (separated ident) state names middle) ∧
        Clean (fieldRest rules state.current.span.start names) middle tree after :=
    fun rest => ⟨.empty, state, .inl ⟨rfl, rfl⟩, rest⟩
  simp only [structField, Clean.here_bind_iff, Clean.peek_bind_iff, pure_bind, Clean.ite_iff] at run
  rcases run with ⟨-, run⟩ | ⟨-, run⟩
  · exact embedded (by simpa [fieldRest] using run)
  · rw [Clean.ahead_bind_iff] at run
    split at run
    case h_5 =>
      obtain ⟨names, middle, namesRun, rest⟩ := Clean.bind_iff.mp run
      exact ⟨names, middle, .inr namesRun, by simpa [fieldRest] using rest⟩
    all_goals exact embedded (by simpa [fieldRest] using run)

theorem reads_structField (sound : rules.Sound) :
    Reads (structField rules) Anywhere Spells := by
  intro state tree after run lawful _
  obtain ⟨names, middle, namesRun, run⟩ := clean_structField run
  obtain ⟨tokens, reading⟩ : ∃ tokens, Reading .field state (standardShape .field).anchors
      [(StandardShape.child .type).after .spaceUnlessParen, (StandardShape.child .tag).optional.spaced]
      [names.slot] tokens middle False := by
    have reading := Reading.start .field (standardShape .field).anchors lawful
    rcases namesRun with ⟨rfl, rfl⟩ | namesRun
    · exact ⟨_, reading.vacant Elements.empty.slot rfl⟩
    · obtain ⟨front, took, joined⟩ := reads_separated reads_identEnding namesRun lawful trivial
      exact ⟨_, (reading.separated rfl rfl took joined.1).settle joined.not_trailing⟩
  have filled : ∀ names tag : Bool, mayFill .field [names, true, tag] = true := by decide
  simp [fieldRest] at run
  obtain ⟨type, next, typeRun, ⟨isString, tag, tagRun, rfl, -⟩ | ⟨-, rfl, rfl, -⟩⟩ := run
  · obtain ⟨more, typeTook, operand⟩ := sound.type typeRun reading.lawful trivial
    have reading := reading.child rfl typeTook operand.spells trivial
    obtain ⟨more, tagTook, literal⟩ := reads_basicLit tagRun reading.lawful (by rw [isString]; rfl)
    have reading := reading.child rfl tagTook literal.spells trivial
    exact ⟨_, reading.took, reading.close (by decide) (filled _ true) literal.ends.solid.append⟩
  · obtain ⟨more, typeTook, operand⟩ := sound.type typeRun reading.lawful trivial
    have reading := (reading.child rfl typeTook operand.spells trivial).vacant (.child none) rfl
    exact ⟨_, reading.took, reading.close (by decide) (filled _ false) operand.ends.solid.append⟩

theorem reads_structType (sound : rules.Sound) :
    Reads (structType rules) (· = .structKw) Operand := by
  intro state tree after run lawful isStruct
  simp [structType] at run
  obtain ⟨slots, membersRun, rfl, -⟩ := run
  have reading := Reading.start .structType (standardShape .structType).anchors lawful
  have reading := reading.token rfl isStruct rfl trivial
  obtain ⟨tokens, filled, reading, ends, present⟩ :=
    Reading.members (reads_structField sound) (.inl rfl) reading membersRun
  have full : mayFill .structType ((tokenSlot state.current.toLexeme :: slots).map Slot.isPresent) =
      true := by
    rw [List.map_cons, present]
    cases filled <;> rfl
  exact ⟨tokens, reading.took, reading.operand (by decide) full isStruct rfl ends⟩

theorem reads_interfaceMember (sound : rules.Sound) :
    Reads (interfaceMember rules) Anywhere Spells := by
  intro state tree after run lawful _
  simp [interfaceMember] at run
  have reading := Reading.start .field (standardShape .field).anchors lawful
  rcases run with ⟨-, name, middle, nameRun, slots, signatureRun, rfl, -⟩ | ⟨-, type, typeRun, rfl, -⟩
  · obtain ⟨front, nameTook, isName⟩ := reads_ident nameRun lawful trivial
    have joined := Elements.joined_single isName.1.ending
    have reading := (reading.separated rfl rfl nameTook joined.1).settle joined.not_trailing
    -- The signature is a node of its own, which begins at its parenthesis.
    have inner := Reading.start .funcType (standardShape .funcType).anchors reading.lawful
    have inner := inner.vacant (.token none) rfl
    obtain ⟨more, inner, ends, params, opened, filled, present⟩ :=
      Reading.signature sound (.inr rfl) inner signatureRun
    have full : mayFill .funcType ((.token none :: slots).map Slot.isPresent) = true := by
      rw [List.map_cons, present]
      exact mayFill_funcType false params opened filled
    have reading := reading.child rfl inner.took (inner.close (by decide) full ends.solid) trivial
    have reading := reading.vacant (.child none) rfl
    exact ⟨_, reading.took, reading.close (by decide) rfl ends.solid.append⟩
  · obtain ⟨more, typeTook, operand⟩ := reads_constraint sound typeRun lawful trivial
    have reading := reading.vacant Elements.empty.slot rfl
    have reading := (reading.child rfl typeTook operand.spells trivial).vacant (.child none) rfl
    exact ⟨_, reading.took, reading.close (by decide) rfl operand.ends.solid.append⟩

theorem reads_interfaceType (sound : rules.Sound) :
    Reads (interfaceType rules) (· = .interfaceKw) Operand := by
  intro state tree after run lawful isInterface
  simp [interfaceType] at run
  obtain ⟨slots, membersRun, rfl, -⟩ := run
  have reading := Reading.start .interfaceType (standardShape .interfaceType).anchors lawful
  have reading := reading.token rfl isInterface rfl trivial
  obtain ⟨tokens, filled, reading, ends, present⟩ :=
    Reading.members (reads_interfaceMember sound) (.inr rfl) reading membersRun
  have full : mayFill .interfaceType
      ((tokenSlot state.current.toLexeme :: slots).map Slot.isPresent) = true := by
    rw [List.map_cons, present]
    cases filled <;> rfl
  exact ⟨tokens, reading.took, reading.operand (by decide) full isInterface rfl ends⟩

/-! ## Types -/

/-- Type arguments behind an operand make an operand. -/
theorem operand_typeArgs {origin state after : ParseState} {base tree : Positional}
    {tokens : List Token} (sound : rules.Sound) (took : Took origin tokens state)
    (operand : Operand base tokens) (isOpen : state.current.kind = .leftBracket)
    (run : Clean (typeArgs rules base) state tree after) :
    ∃ tokens, Took origin tokens after ∧ Operand tree tokens := by
  unfold typeArgs at run
  rw [Clean.take_bind_iff] at run
  obtain ⟨args, middle, argsRun, run⟩ := run.of_bind fun args =>
    .bind inferInstance fun rbrack => by split <;> infer_instance
  obtain ⟨isClose, run⟩ := run.of_expect (by split <;> infer_instance)
  have openTook := took.take (by simp [isOpen])
  obtain ⟨more, argsTook, delimited⟩ :=
    reads_delimited .rightBracket sound.type.ending argsRun openTook.lawful_after trivial
  split at run
  · next index =>
    simp at run
    obtain ⟨rfl, rfl, -⟩ := run
    rw [took.start operand.spells]
    have reading := Reading.start .indexExpr (standardShape .indexExpr).anchors took.lawful
    have reading := reading.child rfl took operand.spells trivial
    have reading := reading.token rfl isOpen rfl trivial
    have reading := reading.child rfl argsTook (by
      cases delimited.1 with
      | last content ends => exact content) trivial
    have reading := reading.token rfl isClose rfl trivial
    exact ⟨_, reading.took, reading.close (by decide) rfl (Solid.single isClose (by decide)),
      operand.starts.append.append.append, Ends.single isClose rfl⟩
  · simp at run
    obtain ⟨rfl, rfl, -⟩ := run
    rw [took.start operand.spells]
    have reading := Reading.start .indexListExpr (standardShape .indexListExpr).anchors took.lawful
    have reading := reading.child rfl took operand.spells trivial
    have reading := reading.token rfl isOpen rfl trivial
    have reading := reading.separated rfl rfl argsTook delimited.1
    have reading := reading.closer rfl isClose rfl trivial fun _ => rfl
    have full : ∀ filled : Bool, mayFill .indexListExpr [true, true, filled, true] = true := by
      decide
    exact ⟨_, reading.took, reading.close (by decide) (full _) (Solid.single isClose (by decide)),
      operand.starts.append.append.append, Ends.single isClose rfl⟩

/-- A selector behind an operand makes an operand. -/
theorem operand_selector {origin state after : ParseState} {x sel : Positional}
    {tokens : List Token} (took : Took origin tokens state) (operand : Operand x tokens)
    (isDot : state.current.kind = .dot) (run : Clean ident state.advance sel after) :
    ∃ longer, tokens.length < longer.length ∧ Took origin longer after ∧
      Operand (.node .selectorExpr (.closing x.info.start after.lastEnd)
        [childSlot x, tokenSlot state.current.toLexeme, childSlot sel]) longer := by
  rw [took.start operand.spells]
  have reading := Reading.start .selectorExpr (standardShape .selectorExpr).anchors took.lawful
  have reading := reading.child rfl took operand.spells operand.ends
  have reading := reading.token rfl isDot rfl trivial
  obtain ⟨more, nameTook, isName⟩ := reads_ident run reading.lawful trivial
  have reading := reading.child rfl nameTook isName.1.spells isName.2
  exact ⟨_, by simp, reading.took, reading.close (by decide) rfl isName.1.ends.solid.append,
    operand.starts.append.append, isName.1.ends.append⟩

theorem reads_typeName (sound : rules.Sound) :
    Reads (typeName rules) Anywhere Operand := by
  intro state tree after run lawful _
  simp [typeName] at run
  obtain ⟨name, middle, nameRun, run⟩ := run
  obtain ⟨tokens, took, isName⟩ := reads_ident nameRun lawful trivial
  rcases run with ⟨isDot, sel, next, selRun, run⟩ | ⟨-, run⟩
  · obtain ⟨tokens, -, took, operand⟩ := operand_selector took isName.1 isDot selRun
    rcases run with ⟨isOpen, run⟩ | ⟨-, rfl, rfl, -⟩
    · exact operand_typeArgs sound took operand isOpen run
    · exact ⟨tokens, took, operand⟩
  · rcases run with ⟨isOpen, run⟩ | ⟨-, rfl, rfl, -⟩
    · exact operand_typeArgs sound took isName.1 isOpen run
    · exact ⟨tokens, took, isName.1⟩

theorem reads_arrayType (sound : rules.Sound) :
    Reads (arrayType rules) (· = .leftBracket) Operand := by
  intro state tree after run lawful isOpen
  simp [arrayType] at run
  obtain ⟨length, middle, lengthRun, isClose, elt, eltRun, rfl, -⟩ := run
  have reading := Reading.start .arrayType (standardShape .arrayType).anchors lawful
  have reading := reading.token rfl isOpen rfl trivial
  obtain ⟨tokens, reading⟩ : ∃ tokens, Reading .arrayType state (standardShape .arrayType).anchors
      [StandardShape.token .rbrack "]", StandardShape.child .elt]
      [tokenSlot state.current.toLexeme, .child length] tokens middle False := by
    unfold arrayLength at lengthRun
    rw [Clean.peek_bind_iff] at lengthRun
    split at lengthRun
    · simp at lengthRun
      obtain ⟨rfl, rfl, -⟩ := lengthRun
      exact ⟨_, reading.vacant (.child none) rfl⟩
    · next isDots =>
      simp at lengthRun
      obtain ⟨⟨rfl, -⟩, rfl⟩ := lengthRun
      have inner := Reading.start .ellipsis (standardShape .ellipsis).anchors reading.lawful
      have inner := (inner.token rfl isDots rfl trivial).vacant (.child none) rfl
      have dots := inner.close (by decide) rfl (Solid.single isDots (by decide))
      exact ⟨_, reading.child rfl inner.took dots trivial⟩
    · simp at lengthRun
      obtain ⟨x, xRun, rfl⟩ := lengthRun
      obtain ⟨more, xTook, operand⟩ := sound.binary _ _ xRun reading.lawful trivial
      exact ⟨_, reading.child rfl xTook operand.spells trivial⟩
  have reading := reading.token rfl isClose rfl trivial
  obtain ⟨more, eltTook, operand⟩ := sound.type eltRun reading.lawful trivial
  have reading := reading.child rfl eltTook operand.spells trivial
  have full : ∀ filled : Bool, mayFill .arrayType [true, filled, true, true] = true := by decide
  exact ⟨_, reading.took, reading.operand (by decide) (full _) isOpen rfl operand.ends.append⟩

theorem reads_mapType (sound : rules.Sound) : Reads (mapType rules) (· = .mapKw) Operand := by
  intro state tree after run lawful isMap
  simp [mapType] at run
  obtain ⟨isOpen, key, middle, keyRun, isClose, value, valueRun, rfl, -⟩ := run
  have reading := Reading.start .mapType (standardShape .mapType).anchors lawful
  have reading := reading.token rfl isMap rfl trivial
  have reading := reading.token rfl isOpen rfl trivial
  obtain ⟨more, keyTook, keyOperand⟩ := sound.type keyRun reading.lawful trivial
  have reading := reading.child rfl keyTook keyOperand.spells trivial
  have reading := reading.token rfl isClose rfl trivial
  obtain ⟨more, valueTook, operand⟩ := sound.type valueRun reading.lawful trivial
  have reading := reading.child rfl valueTook operand.spells trivial
  exact ⟨_, reading.took, reading.operand (by decide) rfl isMap rfl operand.ends.append⟩

theorem reads_type (sound : rules.Sound) : Reads (type rules) Anywhere Operand := by
  intro state tree after run lawful _
  unfold Grammar.type at run
  rw [Clean.peek_bind_iff] at run
  split at run
  · exact reads_typeName sound run lawful trivial
  · next isStar =>
    simp at run
    obtain ⟨x, xRun, rfl, -⟩ := run
    have starTook := (Took.refl lawful).take (by simp [isStar])
    obtain ⟨more, xTook, operand⟩ := sound.type xRun starTook.lawful_after trivial
    exact operand_star lawful isStar xTook operand
  · next isOpen => exact reads_arrayType sound run lawful isOpen
  · next isMap => exact reads_mapType sound run lawful isMap
  · next isFunc => exact reads_funcType sound run lawful isFunc
  · next isStruct => exact reads_structType sound run lawful isStruct
  · next isInterface => exact reads_interfaceType sound run lawful isInterface
  · next isParen =>
    simp at run
    obtain ⟨x, middle, xRun, isClose, rfl, rfl, -⟩ := run
    have parenTook := (Took.refl lawful).take (by simp [isParen])
    obtain ⟨more, xTook, operand⟩ := sound.type xRun parenTook.lawful_after trivial
    exact operand_paren lawful isParen xTook operand isClose
  · simp at run

end Grammar

end GoTrivia
