import GoTrivia.Proofs.Grammar.Types

/-!
# Expressions spell their tokens

Whatever follows an operand makes a longer operand out of it, and so does a binary operator
with its right operand.  Both are repetitions whose invariant is that what was gathered so
far is an operand.
-/

set_option autoImplicit false

namespace GoTrivia

namespace Grammar

variable {rules : Rules} [KeepsRules rules]

section Behind

variable {origin state after : ParseState} {x tree : Positional} {tokens : List Token}

/-! ## What follows an operand -/

omit [KeepsRules rules] in
theorem operand_selectorOrAssertion (sound : rules.Sound) (took : Took origin tokens state)
    (operand : Operand x tokens) (isDot : state.current.kind = .dot)
    (run : Clean (selectorOrAssertion rules x) state tree after) :
    ∃ longer, tokens.length < longer.length ∧ Took origin longer after ∧ Operand tree longer := by
  simp [selectorOrAssertion] at run
  rcases run with ⟨ahead, run⟩ | ⟨-, sel, selRun, rfl, -⟩
  · obtain ⟨asserted, middle, more, assertedTook, asserts, isClose, rfl, rfl⟩ :
        ∃ asserted middle more, Took state.advance.advance more middle ∧ Spells asserted more ∧
          middle.current.kind = .rightParen ∧ tree =
            .node .typeAssertExpr (.closing x.span.start middle.advance.lastEnd)
              [childSlot x, tokenSlot state.current.toLexeme,
               tokenSlot state.advance.current.toLexeme, childSlot asserted,
               .token (some middle.current.toLexeme)] ∧ after = middle.advance := by
      have isParen := ParseState.kind_advance ahead (by decide)
      have parenTook := (took.take (by simp [isDot])).take (by simp [isParen])
      rcases run with ⟨isType, type, middle, typeRun, isClose, rfl, rfl, -⟩ |
        ⟨-, type, middle, typeRun, isClose, rfl, rfl, -⟩
      · obtain ⟨more, typeTook, leaf⟩ := reads_takeIdent typeRun parenTook.lawful_after
          (by simp [isType, TokenFits])
        exact ⟨type, middle, more, typeTook, leaf.1, isClose, rfl, rfl⟩
      · obtain ⟨more, typeTook, operand⟩ := sound.type typeRun parenTook.lawful_after trivial
        exact ⟨type, middle, more, typeTook, operand.spells, isClose, rfl, rfl⟩
    rw [took.start operand.spells]
    have reading := Reading.start .typeAssertExpr (standardShape .typeAssertExpr).anchors took.lawful
    have reading := reading.child rfl took operand.spells operand.ends
    have reading := reading.token rfl isDot rfl trivial
    have reading := reading.token rfl (ParseState.kind_advance ahead (by decide)) rfl trivial
    have reading := reading.child rfl assertedTook asserts trivial
    have reading := reading.token rfl isClose rfl trivial
    exact ⟨_, by simp, reading.took, reading.close (by decide) rfl (Solid.single isClose (by decide)),
      operand.starts.append.append.append.append, Ends.single isClose rfl⟩
  · exact operand_selector took operand isDot selRun

omit [KeepsRules rules] in
/-- The rest of a slice expression from its colon on. -/
theorem operand_sliceFrom (sound : rules.Sound) {lbrack : Lexeme} {low : Option Positional}
    (reading : Reading .sliceExpr origin (standardShape .sliceExpr).anchors
      [StandardShape.token .colon ":", (StandardShape.child .high).optional,
       StandardShape.token .rbrack "]"]
      [childSlot x, tokenSlot lbrack, .child low] tokens state False)
    (starts : Starts tokens) (begins : x.info.start = origin.current.span.start)
    (isColon : state.current.kind = .colon)
    (run : Clean (sliceFrom rules x lbrack low) state tree after) :
    ∃ longer, tokens.length < longer.length ∧ Took origin longer after ∧ Operand tree longer := by
  have full : ∀ low high : Bool, mayFill .sliceExpr [true, true, low, true, high, true] = true := by
    decide
  have reading := reading.token rfl isColon rfl trivial
  simp [sliceFrom, begins] at run
  rcases run with ⟨isClose, rfl, rfl, -⟩ | ⟨-, high, middle, highRun, isClose, rfl, rfl, -⟩
  · have reading := reading.vacant (.child none) rfl
    have reading := reading.token rfl isClose rfl trivial
    exact ⟨_, by simp, reading.took,
      reading.close (by decide) (full _ false) (Solid.single isClose (by decide)), starts.append.append,
      Ends.single isClose rfl⟩
  · obtain ⟨more, highTook, operand⟩ := sound.binary _ _ highRun reading.lawful trivial
    have reading := reading.child rfl highTook operand.spells operand.starts
    have reading := reading.token rfl isClose rfl trivial
    exact ⟨_, by simp, reading.took,
      reading.close (by decide) (full _ true) (Solid.single isClose (by decide)),
      starts.append.append.append, Ends.single isClose rfl⟩

theorem operand_indexOrSlice (sound : rules.Sound) (took : Took origin tokens state)
    (operand : Operand x tokens) (isOpen : state.current.kind = .leftBracket)
    (run : Clean (indexOrSlice rules x) state tree after) :
    ∃ longer, tokens.length < longer.length ∧ Took origin longer after ∧ Operand tree longer := by
  have begins := took.start operand.spells
  unfold indexOrSlice at run
  rw [Clean.take_bind_iff, Clean.peek_bind_iff, Clean.ite_iff] at run
  rcases run with ⟨isColon, run⟩ | ⟨-, run⟩
  · have reading := Reading.start .sliceExpr (standardShape .sliceExpr).anchors took.lawful
    have reading := reading.child rfl took operand.spells trivial
    have reading := reading.token rfl isOpen rfl trivial
    have reading := reading.vacant (.child none) rfl
    obtain ⟨longer, more, result⟩ := operand_sliceFrom sound reading operand.starts.append begins isColon run
    exact ⟨longer, by simp at more; omega, result⟩
  · obtain ⟨first, middle, firstRun, run⟩ := run.of_bind fun first =>
      .bind inferInstance fun kind => by split <;> infer_instance
    rw [Clean.peek_bind_iff] at run
    have openTook := took.take (by simp [isOpen])
    obtain ⟨more, firstTook, firstOperand⟩ := sound.binary _ _ firstRun openTook.lawful_after trivial
    split at run
    · next isColon =>
      have reading := Reading.start .sliceExpr (standardShape .sliceExpr).anchors took.lawful
      have reading := reading.child rfl took operand.spells trivial
      have reading := reading.token rfl isOpen rfl trivial
      have reading := reading.child rfl firstTook firstOperand.spells trivial
      obtain ⟨longer, more, result⟩ :=
        operand_sliceFrom sound reading operand.starts.append.append begins isColon run
      exact ⟨longer, by simp at more; omega, result⟩
    · next isComma =>
      simp [begins] at run
      obtain ⟨rest, next, restRun, isClose, rfl, rfl, -⟩ := run
      have reading := Reading.start .indexListExpr (standardShape .indexListExpr).anchors took.lawful
      have reading := reading.child rfl took operand.spells trivial
      have reading := reading.token rfl isOpen rfl trivial
      have commaTook := firstTook.take (by simp [isComma])
      obtain ⟨restTokens, restTook, delimited⟩ := commaTook.read
        (reads_delimited .rightBracket sound.type.ending) restRun trivial
      have list := ((Elements.joined_single firstOperand.ending).separate isComma).append delimited
      have reading := reading.separated rfl rfl restTook list
      have reading := reading.closer rfl isClose rfl trivial fun _ => rfl
      exact ⟨_, by simp, reading.took, reading.close (by decide) rfl (Solid.single isClose (by decide)),
        operand.starts.append.append.append, Ends.single isClose rfl⟩
    · simp [begins] at run
      obtain ⟨isClose, rfl, rfl, -⟩ := run
      have reading := Reading.start .indexExpr (standardShape .indexExpr).anchors took.lawful
      have reading := reading.child rfl took operand.spells trivial
      have reading := reading.token rfl isOpen rfl trivial
      have reading := reading.child rfl firstTook firstOperand.spells trivial
      have reading := reading.token rfl isClose rfl trivial
      exact ⟨_, by simp, reading.took, reading.close (by decide) rfl (Solid.single isClose (by decide)),
        operand.starts.append.append.append, Ends.single isClose rfl⟩

/-! ## Calls -/

/-- The arguments of a call end in front of the closing parenthesis, or with dots behind the
last one. -/
theorem clean_arguments {args : Elements} {dots : Option Lexeme} (sound : rules.Sound)
    (lawful : Lawful state.tokens) (run : Clean (arguments rules) state (args, dots) after) :
    ∃ middle tokens, Took state tokens middle ∧
      (dots = none ∧ after = middle ∧ args.Separated tokens ∨
        middle.current.kind = .ellipsis ∧ dots = some middle.current.toLexeme ∧
          after = middle.advance ∧ args.Joined tokens) := by
  refine Clean.iterate
    (fun gathered now => ∃ tokens, Took state tokens now ∧ gathered.1.Open tokens)
    (fun result after => ∃ middle tokens, Took state tokens middle ∧
      (result.2 = none ∧ after = middle ∧ result.1.Separated tokens ∨
        middle.current.kind = .ellipsis ∧ result.2 = some middle.current.toLexeme ∧
          after = middle.advance ∧ result.1.Joined tokens))
    run ?_ ⟨[], .refl lawful, Elements.open_empty⟩ ?_ ?_
  · intro gathered
    refine .bind inferInstance fun kind => ?_
    split
    · infer_instance
    · refine .bind inferInstance fun arg => .bind inferInstance fun next => ?_
      split <;> infer_instance
  · rintro ⟨args, _⟩ now next later ⟨tokens, took, isOpen⟩ step
    simp only [Clean.peek_bind_iff, Clean.ite_iff] at step
    rcases step with ⟨-, step⟩ | ⟨-, step⟩
    · simp at step
    · obtain ⟨arg, middle, argRun, step⟩ := step.of_bind fun arg =>
        .bind inferInstance fun next => by split <;> infer_instance
      obtain ⟨more, argTook, operand⟩ := took.read (sound.binary _ _) argRun trivial
      rw [Clean.peek_bind_iff] at step
      split at step
      · simp at step
      · next isComma =>
        simp at step
        obtain ⟨⟨rfl, -⟩, rfl⟩ := step
        have commaTook := argTook.take (by simp [isComma])
        exact ⟨⟨_, commaTook, (isOpen.push operand.ending).separate isComma⟩,
          took.shorter commaTook (by simp)⟩
      · simp at step
  · rintro ⟨args, _⟩ now next later ⟨tokens, took, isOpen⟩ step
    simp only [Clean.peek_bind_iff, Clean.ite_iff] at step
    rcases step with ⟨-, step⟩ | ⟨-, step⟩
    · simp at step
      obtain ⟨rfl, rfl, -⟩ := step
      exact ⟨_, tokens, took, .inl ⟨rfl, rfl, isOpen.1⟩⟩
    · obtain ⟨arg, middle, argRun, step⟩ := step.of_bind fun arg =>
        .bind inferInstance fun next => by split <;> infer_instance
      obtain ⟨more, argTook, operand⟩ := took.read (sound.binary _ _) argRun trivial
      have joined := isOpen.push operand.ending
      rw [Clean.peek_bind_iff] at step
      split at step
      · next isDots =>
        simp at step
        obtain ⟨⟨rfl, -⟩, rfl⟩ := step
        exact ⟨middle, _, argTook, .inr ⟨isDots, rfl, rfl, joined⟩⟩
      · simp at step
      · simp at step
        obtain ⟨rfl, rfl, -⟩ := step
        exact ⟨_, _, argTook, .inl ⟨rfl, rfl, joined.1⟩⟩

theorem operand_call (sound : rules.Sound) (took : Took origin tokens state)
    (operand : Operand x tokens) (isOpen : state.current.kind = .leftParen)
    (run : Clean (call rules x) state tree after) :
    ∃ longer, tokens.length < longer.length ∧ Took origin longer after ∧ Operand tree longer := by
  simp [call, took.start operand.spells] at run
  obtain ⟨args, dots, middle, argsRun, isClose, rfl, rfl, -⟩ := run
  have reading := Reading.start .callExpr (standardShape .callExpr).anchors took.lawful
  have reading := reading.child rfl took operand.spells trivial
  have reading := reading.token rfl isOpen rfl trivial
  have full : ∀ args dots : Bool, mayFill .callExpr [true, true, args, dots, true] = true := by
    decide
  obtain ⟨next, more, argsTook, ⟨rfl, rfl, list⟩ | ⟨isDots, rfl, rfl, joined⟩⟩ :=
    clean_arguments sound reading.lawful argsRun
  · have reading := (reading.separated rfl rfl argsTook list).vacant (.token none) rfl
    have reading := reading.closer rfl isClose rfl trivial fun _ => rfl
    exact ⟨_, by simp, reading.took,
      reading.close (by decide) (full _ false) (Solid.single isClose (by decide)),
      operand.starts.append.append.append, Ends.single isClose rfl⟩
  · have reading := (reading.separated rfl rfl argsTook joined.1).settle joined.not_trailing
    have reading := reading.token rfl isDots rfl trivial
    have reading := reading.token rfl isClose rfl trivial
    exact ⟨_, by simp, reading.took,
      reading.close (by decide) (full _ true) (Solid.single isClose (by decide)),
      operand.starts.append.append.append.append, Ends.single isClose rfl⟩

/-! ## Literals -/

omit [KeepsRules rules] in
theorem reads_elementValue (sound : rules.Sound) :
    Reads (elementValue rules) Anywhere Operand := by
  intro state tree after run lawful _
  simp [elementValue] at run
  rcases run with ⟨isBrace, run⟩ | ⟨-, run⟩
  · exact sound.elided run lawful isBrace
  · exact sound.binary _ _ run lawful trivial

theorem reads_element (sound : rules.Sound) : Reads (element rules) Anywhere Operand := by
  intro state tree after run lawful _
  simp [element] at run
  obtain ⟨key, middle, keyRun, run⟩ := run
  obtain ⟨tokens, took, operand⟩ := reads_elementValue sound keyRun lawful trivial
  rcases run with ⟨isColon, value, valueRun, rfl, -⟩ | ⟨-, rfl, rfl, -⟩
  · rw [took.start operand.spells]
    have reading := Reading.start .keyValueExpr (standardShape .keyValueExpr).anchors took.lawful
    have reading := reading.child rfl took operand.spells trivial
    have reading := reading.token rfl isColon rfl trivial
    obtain ⟨more, valueTook, valueOperand⟩ :=
      reads_elementValue sound valueRun reading.lawful trivial
    have reading := reading.child rfl valueTook valueOperand.spells trivial
    exact ⟨_, reading.took, reading.close (by decide) rfl valueOperand.ends.solid.append,
      operand.starts.append.append, valueOperand.ends.append⟩
  · exact ⟨tokens, took, operand⟩

/-- A composite literal behind its type, if it has one. -/
theorem operand_compositeLit (sound : rules.Sound) {type : Option Positional}
    (reading : Reading .compositeLit origin (standardShape .compositeLit).anchors
      [StandardShape.token .lbrace "\x7b",
       (StandardShape.list .elts StandardShape.commas).optional,
       StandardShape.token .rbrace "\x7d"] [.child type] tokens state False)
    (starts : ∀ more, Starts (tokens ++ (state.current :: more)))
    (isBrace : state.current.kind = .leftBrace)
    (run : Clean (compositeLit rules origin.current.span.start type) state tree after) :
    ∃ longer, tokens.length < longer.length ∧ Took origin longer after ∧ Operand tree longer := by
  simp [compositeLit] at run
  obtain ⟨elts, middle, eltsRun, isClose, rfl, rfl, -⟩ := run
  have reading := reading.token rfl isBrace rfl trivial
  obtain ⟨more, eltsTook, delimited⟩ :=
    reads_delimited .rightBrace (reads_element sound).ending eltsRun reading.lawful trivial
  have reading := reading.separated rfl rfl eltsTook delimited.1
  have reading := reading.closer rfl isClose rfl trivial fun _ => rfl
  have full : ∀ type elts : Bool, mayFill .compositeLit [type, true, elts, true] = true := by decide
  refine ⟨_, by simp, reading.took,
    reading.close (by decide) (full _ _) (Solid.single isClose (by decide)), ?_, Ends.single isClose rfl⟩
  simpa using starts (more ++ [middle.current])

theorem reads_elided (sound : rules.Sound) : Reads (elided rules) (· = .leftBrace) Operand := by
  intro state tree after run lawful isBrace
  simp [elided] at run
  have reading := Reading.start .compositeLit (standardShape .compositeLit).anchors lawful
  obtain ⟨longer, -, took, operand⟩ := operand_compositeLit sound
    (reading.vacant (.child none) rfl) (fun more => ⟨_, rfl, by rw [isBrace]; rfl⟩) isBrace run
  exact ⟨longer, took, operand⟩

/-! ## Operands -/

theorem reads_funcLit (sound : rules.Sound) : Reads (funcLit rules) (· = .funcKw) Operand := by
  intro state tree after run lawful isFunc
  simp [funcLit] at run
  obtain ⟨type, middle, typeRun, run⟩ := run
  obtain ⟨tokens, took, operand⟩ := reads_funcType sound typeRun lawful isFunc
  rcases run with ⟨-, body, bodyRun, rfl, -⟩ | ⟨-, rfl, rfl, -⟩
  · rw [took.start operand.spells]
    have reading := Reading.start .funcLit (standardShape .funcLit).anchors took.lawful
    have reading := reading.child rfl took operand.spells trivial
    obtain ⟨more, bodyTook, body⟩ := sound.block bodyRun reading.lawful trivial
    have reading := reading.child rfl bodyTook body.1 trivial
    exact ⟨_, reading.took, reading.operand (by decide) rfl isFunc rfl body.2.append⟩
  · exact ⟨tokens, took, operand⟩

theorem reads_operand (sound : rules.Sound) : Reads (operand rules) Anywhere Operand := by
  intro state tree after run lawful _
  unfold Grammar.operand at run
  rw [Clean.peek_bind_iff, Clean.ite_iff] at run
  rcases run with ⟨literal, run⟩ | ⟨-, run⟩
  · exact reads_basicLit run lawful literal
  · split at run
    · obtain ⟨tokens, took, isName⟩ := reads_ident run lawful trivial
      exact ⟨tokens, took, isName.1⟩
    · next isParen =>
      simp at run
      obtain ⟨x, middle, xRun, isClose, rfl, rfl, -⟩ := run
      have parenTook := (Took.refl lawful).take (by simp [isParen])
      obtain ⟨more, xTook, operand⟩ := sound.binary _ _ xRun parenTook.lawful_after trivial
      exact operand_paren lawful isParen xTook operand isClose
    · next isFunc => exact reads_funcLit sound run lawful isFunc
    iterate 4 exact reads_type sound run lawful trivial
    simp at run

theorem reads_primary (sound : rules.Sound) (literals : Bool) :
    Reads (primary rules literals) Anywhere Operand := by
  unfold primary
  refine (reads_operand sound).iterate (fun x => ?_) ?_ ?_
  · refine .bind inferInstance fun kind => ?_
    split <;> infer_instance
  · intro origin x now tokens next later took operand step
    rw [Clean.peek_bind_iff] at step
    split at step
    · next isDot =>
      simp at step
      exact operand_selectorOrAssertion sound took operand isDot step
    · next isOpen =>
      simp at step
      exact operand_indexOrSlice sound took operand isOpen step
    · next isOpen =>
      simp at step
      exact operand_call sound took operand isOpen step
    · next isBrace =>
      simp at step
      have step := step.2
      rw [took.start operand.spells] at step
      have reading := Reading.start .compositeLit (standardShape .compositeLit).anchors took.lawful
      exact operand_compositeLit sound (reading.child rfl took operand.spells trivial)
        (fun more => operand.starts.append) isBrace step
    · simp at step
  · intro origin x now tokens next later took operand step
    rw [Clean.peek_bind_iff] at step
    split at step
    iterate 3 simp at step
    · simp at step
      obtain ⟨-, rfl, rfl, -⟩ := step
      exact ⟨tokens, took, operand⟩
    · simp at step
      obtain ⟨rfl, rfl, -⟩ := step
      exact ⟨tokens, took, operand⟩

/-! ## Operators -/

theorem reads_unary (sound : rules.Sound) (literals : Bool) :
    Reads (unary rules literals) Anywhere Operand := by
  intro state tree after run lawful _
  simp [unary] at run
  rcases run with ⟨isUnary, x, xRun, rfl, -⟩ | ⟨-, run⟩
  · have alive : state.current.kind ≠ .eof := by
      intro same
      simp [same, TokenKind.isUnaryOperator] at isUnary
    have opTook := (Took.refl lawful).take alive
    obtain ⟨more, xTook, operand⟩ := sound.unary _ xRun opTook.lawful_after trivial
    by_cases isStar : state.current.kind = .star
    · rw [if_pos isStar]
      exact operand_star lawful isStar xTook operand
    · rw [if_neg isStar]
      exact operand_unary lawful isUnary xTook operand
  · exact reads_primary sound literals run lawful trivial

theorem reads_binary (sound : rules.Sound) (literals : Bool) (least : Nat) :
    Reads (binary rules literals least) Anywhere Operand := by
  unfold binary
  refine (reads_unary sound literals).iterate (fun lhs => ?_) ?_ ?_
  · refine .bind inferInstance fun kind => ?_
    split <;> infer_instance
  · intro origin lhs now tokens next later took operand step
    rw [Clean.peek_bind_iff] at step
    split at step
    · next precedence binds =>
      simp at step
      obtain ⟨-, rhs, rhsRun, rfl, -⟩ := step
      have fits : TokenFits .free now.current.kind := by
        refine ⟨?_, ?_, ?_, ?_⟩ <;> intro same <;> simp [same, TokenKind.precedence?] at binds
      obtain ⟨more, rhsTook, rhsOperand⟩ :=
        sound.binary _ _ rhsRun (took.take fits.ne_eof).lawful_after trivial
      exact operand_binary took operand fits rhsTook rhsOperand
    · simp at step
  · intro origin lhs now tokens next later took operand step
    rw [Clean.peek_bind_iff] at step
    split at step
    · simp at step
      obtain ⟨-, rfl, rfl, -⟩ := step
      exact ⟨tokens, took, operand⟩
    · simp at step
      obtain ⟨rfl, rfl, -⟩ := step
      exact ⟨tokens, took, operand⟩

theorem reads_expr (sound : rules.Sound) (literals : Bool) :
    Reads (expr rules literals) Anywhere Operand := reads_binary sound literals 1

theorem reads_exprList (sound : rules.Sound) (literals : Bool) :
    Reads (exprList rules literals) Anywhere Elements.Joined :=
  reads_separated (reads_expr sound literals).ending

end Behind

end Grammar

end GoTrivia
