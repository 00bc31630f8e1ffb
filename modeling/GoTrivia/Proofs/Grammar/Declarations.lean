import GoTrivia.Proofs.Grammar.Expressions

/-!
# Declarations spell their tokens

Imports, constants, variables, types and functions.  What a declaration leaves out is an
empty slot; what it puts in brackets is a list that goes up to the closing bracket.
-/

set_option autoImplicit false

namespace GoTrivia

namespace Grammar

variable {rules : Rules} [KeepsRules rules]

theorem reads_importSpec : Reads importSpec Anywhere Spells := by
  intro state tree after run lawful _
  simp [importSpec] at run
  have reading := Reading.start .importSpec (standardShape .importSpec).anchors lawful
  rcases run with ⟨isName, name, middle, nameRun, isString, path, pathRun, rfl, -⟩ |
    ⟨-, isString, path, pathRun, rfl, -⟩
  · obtain ⟨front, nameTook, leaf⟩ := reads_takeIdent nameRun lawful
      (by rcases isName with isName | isName <;> simp [isName, TokenFits])
    have reading := reading.child rfl nameTook leaf.1 trivial
    obtain ⟨more, pathTook, literal⟩ := reads_basicLit pathRun reading.lawful (by rw [isString]; rfl)
    have reading := reading.child rfl pathTook literal.spells trivial
    exact ⟨_, reading.took, reading.close (by decide) rfl literal.ends.solid.append⟩
  · have reading := reading.vacant (.child none) rfl
    obtain ⟨more, pathTook, literal⟩ := reads_basicLit pathRun reading.lawful (by rw [isString]; rfl)
    have reading := reading.child rfl pathTook literal.spells trivial
    exact ⟨_, reading.took, reading.close (by decide) rfl literal.ends.solid.append⟩

/-- Constants or variables behind their type. -/
def valueRest (rules : Rules) (start : Nat) (names : Elements) (declared : Option Positional) :
    Parse Positional := do
  if (← peek) = .eq then
    let assign ← take
    let values ← exprList rules true
    close .valueSpec start [names.slot, .child declared, tokenSlot assign, values.slot]
  else close .valueSpec start [names.slot, .child declared, .token none, Elements.empty.slot]

theorem Reading.valueRest {names : Elements} {declared : Option Positional}
    {origin now after : ParseState} {tokens : List Token} {tree : Positional} (sound : rules.Sound)
    (filled : names.slot.isPresent = true)
    (reading : Reading .valueSpec origin (standardShape .valueSpec).anchors
      [(StandardShape.token .assign "=").optional.spaced,
       ((StandardShape.list .values StandardShape.commas).together .assign).spaced]
      [names.slot, .child declared] tokens now False) (solid : Solid tokens)
    (run : Clean (valueRest rules origin.current.span.start names declared) now tree after) :
    ∃ tokens, Took origin tokens after ∧ Spells tree tokens := by
  have full : ∀ declared assigned : Bool,
      mayFill .valueSpec [true, declared, assigned, assigned] = true := by decide
  simp [Grammar.valueRest] at run
  rcases run with ⟨isAssign, values, valuesRun, rfl, -⟩ | ⟨-, rfl, rfl, -⟩
  · have reading := reading.token rfl isAssign rfl trivial
    obtain ⟨more, valuesTook, values⟩ := reads_exprList sound true valuesRun reading.lawful trivial
    have reading := (reading.separated rfl rfl valuesTook values.1).settle values.not_trailing
    refine ⟨_, reading.took, reading.close (by decide) ?_ (values.1.ends values.2).solid.append⟩
    simpa [filled, values.isPresent] using full declared.isSome true
  · have reading := (reading.vacant (.token none) rfl).vacant Elements.empty.slot rfl
    refine ⟨_, reading.took, reading.close (by decide) ?_ solid⟩
    simpa [filled] using full declared.isSome false

theorem reads_valueSpec (sound : rules.Sound) : Reads (valueSpec rules) Anywhere Spells := by
  intro state tree after run lawful _
  unfold valueSpec at run
  simp only [pure_bind] at run
  rw [Clean.here_bind_iff, Clean.bind_iff] at run
  obtain ⟨names, middle, namesRun, run⟩ := run
  obtain ⟨front, namesTook, joined⟩ := reads_separated reads_identEnding namesRun lawful trivial
  have reading := Reading.start .valueSpec (standardShape .valueSpec).anchors lawful
  have reading := (reading.separated rfl rfl namesTook joined.1).settle joined.not_trailing
  have solid := (joined.1.ends joined.2).solid
  rw [Clean.peek_bind_iff, Clean.ite_iff] at run
  rcases run with ⟨-, run⟩ | ⟨-, run⟩
  · exact Reading.valueRest sound joined.isPresent (reading.vacant (.child none) rfl) solid run
  · rw [Clean.bind_iff] at run
    obtain ⟨type, next, typeRun, run⟩ := run
    obtain ⟨more, typeTook, operand⟩ := reads_type sound typeRun reading.lawful trivial
    have reading := reading.child rfl typeTook operand.spells trivial
    exact Reading.valueRest sound joined.isPresent reading operand.ends.solid.append run

/-- A type declaration behind its type parameters. -/
def typeRest (rules : Rules) (start : Nat) (name : Positional) (paramSlots : List PositionalSlot) :
    Parse Positional := do
  let assign ← if (← peek) = .eq then pure (some (← take)) else pure none
  let value ← type rules
  close .typeSpec start ([childSlot name] ++ paramSlots ++ [.token assign, childSlot value])

theorem Reading.typeRest {name : Positional} {paramSlots : List PositionalSlot} {filled : Bool}
    {origin now after : ParseState} {tokens : List Token} {tree : Positional} (sound : rules.Sound)
    (present : paramSlots.map Slot.isPresent = [filled, filled, filled])
    (reading : Reading .typeSpec origin (standardShape .typeSpec).anchors
      [(StandardShape.token .assign "=").optional.spaced, (StandardShape.child .value).spaced]
      ([childSlot name] ++ paramSlots) tokens now False)
    (run : Clean (typeRest rules origin.current.span.start name paramSlots) now tree after) :
    ∃ tokens, Took origin tokens after ∧ Spells tree tokens := by
  have full : ∀ filled assigned : Bool,
      mayFill .typeSpec [true, filled, filled, filled, assigned, true] = true := by decide
  simp [Grammar.typeRest] at run
  rcases run with ⟨isAssign, value, valueRun, rfl, -⟩ | ⟨-, value, valueRun, rfl, -⟩
  · have reading := reading.token rfl isAssign rfl trivial
    obtain ⟨more, valueTook, operand⟩ := reads_type sound valueRun reading.lawful trivial
    have reading := reading.child rfl valueTook operand.spells trivial
    have reading := reading.of_slots (List.append_assoc _ _ _)
    refine ⟨_, reading.took, reading.close (by decide) ?_ operand.ends.solid.append⟩
    simpa [present, childSlot] using full filled true
  · have reading := reading.vacant (.token none) rfl
    obtain ⟨more, valueTook, operand⟩ := reads_type sound valueRun reading.lawful trivial
    have reading := reading.child rfl valueTook operand.spells trivial
    have reading := reading.of_slots (List.append_assoc _ _ _)
    refine ⟨_, reading.took, reading.close (by decide) ?_ operand.ends.solid.append⟩
    simpa [present, childSlot] using full filled false

theorem reads_typeSpec (sound : rules.Sound) : Reads (typeSpec rules) Anywhere Spells := by
  intro state tree after run lawful _
  unfold typeSpec at run
  simp only [pure_bind] at run
  rw [Clean.here_bind_iff] at run
  obtain ⟨name, middle, nameRun, run⟩ := run.of_bind fun _ => inferInstance
  obtain ⟨front, nameTook, isName⟩ := reads_ident nameRun lawful trivial
  have reading := Reading.start .typeSpec (standardShape .typeSpec).anchors lawful
  have reading := reading.child rfl nameTook isName.1.spells trivial
  simp at run
  rcases run with ⟨⟨isOpen, inside, -⟩, slots, next, paramsRun, run⟩ | ⟨-, run⟩
  · obtain ⟨tokens, filled, reading, present, empty⟩ :=
      Reading.typeParams sound (.inl rfl) reading isOpen paramsRun
    -- A name follows the bracket, so there is something inside.
    have some : filled = true := by
      by_contra none
      have closed := empty (by simpa using none)
      rw [ParseState.kind_advance inside (by decide)] at closed
      exact absurd closed (by decide)
    subst some
    exact Reading.typeRest sound present reading (by simpa [typeRest] using run)
  · have reading := (reading.vacant (.token none) rfl).vacant Elements.empty.slot rfl
    have reading := reading.vacant (.token none) rfl
    have present : noTypeParams.map Slot.isPresent = [false, false, false] := rfl
    exact Reading.typeRest sound present reading (by simpa [typeRest] using run)

/-- The keywords of grouped declarations. -/
def IsDeclKeyword (kind : TokenKind) : Prop :=
  kind = .importKw ∨ kind = .constKw ∨ kind = .varKw ∨ kind = .typeKw

/-- A declaration under a keyword whose specifications are read by a given rule. -/
def genDeclOf (spec : Parse Positional) : Parse Positional := do
  let start ← here
  let tok ← take
  if (← peek) = .leftParen then
    let lparen ← take
    let specs ← terminated .rightParen spec
    let rparen ← expect .rightParen "expected `)`"
    close .genDecl start [tokenSlot tok, tokenSlot lparen, specs.slot, .token rparen]
  else
    let single ← spec
    close .genDecl start
      [tokenSlot tok, .token none, (Elements.single single).slot, .token none]

theorem reads_genDeclOf {spec : Parse Positional} [Keeps spec] (reads : Reads spec Anywhere Spells) :
    Reads (genDeclOf spec) (TokenFits .free) Spells := by
  intro state tree after run lawful fits
  have full : ∀ grouped filled : Bool,
      mayFill .genDecl [true, grouped, filled, grouped] = true := by decide
  have reading := Reading.start .genDecl (standardShape .genDecl).anchors lawful
  have reading := reading.token rfl rfl fits trivial
  simp [genDeclOf] at run
  rcases run with ⟨isOpen, specs, middle, specsRun, isClose, rfl, rfl, -⟩ |
    ⟨-, single, specRun, rfl, -⟩
  · have reading := reading.token rfl isOpen rfl trivial
    obtain ⟨more, specsTook, terminated⟩ :=
      reads_terminated .rightParen reads specsRun reading.lawful trivial
    have reading := reading.terminated rfl rfl specsTook terminated
    have reading := reading.token rfl isClose rfl trivial
    exact ⟨_, reading.took, reading.close (by decide) (full true _) (Solid.single isClose (by decide))⟩
  · have reading := reading.vacant (.token none) rfl
    obtain ⟨more, specTook, spells⟩ := reads specRun reading.lawful trivial
    have list : (Elements.single single).Terminated more :=
      ⟨rfl, by simpa [Elements.single] using SpellsTerminated.nil.push spells⟩
    have reading := (reading.terminated rfl rfl specTook list).vacant (.token none) rfl
    exact ⟨_, reading.took,
      reading.closeVisible (by decide) (full false true) spells.stopsAt.append.visible⟩

theorem reads_genDecl (sound : rules.Sound) : Reads (genDecl rules) IsDeclKeyword Spells := by
  intro state tree after run lawful isKeyword
  have fits : TokenFits .free state.current.kind := by
    rcases isKeyword with same | same | same | same <;> simp [same, TokenFits]
  rcases isKeyword with same | same | same | same
  · exact reads_genDeclOf reads_importSpec (by simpa [genDecl, genDeclOf, same] using run) lawful fits
  · exact reads_genDeclOf (reads_valueSpec sound) (by simpa [genDecl, genDeclOf, same] using run)
      lawful fits
  · exact reads_genDeclOf (reads_valueSpec sound) (by simpa [genDecl, genDeclOf, same] using run)
      lawful fits
  · exact reads_genDeclOf (reads_typeSpec sound) (by simpa [genDecl, genDeclOf, same] using run)
      lawful fits

/-! ## Functions -/

/-- The shapes of the receiver of a method. -/
def receiverShapes : List AnchorShape :=
  [(StandardShape.token .recvOpen "(").optional.spaced,
   (StandardShape.list .recv StandardShape.commas).together .recvOpen,
   (StandardShape.token .recvClose ")").together .recvOpen]

theorem Reading.receiver {origin now after : ParseState} {whole shapes : List AnchorShape}
    {slots more : List PositionalSlot} {tokens : List Token} (sound : rules.Sound)
    (reading : Reading .funcDecl origin whole (receiverShapes ++ shapes) slots tokens now False)
    (run : Clean (receiver rules) now more after) :
    ∃ tokens opened filled,
      Reading .funcDecl origin whole shapes (slots ++ more) tokens after False ∧
      more.map Slot.isPresent = [opened, opened && filled, opened] := by
  simp [Grammar.receiver] at run
  rcases run with ⟨isOpen, list, middle, listRun, ⟨isClose, rfl, -⟩, rfl⟩ | ⟨-, rfl, rfl, -⟩
  · have reading := reading.token rfl isOpen rfl trivial
    obtain ⟨front, listTook, delimited⟩ :=
      reads_params .rightParen (reads_type sound).ending listRun reading.lawful trivial
    have reading := reading.separated rfl rfl listTook delimited.1
    have reading := reading.closer rfl isClose rfl trivial fun _ => rfl
    exact ⟨_, true, list.slot.isPresent, reading.of_slots (by simp [tokenSlot]), rfl⟩
  · have reading := (reading.vacant (.token none) rfl).vacant Elements.empty.slot rfl
    have reading := reading.vacant (.token none) rfl
    exact ⟨_, false, false, reading.of_slots (by simp), rfl⟩

theorem mayFill_funcDecl : ∀ method recv generic params args opened results body : Bool,
    mayFill .funcDecl [true, method, method && recv, method, true, generic, generic && params,
      generic, true, args, true, opened, results, opened, body] = true := by
  decide

/-- A function behind its type parameters. -/
def funcRest (rules : Rules) (start : Nat) (front : List PositionalSlot) : Parse Positional := do
  let signatureSlots ← signature rules
  let body ← if (← peek) = .leftBrace then pure (some (← rules.block)) else pure none
  close .funcDecl start (front ++ signatureSlots ++ [.child body])

theorem Reading.funcRest {front : List PositionalSlot} {origin now after : ParseState}
    {tokens : List Token} {tree : Positional} (sound : rules.Sound)
    (method recv generic params : Bool)
    (present : front.map Slot.isPresent =
      [true, method, method && recv, method, true, generic, generic && params, generic])
    (reading : Reading .funcDecl origin (standardShape .funcDecl).anchors
      (signatureShapes ++ [(StandardShape.child .body).optional.spaced]) front tokens now False)
    (run : Clean (funcRest rules origin.current.span.start front) now tree after) :
    ∃ tokens, Took origin tokens after ∧ Spells tree tokens := by
  simp [Grammar.funcRest] at run
  obtain ⟨slots, middle, signatureRun, run⟩ := run
  obtain ⟨tokens, reading, ends, args, opened, results, presentRest⟩ :=
    Reading.signature sound (.inl rfl) reading signatureRun
  have full := mayFill_funcDecl method recv generic params args opened results
  rcases run with ⟨-, body, bodyRun, rfl, -⟩ | ⟨-, rfl, rfl, -⟩
  · obtain ⟨more, bodyTook, body⟩ := sound.block bodyRun reading.lawful trivial
    have reading := reading.child rfl bodyTook body.1 trivial
    have reading := reading.of_slots (List.append_assoc _ _ _)
    refine ⟨_, reading.took, reading.close (by decide) ?_ body.2.solid.append⟩
    simpa [present, presentRest] using full true
  · have reading := reading.vacant (.child none) rfl
    have reading := reading.of_slots (List.append_assoc _ _ _)
    refine ⟨_, reading.took, reading.close (by decide) ?_ ends.solid⟩
    simpa [present, presentRest] using full false

theorem reads_funcDecl (sound : rules.Sound) : Reads (funcDecl rules) (· = .funcKw) Spells := by
  intro state tree after run lawful isFunc
  unfold funcDecl at run
  simp only [pure_bind] at run
  rw [Clean.here_bind_iff, Clean.take_bind_iff, Clean.bind_iff] at run
  obtain ⟨receiverSlots, middle, receiverRun, run⟩ := run
  rw [Clean.bind_iff] at run
  obtain ⟨name, next, nameRun, run⟩ := run
  rw [Clean.peek_bind_iff, Clean.ite_iff] at run
  have reading := Reading.start .funcDecl (standardShape .funcDecl).anchors lawful
  have reading := reading.token rfl isFunc rfl trivial
  obtain ⟨tokens, method, recv, reading, present⟩ := Reading.receiver sound reading receiverRun
  obtain ⟨more, nameTook, isName⟩ := reads_ident nameRun reading.lawful trivial
  have reading := reading.child rfl nameTook isName.1.spells trivial
  rcases run with ⟨isOpen, run⟩ | ⟨-, run⟩
  · rw [Clean.bind_iff] at run
    obtain ⟨paramSlots, last, paramsRun, run⟩ := run
    obtain ⟨tokens, params, reading, presentParams, -⟩ :=
      Reading.typeParams sound (.inr rfl) reading isOpen paramsRun
    refine Reading.funcRest sound method recv true params ?_ reading
      (by simpa [funcRest, tokenSlot, childSlot] using run)
    simp [present, presentParams]
  · have reading := (reading.vacant (.token none) rfl).vacant Elements.empty.slot rfl
    have reading := reading.vacant (.token none) rfl
    refine Reading.funcRest sound method recv false false ?_ reading
      (by simpa [funcRest, tokenSlot, childSlot, noTypeParams] using run)
    simp [present]

theorem reads_decl (sound : rules.Sound) : Reads (decl rules) Anywhere Spells := by
  intro state tree after run lawful _
  unfold decl at run
  rw [Clean.peek_bind_iff] at run
  split at run
  · next same => exact reads_genDecl sound run lawful (.inl same)
  · next same => exact reads_genDecl sound run lawful (.inr (.inl same))
  · next same => exact reads_genDecl sound run lawful (.inr (.inr (.inl same)))
  · next same => exact reads_genDecl sound run lawful (.inr (.inr (.inr same)))
  · next isFunc => exact reads_funcDecl sound run lawful isFunc
  · simp at run

end Grammar

end GoTrivia
