import GoTrivia.Proofs.Grammar.GrowingParams

/-!
# How types grow

Parameters, signatures, constraints, members and types.  No type holds a literal but between
brackets, and only a constraint has operators, which are bars.
-/

set_option autoImplicit false

namespace GoTrivia

namespace Grammar

variable {origin state : ParseState} {n : Nat} {rules : Rules} {place : Place}

/-- The text of an operator says how tightly it binds. -/
theorem operatorPrecedence?_text {token : Token} {precedence : Nat} (regular : token.Regular)
    (binds : token.kind.precedence? = some precedence) :
    operatorPrecedence? token.text = some precedence := by
  have texts : ∀ kind ∈ TokenKind.all, kind.precedence?.isSome = true →
      kind ≠ .semicolon ∧ kind.spelling?.bind operatorPrecedence? = kind.precedence? := by
    decide +kernel
  obtain ⟨other, same⟩ := texts _ (TokenKind.mem_all _) (by rw [binds]; rfl)
  obtain ⟨text, spelling, least⟩ := Option.bind_eq_some_iff.mp (same.trans binds)
  rw [regular.spelled other text spelling, least]

/-- Two operands with an operator between them. -/
theorem grown_binary {now : ParseState} {span : Span} {count least precedence : Nat}
    {place : Place} {x y : Positional} (stands : Stands origin now)
    (binds : now.current.kind.precedence? = some precedence) (atLeast : least ≤ precedence)
    (left : Grown origin.tokens count (place.upTo .whole) precedence x)
    (right : Grown origin.tokens count (place.upTo .whole) (precedence + 1) y) :
    Grown origin.tokens count place least
      (.node .binaryExpr span [childSlot x, tokenSlot now.current.toLexeme, childSlot y]) := by
  have regular := stands.lawful.regular now.current List.mem_cons_self
  exact .operator (operatorPrecedence?_text regular binds) atLeast
    left right

/-! ## Parameters -/

theorem leads_paramType (lead : RulesLead origin n rules) (lt : state.upcoming.length < n)
    (stands : Stands origin state) :
    Leads origin (Resting origin .type tightest) (paramType rules) state := by
  unfold paramType
  refine .peek (.ite (fun _ => lead.type lt stands) fun isDots => ?_)
  rw [Decidable.not_not] at isDots
  refine .here (.take stands (by simp [isDots]) fun taken _ _ => ?_)
  refine .bind (lead.type (by omega) taken.stands) fun after fewer le elt => ?_
  exact .closeResting after (.of_start stands (Nat.le_refl _) (by omega)) elt.rests.firm
    (.cons .token <| .cons (.child elt.grown (Nat.le_refl _) (Nat.zero_le _)) .nil) rfl

theorem Parameters.fill {kind : NodeKind} {shape : AnchorShape} {list : Elements}
    {after : ParseState} {count : Nat} {place : Place} (parameters : Parameters origin list after)
    (le : after.diagnostics.length ≤ count)
    (typed : ∀ index, placeAt place kind shape.anchor index = .type)
    (bound : leastAt kind shape.anchor = 0)
    (commas : shape.isSeparated? = some true) :
    Fill origin.tokens count place kind shape list.slot :=
  .params (fun index => (typed index).symm ▸ parameters.listing.grows) le parameters.listing.commas
    parameters.fields bound commas

theorem leads_parameters {closer : TokenKind} (lead : RulesLead origin n rules)
    (lt : state.upcoming.length < n) (stands : Stands origin state) (firm : Firm origin state) :
    Leads origin (Parameters origin) (params closer (paramType rules)) state := by
  have keeps := lead.keeps
  refine leads_params closer (fun now le stands => ?_) (reads_paramType lead.sound) stands firm
  exact (leads_paramType lead (by omega) stands).imp fun _ _ _ resting =>
    resting.weaken (Nat.zero_le _)

/-- The slots of a construct in brackets that is left out. -/
theorem fills_unbracketed {kind : NodeKind} {opening list closing : AnchorShape} {count : Nat}
    {place : Place} {whole : List Token} (bound : leastAt kind list.anchor = 0) :
    Fills whole count place kind [opening, list, closing]
      [.token none, Elements.empty.slot, .token none] :=
  .cons .token <| .cons (.empty bound) <| .cons .token .nil

section Signature

variable {kind : NodeKind}

/-- Slots of a node, in front of which a comma stands firm. -/
structure Slotted (origin : ParseState) (kind : NodeKind) (shapes : List AnchorShape)
    (slots : List PositionalSlot) (after : ParseState) : Prop where
  fills : ∀ {place}, Fills origin.tokens after.diagnostics.length place kind shapes slots
  firm : Firm origin after

theorem leads_results (isFunction : HasSignature kind) (lead : RulesLead origin n rules)
    (lt : state.upcoming.length < n) (stands : Stands origin state) (firm : Firm origin state) :
    Leads origin (Slotted origin kind resultShapes) (results rules) state := by
  have bound : leastAt kind .results = 0 := by rcases isFunction with rfl | rfl <;> rfl
  have typed : ∀ {place} index, placeAt place kind .results index = .type := by
    rcases isFunction with rfl | rfl <;> exact fun _ => rfl
  unfold results
  refine .peek (.ite (fun isParen => ?_) fun _ => .ite (fun _ => ?_) fun _ => ?_)
  · refine .take stands (by simp [isParen]) fun taken _ _ => ?_
    refine .bind (leads_parameters lead (by omega) taken.stands (taken.firm (by simp [isParen])))
      fun stands _ _ parameters => ?_
    refine .bind (.expect stands (by decide)) fun after _ _ rparen => .pure after ⟨?_, ?_⟩
    · exact .cons .token <| .cons (parameters.fill (by omega) typed bound rfl) <|
        .cons .token .nil
    · exact rparen.firm stands parameters.firm (by decide)
  · refine .bind ((lead.type lt stands).read stands lead.sound.type)
      fun {type after} stands _ _ read => .pure stands ?_
    obtain ⟨resting, spelled⟩ := read
    have result : Resting origin .type 0 type after := resting.weaken (Nat.zero_le _)
    have field := grown_fieldOf Elements.grows_empty Elements.closed_empty.commas result.grown
    have fields : 0 < after.diagnostics.length ∨
        Fields origin.tokens (Elements.single (fieldOf .empty type)).nodes := by
      refine spelled.imp_right ?_
      rintro ⟨front, inside, back, split, operand⟩
      have single := SpellsEntries.nil.push ⟨type, none, none⟩ nofun operand.ending rfl
      rw [List.nil_append, List.append_nil] at single
      exact ⟨_, front, inside, back, split, single, .inl (.cons ⟨rfl, rfl, rfl⟩ .nil)⟩
    have parameters : Parameters origin (.single (fieldOf .empty type)) after :=
      ⟨⟨Elements.grows_single field, (Elements.hangs_single _).commas⟩, fields, resting.rests.firm⟩
    exact ⟨.cons .token <| .cons (parameters.fill (Nat.le_refl _) typed bound rfl) <|
      .cons .token .nil, resting.rests.firm⟩
  · exact .pure stands ⟨fills_unbracketed bound, firm⟩

theorem leads_signature (isFunction : HasSignature kind) (lead : RulesLead origin n rules)
    (lt : state.upcoming.length < n) (stands : Stands origin state) (firm : Firm origin state) :
    Leads origin (Slotted origin kind signatureShapes) (signature rules) state := by
  have bound : leastAt kind .params = 0 := by rcases isFunction with rfl | rfl <;> rfl
  have typed : ∀ {place} index, placeAt place kind .params index = .type := by
    rcases isFunction with rfl | rfl <;> exact fun _ => rfl
  unfold signature
  refine .bind (.expect stands (by decide)) fun after _ _ found => ?_
  have firm := found.firm stands firm (by decide)
  cases found with
  | found _ =>
    refine .bind (leads_parameters lead (by omega) after firm) fun stands _ _ parameters => ?_
    refine .bind (.expect stands (by decide)) fun after _ _ rparen => ?_
    refine .bind (leads_results isFunction lead (by omega) after
      (rparen.firm stands parameters.firm (by decide)))
      fun after _ _ results => .pure after ⟨?_, results.firm⟩
    exact .cons .token <| .cons (parameters.fill (by omega) typed bound rfl) <|
      .cons .token results.fills
  | missing _ _ =>
    refine .bind (leads_results isFunction lead (by omega) after firm) fun after _ _ results => ?_
    exact .pure after ⟨.cons .token <| .cons (.empty bound) <| .cons .token results.fills,
      results.firm⟩

end Signature

theorem leads_funcType (lead : RulesLead origin n rules) (le : state.upcoming.length ≤ n)
    (stands : Stands origin state) (isFunc : state.current.kind = .funcKw) :
    Leads origin (fun tree after => ((∀ place, Resting origin place tightest tree after) ∧
        Past origin tree.span.start after) ∧ after.upcoming.length < state.upcoming.length)
      (funcType rules) state := by
  unfold funcType
  refine .here (.takeStrict stands (by simp [isFunc]) fun taken _ _ => ?_)
  refine .bind (leads_signature (.inr rfl) lead (by omega) taken.stands
    (taken.firm (by simp [isFunc]))) fun {_ now} after fewer _ slots => ?_
  have past : Past origin state.current.span.start now :=
    .of_start stands (Nat.le_refl _) (by omega)
  exact .close after ⟨fun _ => ⟨Fills.grown (.cons .token slots.fills) rfl,
    rests_closing after past slots.firm⟩, past⟩

/-! ## Constraints -/

theorem leads_constraintTerm (lead : RulesLead origin n rules) (lt : state.upcoming.length < n)
    (stands : Stands origin state) :
    Leads origin (Resting origin .type tightest) (constraintTerm rules) state := by
  unfold constraintTerm
  refine .peek (.ite (fun _ => lead.type lt stands) fun isTilde => ?_)
  rw [Decidable.not_not] at isTilde
  refine .here (.take stands (by simp [isTilde]) fun taken _ _ => ?_)
  refine .bind (lead.type (by omega) taken.stands) fun after fewer le x => ?_
  exact .closeResting after (.of_start stands (Nat.le_refl _) (by omega)) x.rests.firm
    (.cons .token <| .cons (.child x.grown (Nat.le_refl _) (Nat.le_refl _)) .nil) rfl

/-- A union binds as tightly as a bar does, and its terms bind tighter. -/
theorem leads_constraint (lead : RulesLead origin n rules) (lt : state.upcoming.length < n)
    (stands : Stands origin state) :
    Leads origin (Resting origin .type 4) (constraint rules) state := by
  rw [constraint_eq]
  refine .bind (leads_constraintTerm lead lt stands) fun {first now} stands fewer _ term => ?_
  refine leads_iterate (Resting origin .type 4) ?_ stands
    (term.weaken (by decide))
  intro lhs now stands le _ lhsResting
  unfold constraintStep
  refine .peek (.ite (fun _ => .pure stands (.done lhsResting)) fun isPipe => ?_)
  rw [Decidable.not_not] at isPipe
  refine .take stands (by simp [isPipe]) fun taken _ _ => ?_
  refine .bind (leads_constraintTerm lead (by omega) taken.stands)
    fun {rhs later} after _ _ rhsResting => ?_
  have grown : ∀ span, Grown origin.tokens later.diagnostics.length .type 4
      (.node .binaryExpr span [childSlot lhs, tokenSlot now.current.toLexeme, childSlot rhs]) :=
    fun span => grown_binary stands (by rw [isPipe]; rfl) (Nat.le_refl _)
      (lhsResting.grown.mono (by omega)) (rhsResting.weaken (by decide)).grown
  have past : Past origin lhs.span.start later := lhsResting.rests.past stands (by omega)
  refine .pure after (.again (by omega) ⟨grown _, ?_⟩)
  exact rests_closing after past rhsResting.rests.firm

theorem leads_typeParams (kind : NodeKind) (bound : leastAt kind .typeParams = 0)
    (typed : ∀ {place} index, placeAt place kind .typeParams index = .type)
    (lead : RulesLead origin n rules) (le : state.upcoming.length ≤ n)
    (stands : Stands origin state) (isBracket : state.current.kind = .leftBracket) :
    Leads origin (Slotted origin kind typeParamShapes) (typeParams rules) state := by
  have keeps := lead.keeps
  unfold typeParams
  refine .take stands (by simp [isBracket]) fun taken _ _ => ?_
  have listed := leads_params .rightBracket
    (fun now le stands => (leads_constraint lead (by omega) stands).imp
      fun _ _ _ resting => resting.weaken (Nat.zero_le _))
    (reads_constraint lead.sound).ending taken.stands (taken.firm (by simp [isBracket]))
  refine .bind listed fun stands _ _ parameters => ?_
  refine .bind (.expect stands (by decide)) fun after _ _ rbrack => .pure after ⟨?_, ?_⟩
  · exact .cons .token <| .cons (parameters.fill (by omega) typed bound rfl) <| .cons .token .nil
  · exact rbrack.firm stands parameters.firm (by decide)

/-! ## Members -/

theorem leads_members (kind : NodeKind) (anchor : Anchor) {element : Parse Positional}
    (other : isParamList kind anchor = false) (bound : leastAt kind anchor = 0)
    (typed : ∀ {place} index, placeAt place kind anchor index = .type)
    (elements : ∀ now, now.upcoming.length ≤ state.upcoming.length →
      Stands origin now → Leads origin (Growing origin .type 0) element now)
    (stands : Stands origin state) (firm : Firm origin state) :
    Leads origin (Slotted origin kind (memberShapes anchor)) (members element) state := by
  unfold members
  refine .bind (.expect stands (by decide)) fun {_ now} after fewer _ found => ?_
  have firm := found.firm stands firm (by decide)
  cases found with
  | found _ =>
    have within := fun later (le : later.upcoming.length ≤ state.advance.upcoming.length) =>
      elements later (Nat.le_trans le fewer)
    refine .bind (leads_terminated within after) fun {list end'} stands _ _ listed => ?_
    obtain ⟨grows, bare, ends⟩ := listed
    have firm : Firm origin end' := .of_ne (by rcases ends with ends | ends <;> simp [ends])
    refine .bind (.expect stands (by decide)) fun after _ _ rbrace =>
      .pure after ⟨fun {place} => ?_, rbrace.firm stands firm (by decide)⟩
    have places : ∀ index, list.Grows origin.tokens end'.diagnostics.length
        (placeAt place kind anchor index) 0 := fun index => (typed index).symm ▸ grows
    exact .cons .token <| .cons (.lines places (by omega) bare other bound rfl) <| .cons .token .nil
  | missing _ _ => exact .pure after ⟨fills_unbracketed bound, firm⟩

theorem leads_fieldRest (start : Nat) {names : Elements} (lead : RulesLead origin n rules)
    (lt : state.upcoming.length < n) (stands : Stands origin state)
    (grows : names.Grows origin.tokens state.diagnostics.length .type 0)
    (separated : CommaSeparated origin.tokens names.nodes names.separators) :
    Leads origin (Growing origin .type 0) (fieldRest rules start names) state := by
  unfold fieldRest
  refine .bind (lead.type lt stands) fun stands _ _ type => .peek ?_
  refine .ite (fun isString => ?_) fun _ => ?_
  · refine .bind (leads_basicLit .type stands (by rw [isString]; rfl)) fun stands _ _ tag => ?_
    exact .closeGrown stands (.cons (.commas (fun _ => grows) (by omega) separated rfl rfl rfl) <|
      .cons (.child type.grown (by omega) (Nat.zero_le _)) <|
      .cons (.child tag.grown (by omega) (Nat.zero_le _)) .nil) rfl
  · exact .closeGrown stands (.cons (.commas (fun _ => grows) (by omega) separated rfl rfl rfl) <|
      .cons (.child type.grown (by omega) (Nat.zero_le _)) <| .cons .childless .nil) rfl

theorem leads_structField (lead : RulesLead origin n rules) (lt : state.upcoming.length < n)
    (stands : Stands origin state) :
    Leads origin (Growing origin .type 0) (structField rules) state := by
  unfold structField
  refine .here (.peek ?_)
  have embedded := leads_fieldRest state.current.span.start lead lt stands
    Elements.grows_empty Elements.closed_empty.commas
  refine .ite (fun _ => embedded) fun _ => .ahead ?_
  split
  case h_5 =>
    have named := Leads.bind
      (leads_separated (fun now _ => leads_ident) stands)
      fun stands fewer _ names => leads_fieldRest state.current.span.start lead
        (Nat.lt_of_le_of_lt fewer lt) stands names.grows.weaken names.commas
    exact named
  all_goals exact embedded

theorem leads_structType (lead : RulesLead origin n rules) (le : state.upcoming.length ≤ n)
    (stands : Stands origin state) (isStruct : state.current.kind = .structKw) :
    Leads origin (Resting origin place tightest) (structType rules) state := by
  unfold structType
  refine .here (.take stands (by simp [isStruct]) fun taken _ _ => ?_)
  refine .bind (leads_members .structType .fields rfl rfl (fun _ => rfl)
    (fun now le => leads_structField lead (by omega)) taken.stands
    (taken.firm (by simp [isStruct]))) fun after fewer _ slots => ?_
  exact .closeResting after (.of_start stands (Nat.le_refl _) (by omega)) slots.firm
    (.cons .token slots.fills) rfl

theorem leads_interfaceMember (lead : RulesLead origin n rules) (lt : state.upcoming.length < n)
    (stands : Stands origin state) :
    Leads origin (Growing origin .type 0) (interfaceMember rules) state := by
  unfold interfaceMember
  refine .here (.peek (.ahead (.ite (fun _ => ?_) fun _ => ?_)))
  · refine .bind (leads_ident stands)
      fun stands fewer _ name => .here ?_
    refine .bind (leads_signature (.inr rfl) lead (by omega) stands name.rests.firm)
      fun {slots after} stands _ _ signed => ?_
    have type : ∀ span, Grown origin.tokens after.diagnostics.length .type 0
        (.node .funcType span (.token none :: slots)) :=
      fun span => Fills.grown (.cons .token signed.fills) rfl
    have named := Elements.grows_single name.grown
    exact .closeGrown stands (.cons
      (.commas (fun _ => named) (by omega) (Elements.hangs_single _).commas rfl rfl rfl) <|
      .cons (.child (type _) (Nat.le_refl _) (Nat.zero_le _)) <| .cons .childless .nil) rfl
  · refine .bind (leads_constraint lead lt stands) fun stands _ _ type => ?_
    exact .closeGrown stands (.cons (.empty rfl) <|
      .cons (.child type.grown (Nat.le_refl _) (Nat.zero_le _)) <|
      .cons .childless .nil) rfl

theorem leads_interfaceType (lead : RulesLead origin n rules) (le : state.upcoming.length ≤ n)
    (stands : Stands origin state) (isInterface : state.current.kind = .interfaceKw) :
    Leads origin (Resting origin place tightest) (interfaceType rules) state := by
  unfold interfaceType
  refine .here (.take stands (by simp [isInterface]) fun taken _ _ => ?_)
  refine .bind (leads_members .interfaceType .methods rfl rfl (fun _ => rfl)
    (fun now le => leads_interfaceMember lead (by omega))
    taken.stands (taken.firm (by simp [isInterface]))) fun after fewer _ slots => ?_
  exact .closeResting after (.of_start stands (Nat.le_refl _) (by omega)) slots.firm
    (.cons .token slots.fills) rfl

/-! ## Types -/

theorem leads_typeArgs {base : Positional} (lead : RulesLead origin n rules)
    (le : state.upcoming.length ≤ n) (stands : Stands origin state)
    (resting : Resting origin .type tightest base state)
    (isBracket : state.current.kind = .leftBracket) :
    Leads origin (Resting origin .type tightest) (typeArgs rules base) state := by
  unfold typeArgs
  refine .take stands (by simp [isBracket]) fun taken _ _ => ?_
  refine .bind (leads_delimited (fun now le stands => lead.type (by omega) stands) taken.stands
    (taken.firm (by simp [isBracket]))) fun {args now} after _ _ listed => ?_
  obtain ⟨listing, firm⟩ := listed
  refine .bind (.expect after (by decide)) fun {_ later} after' fewer _ rbrack => ?_
  have firm := rbrack.firm after firm (by decide)
  have past : Past origin base.span.start later := resting.rests.past stands (by omega)
  have places : ∀ index, args.Grows origin.tokens now.diagnostics.length
      (placeAt .type .indexListExpr .indices index) tightest := by
    intro index
    cases index <;> exact listing.grows
  split
  · next index =>
    have grown := listing.grows index List.mem_cons_self
    exact .closeResting after' past firm
      (.cons (.child resting.grown (by omega) (Nat.le_refl _)) <| .cons .token <|
        .cons (.child grown (by omega) (Nat.zero_le _)) <| .cons .token .nil) rfl
  · exact .closeResting after' past firm
      (.cons (.child resting.grown (by omega) (Nat.le_refl _)) <| .cons .token <|
        .cons (.commas places (by omega) listing.commas rfl rfl rfl) <| .cons .token .nil) rfl

theorem leads_typeName (lead : RulesLead origin n rules) (le : state.upcoming.length ≤ n)
    (stands : Stands origin state) :
    Leads origin (Resting origin .type tightest) (typeName rules) state := by
  have goesOn : ∀ {now name}, now.upcoming.length ≤ n → Stands origin now →
      Resting origin .type tightest name now → Leads origin (Resting origin .type tightest)
        (do if (← peek) = .leftBracket then typeArgs rules name else return name) now :=
    fun le stands name => .peek (.ite (fun isBracket => leads_typeArgs lead le stands name isBracket)
      fun _ => .pure stands name)
  unfold typeName
  refine .bind (leads_ident stands) fun {name now} stands fewer _ resting => .peek ?_
  refine .ite (fun isDot => ?_) fun _ => goesOn (by omega) stands resting
  refine .take stands (by simp [isDot]) fun taken _ _ => ?_
  refine .bind (leads_ident taken.stands) fun {sel later} after fewer le' selResting => ?_
  have past : Past origin name.span.start later := resting.rests.past stands (by omega)
  refine .closed (goesOn (by omega) after ⟨Fills.grown ?_ rfl, ?_⟩)
  · exact .cons (.child resting.grown (by omega) (Nat.le_refl _)) <| .cons .token <|
      .cons (.child selResting.grown (Nat.le_refl _) (Nat.zero_le _)) .nil
  · exact rests_closing after past selResting.rests.firm

theorem leads_arrayLength (lead : RulesLead origin n rules) (lt : state.upcoming.length < n)
    (stands : Stands origin state) :
    Leads origin (fun len after => ∀ tree, len = some tree →
        Grown origin.tokens after.diagnostics.length (.whole true) 0 tree)
      (arrayLength rules) state := by
  unfold arrayLength
  refine .peek ?_
  split
  · exact .pure stands (by rintro tree ⟨⟩)
  · next isDots =>
    refine .here (.take stands (by simp [isDots]) fun taken _ _ => .pure taken.stands ?_)
    rintro tree ⟨⟩
    exact Fills.grown (.cons .token <| .cons .childless .nil) rfl
  · refine .bind (lead.binary lt (by decide) stands) fun stands _ _ len => .pure stands ?_
    rintro tree ⟨⟩
    exact (len.1.weaken (Nat.zero_le _)).grown

theorem leads_arrayType (lead : RulesLead origin n rules) (le : state.upcoming.length ≤ n)
    (stands : Stands origin state) (isBracket : state.current.kind = .leftBracket) :
    Leads origin (Resting origin place tightest) (arrayType rules) state := by
  unfold arrayType
  refine .here (.take stands (by simp [isBracket]) fun taken _ _ => ?_)
  refine .bind (leads_arrayLength lead (by omega) taken.stands) fun after fewer _ len => ?_
  refine .bind (.expect after (by decide)) fun after fewer' _ _ => ?_
  refine .bind (lead.type (by omega) after) fun after _ _ elt => ?_
  exact .closeResting after (.of_start stands (Nat.le_refl _) (by omega)) elt.rests.firm
    (.cons .token <| .cons (.optional len (by omega) (Nat.zero_le _)) <| .cons .token <|
      .cons (.child elt.grown (Nat.le_refl _) (Nat.zero_le _)) .nil) rfl

theorem leads_mapType (lead : RulesLead origin n rules) (le : state.upcoming.length ≤ n)
    (stands : Stands origin state) (isMap : state.current.kind = .mapKw) :
    Leads origin (Resting origin place tightest) (mapType rules) state := by
  unfold mapType
  refine .here (.take stands (by simp [isMap]) fun taken _ _ => ?_)
  refine .bind (.expect taken.stands (by decide)) fun after _ _ _ => ?_
  refine .bind (lead.type (by omega) after) fun after _ _ key => ?_
  refine .bind (.expect after (by decide)) fun after _ _ _ => ?_
  refine .bind (lead.type (by omega) after) fun after _ _ value => ?_
  exact .closeResting after (.of_start stands (Nat.le_refl _) (by omega)) value.rests.firm
    (.cons .token <| .cons .token <| .cons (.child key.grown (by omega) (Nat.zero_le _)) <|
    .cons .token <|
      .cons (.child value.grown (Nat.le_refl _) (Nat.zero_le _)) .nil) rfl

/-- A type that does not begin with a name may stand anywhere. -/
theorem leads_typeLit (lead : RulesLead origin n rules) (le : state.upcoming.length ≤ n)
    (stands : Stands origin state)
    (begins : state.current.kind = .leftBracket ∨ state.current.kind = .mapKw ∨
      state.current.kind = .structKw ∨ state.current.kind = .interfaceKw) :
    Leads origin (Resting origin place tightest) (type rules) state := by
  unfold type
  refine .peek ?_
  rcases begins with is | is | is | is <;> rw [is]
  · exact leads_arrayType lead le stands is
  · exact leads_mapType lead le stands is
  · exact leads_structType lead le stands is
  · exact leads_interfaceType lead le stands is

theorem leads_type (lead : RulesLead origin n rules) (le : state.upcoming.length ≤ n)
    (stands : Stands origin state) :
    Leads origin (Resting origin .type tightest) (type rules) state := by
  unfold type
  refine .peek ?_
  split
  · exact leads_typeName lead le stands
  · next isStar =>
    refine .here (.take stands (by simp [isStar]) fun taken _ _ => ?_)
    refine .bind (lead.type (by omega) taken.stands) fun after fewer _ x => ?_
    exact .closeResting after (.of_start stands (Nat.le_refl _) (by omega)) x.rests.firm
      (.cons .token <| .cons (.child x.grown (Nat.le_refl _) (Nat.le_refl _)) .nil) rfl
  · next is => exact leads_arrayType lead le stands is
  · next is => exact leads_mapType lead le stands is
  · next is => exact (leads_funcType lead le stands is).imp fun _ _ _ type => type.1.1 .type
  · next is => exact leads_structType lead le stands is
  · next is => exact leads_interfaceType lead le stands is
  · next isParen =>
    refine .here (.take stands (by simp [isParen]) fun taken _ _ => ?_)
    refine .bind (lead.type (by omega) taken.stands) fun {x now} after fewer _ resting => ?_
    refine .bind (.expect after (by decide)) fun after' fewer' _ rparen => ?_
    exact .closeResting after' (.of_start stands (Nat.le_refl _) (by omega))
      (rparen.firm after resting.rests.firm (by decide))
      (.cons .token <| .cons (.child resting.grown (by omega) (Nat.zero_le _)) <|
      .cons .token .nil) rfl
  · exact leads_bad stands rfl rfl

end Grammar

end GoTrivia
