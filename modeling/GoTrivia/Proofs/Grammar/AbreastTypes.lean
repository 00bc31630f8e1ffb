import GoTrivia.Proofs.Grammar.AbreastSteps
import GoTrivia.Proofs.Grammar.Types

/-!
# Types abreast

Parameters, signatures, constraints, members and types go abreast.
-/

set_option autoImplicit false

namespace GoTrivia

namespace Grammar

open Pairing

variable {pairing : Pairing} {n m : Nat} {state state' : ParseState} {rules rules' : Rules}

/-! ## Fields -/

theorem trees_fieldOf {names names' : Elements} {type type' : Positional}
    (lists : pairing.Gathers names names') (types : pairing.Trees type type') :
    pairing.Trees (fieldOf names type) (fieldOf names' type') := by
  have start : pairing.offset ((names.nodes.head?.map Positional.span).getD type.span).start
      ((names'.nodes.head?.map Positional.span).getD type'.span).start := by
    have first := lists.nodes.head?
    generalize names.nodes.head? = name at first ⊢
    generalize names'.nodes.head? = name' at first ⊢
    cases first with
    | some name => exact name.spans.1
    | none => exact types.spans.1
  exact .node ⟨start, pairing.max types.spans.2 start⟩
    (.cons lists.slot (.cons (.child types) (.cons .childless .nil)))

theorem isNone_of_rel {α β : Type} {relation : α → β → Prop} {found : Option α}
    {found' : Option β} (related : Option.Rel relation found found') :
    found'.isNone = found.isNone := by
  cases related with
  | some _ => rfl
  | none => rfl

/-- Entries of parameter lists that agree but for where they stand. -/
structure Pairing.Params (pairing : Pairing) (entry entry' : Param) : Prop where
  first : pairing.Trees entry.first entry'.first
  type : Option.Rel pairing.Trees entry.type entry'.type
  separator : Option.Rel pairing.Spans entry.separator entry'.separator

theorem gathers_unnamedParams {entries entries' : List Param} {list list' : Elements}
    (params : List.Forall₂ pairing.Params entries entries')
    (lists : pairing.Gathers list list') :
    pairing.Gathers (unnamedParams entries list) (unnamedParams entries' list') := by
  induction params generalizing list list' with
  | nil => exact lists
  | cons param _ ih =>
    exact ih ((lists.push (trees_fieldOf .empty param.first)).separateBy param.separator)

theorem gathers_strayNames {names names' : List Positional} {separators separators' : List Span}
    {list list' : Elements} (trees : pairing.TreeLists names names')
    (spans : List.Forall₂ pairing.Spans separators separators')
    (lists : pairing.Gathers list list') :
    pairing.Gathers (strayNames names separators list)
      (strayNames names' separators' list') := by
  induction names generalizing names' separators separators' list list' with
  | nil =>
    cases trees
    exact lists
  | cons name names ih =>
    cases trees with
    | cons tree rest =>
      have pushed := lists.push (trees_fieldOf .empty tree)
      rw [strayNames, strayNames]
      cases spans with
      | nil => exact ih rest .nil pushed
      | cons span more => exact ih rest more (pushed.separateBy (.some span))

theorem goes_namedParams {entries entries' : List Param} {names names' list list' : Elements}
    (params : List.Forall₂ pairing.Params entries entries')
    (named : pairing.Gathers names names') (lists : pairing.Gathers list list')
    (abreast : pairing.Abreast n state state') :
    pairing.GoesList n (namedParams entries names list) state
      (namedParams entries' names' list') state' := by
  induction params generalizing n names names' list list' state state' with
  | nil =>
    obtain ⟨nodes, separators⟩ := named
    unfold namedParams
    cases found : names.nodes <;> cases found' : names'.nodes <;> rw [found, found'] at nodes <;>
      cases nodes
    · exact .pure abreast lists
    · next name rest =>
      exact .bind (.reportAt _ abreast name.spans) fun _ abreast _ =>
        .pure abreast (gathers_strayNames (.cons name rest) separators lists)
  | @cons entry entry' entries entries' param _ ih =>
    obtain ⟨first, type, separator⟩ := param
    have kinds : entry'.first.kind ≠ .ident ↔ entry.first.kind ≠ .ident := by rw [first.kind]
    have pushed := named.push first
    obtain ⟨name, _, _⟩ := entry
    obtain ⟨name', _, _⟩ := entry'
    unfold namedParams
    cases type with
    | some type =>
      have field := (lists.push (trees_fieldOf pushed type)).separateBy separator
      refine .ite_congr kinds (fun _ => ?_) fun _ => ih .empty field abreast
      exact .bind (.reportAt _ abreast first.spans) fun _ abreast _ => ih .empty field abreast
    | none =>
      have waiting := pushed.separateBy separator
      refine .ite_congr kinds (fun _ => ?_) fun _ => ih waiting lists abreast
      exact .bind (.reportAt _ abreast first.spans) fun _ abreast _ => ih waiting lists abreast

theorem goes_groupParams {entries entries' : List Param}
    (params : List.Forall₂ pairing.Params entries entries')
    (abreast : pairing.Abreast n state state') :
    pairing.GoesList n (groupParams entries) state (groupParams entries') state' := by
  have same : entries'.all (·.type.isNone) = entries.all (·.type.isNone) := by
    clear abreast
    induction params with
    | nil => rfl
    | cons param _ ih =>
      rw [List.all_cons, List.all_cons, ih, isNone_of_rel param.type]
  unfold groupParams
  refine .ite_congr (by rw [same]) (fun _ => ?_) fun _ => ?_
  · exact .pure abreast (gathers_unnamedParams params .empty)
  · exact goes_namedParams params .empty .empty abreast

theorem goes_paramEntry {element element' : Parse Positional}
    (elements : pairing.Within n element element') (le : m ≤ n)
    (abreast : pairing.Abreast m state state') :
    pairing.Goes m (fun _ entry entry' =>
        pairing.Trees entry.1 entry'.1 ∧ Option.Rel pairing.Trees entry.2 entry'.2)
      (paramEntry element) state (paramEntry element') state' := by
  have alone : ∀ {m state state'}, m ≤ n → pairing.Abreast m state state' →
      pairing.Goes m (fun _ entry entry' =>
          pairing.Trees entry.1 entry'.1 ∧ Option.Rel pairing.Trees entry.2 entry'.2)
        (do return (← element, none)) state (do return (← element', none)) state' :=
    fun le abreast => .bind (elements le abreast) fun _ abreast node =>
      .pure abreast ⟨node, .none⟩
  unfold paramEntry
  refine .peek abreast (.ite (fun _ => alone le abreast) fun isName => ?_)
  refine .aheadOne abreast fun same => ?_
  obtain ⟨rfl, -⟩ := same (by
    rw [Decidable.not_not] at isName
    simp [isName])
  split
  · exact alone le abreast
  · exact alone le abreast
  · exact alone le abreast
  · exact alone le abreast
  · exact .bind (goes_ident abreast) fun _ abreast name =>
      .bind (elements (by omega) abreast) fun _ abreast node =>
        .pure abreast ⟨name, .some node⟩

/-- An entry of a parameter list with the comma behind it. -/
def paramStep (closer : TokenKind) (element : Parse Positional) (entries : List Param) :
    Parse (Flow (List Param)) := do
  let kind ← peek
  if kind = closer ∨ kind = .eof then return .done entries
  let (first, type) ← paramEntry element
  if (← peek) = .comma then
    return .again (entries ++ [⟨first, type, some (← take).span⟩])
  return .done (entries ++ [⟨first, type, none⟩])

theorem paramEntries_eq (closer : TokenKind) (element : Parse Positional) :
    paramEntries closer element = iterate (paramStep closer element) [] := rfl

theorem steps_param {closer : TokenKind} {element element' : Parse Positional}
    (elements : pairing.Within n element element') :
    pairing.Steps n (List.Forall₂ pairing.Params) (fun _ => List.Forall₂ pairing.Params)
      (paramStep closer element) (paramStep closer element') := by
  intro left entries entries' state state' bound params abreast
  unfold paramStep
  refine .peek abreast (.ite (fun _ => .pure abreast (.done params)) fun _ => ?_)
  refine .bind (goes_paramEntry elements bound abreast) fun le abreast entry => ?_
  refine .peek abreast (.ite (fun isComma => ?_) fun _ => ?_)
  · exact .take abreast (by simp [isComma]) fun lt abreast comma =>
      .pure abreast (.again (by omega)
        (List.rel_append params (.cons ⟨entry.1, entry.2, .some comma.spans⟩ .nil)))
  · exact .pure abreast (.done (List.rel_append params (.cons ⟨entry.1, entry.2, .none⟩ .nil)))

theorem goes_params {closer : TokenKind} {element element' : Parse Positional}
    (elements : pairing.Within n element element') (abreast : pairing.Abreast n state state') :
    pairing.GoesList n (params closer element) state (params closer element') state' := by
  unfold params
  rw [paramEntries_eq, paramEntries_eq]
  exact .bind (.iterate (steps_param elements) (Nat.le_refl n) .nil abreast) fun _ abreast params =>
    goes_groupParams params abreast

/-! ## Signatures -/

/-- Rules that go abreast for the slots of a node. -/
abbrev Pairing.GoesSlots (pairing : Pairing) (n : Nat) (sorts : List SlotSort)
    (rule : Parse (List PositionalSlot)) (state : ParseState)
    (rule' : Parse (List PositionalSlot)) (state' : ParseState) : Prop :=
  pairing.Goes n (fun _ => pairing.SlotLists sorts) rule state rule' state'

/-- A delimited list: its opening token, its elements and its closing token. -/
abbrev bracketed : List SlotSort := [.token, .list, .token]

theorem slotLists_unbracketed :
    pairing.SlotLists bracketed [.token none, Elements.empty.slot, .token none]
      [.token none, Elements.empty.slot, .token none] :=
  .cons .vacant <| .cons Gathers.empty.slot <| .cons .vacant .nil

theorem goes_paramType (rulesGo : pairing.RulesGo n rules rules') (lt : m < n)
    (abreast : pairing.Abreast m state state') :
    pairing.GoesTree m (paramType rules) state (paramType rules') state' := by
  unfold paramType
  refine .peek abreast (.ite (fun _ => rulesGo.type lt abreast) fun isDots => ?_)
  rw [Decidable.not_not] at isDots
  exact .here abreast fun start => .take abreast (by simp [isDots]) fun _ abreast dots =>
    .bind (rulesGo.type (by omega) abreast) fun _ abreast elt =>
      .close abreast start (.cons (.token dots) <| .cons (.child elt) .nil)

theorem within_paramType (rulesGo : pairing.RulesGo n rules rules') (lt : m < n) :
    pairing.Within m (paramType rules) (paramType rules') :=
  fun le abreast => goes_paramType rulesGo (Nat.lt_of_le_of_lt le lt) abreast

theorem within_type (rulesGo : pairing.RulesGo n rules rules') (lt : m < n) :
    pairing.Within m rules.type rules'.type :=
  fun le abreast => rulesGo.type (Nat.lt_of_le_of_lt le lt) abreast

theorem goes_results (rulesGo : pairing.RulesGo n rules rules') (lt : m < n)
    (abreast : pairing.Abreast m state state') :
    pairing.GoesSlots m bracketed (results rules) state (results rules') state' := by
  unfold results
  refine .peek abreast (.ite (fun isParen => ?_) fun _ => .ite (fun _ => ?_) fun _ => ?_)
  · refine .take abreast (by simp [isParen]) fun _ abreast lparen => ?_
    refine .bind (goes_params (within_paramType rulesGo (by omega)) abreast) fun _ abreast list => ?_
    exact .bind (.expect abreast (by decide)) fun _ abreast rparen =>
      .pure abreast (.cons (.token lparen) <| .cons list.slot <| .cons (.ofToken rparen.rel) .nil)
  · exact .bind (rulesGo.type lt abreast) fun _ abreast result =>
      .pure abreast (.cons .vacant <|
        .cons (Gathers.single (trees_fieldOf .empty result)).slot <| .cons .vacant .nil)
  · exact .pure abreast slotLists_unbracketed

theorem goes_signature (rulesGo : pairing.RulesGo n rules rules') (lt : m < n)
    (abreast : pairing.Abreast m state state') :
    pairing.GoesSlots m (bracketed ++ bracketed) (signature rules) state
      (signature rules') state' := by
  unfold signature
  refine .bind (.expect abreast (by decide)) fun _ abreast found => ?_
  cases found with
  | found _ lparen =>
    refine .bind (goes_params (within_paramType rulesGo (by omega)) abreast) fun _ abreast list => ?_
    refine .bind (.expect abreast (by decide)) fun _ abreast rparen => ?_
    refine .bind (goes_results rulesGo (by omega) abreast) fun _ abreast results => ?_
    exact .pure abreast (.append (.cons (.token lparen) <| .cons list.slot <|
      .cons (.ofToken rparen.rel) .nil) results)
  | missing =>
    exact .bind (goes_results rulesGo (by omega) abreast) fun _ abreast results =>
      .pure abreast (slotLists_unbracketed.append results)

theorem goes_funcType (rulesGo : pairing.RulesGo n rules rules') (le : m ≤ n)
    (abreast : pairing.Abreast m state state') (more : state.current.kind ≠ .eof) :
    pairing.Goes m (fun left tree tree' => left < m ∧ pairing.Trees tree tree')
      (funcType rules) state (funcType rules') state' := by
  unfold funcType
  refine .here abreast fun start => .take abreast more fun _ abreast keyword => ?_
  refine .strict (by omega) ?_
  exact .bind (goes_signature rulesGo (by omega) abreast) fun _ abreast slots =>
    .close abreast start (.cons (.token keyword) slots)

/-! ## Constraints -/

theorem goes_constraintTerm (rulesGo : pairing.RulesGo n rules rules') (lt : m < n)
    (abreast : pairing.Abreast m state state') :
    pairing.GoesTree m (constraintTerm rules) state (constraintTerm rules') state' := by
  unfold constraintTerm
  refine .peek abreast (.ite (fun _ => rulesGo.type lt abreast) fun isTilde => ?_)
  rw [Decidable.not_not] at isTilde
  exact .here abreast fun start => .take abreast (by simp [isTilde]) fun _ abreast op =>
    .bind (rulesGo.type (by omega) abreast) fun _ abreast x =>
      .close abreast start (.cons (.token op) <| .cons (.child x) .nil)

/-- A bar with the term behind it. -/
def constraintStep (rules : Rules) (lhs : Positional) : Parse (Flow Positional) := do
  if (← peek) ≠ .pipe then return .done lhs
  let op ← take
  let rhs ← constraintTerm rules
  return .again (← close .binaryExpr lhs.span.start [childSlot lhs, tokenSlot op, childSlot rhs])

theorem constraint_eq (rules : Rules) :
    constraint rules = constraintTerm rules >>= fun first =>
      iterate (constraintStep rules) first := rfl

theorem steps_constraint (rulesGo : pairing.RulesGo n rules rules') (lt : m < n) :
    pairing.Steps m pairing.Trees (fun _ => pairing.Trees) (constraintStep rules)
      (constraintStep rules') := by
  intro left lhs lhs' state state' bound trees abreast
  unfold constraintStep
  refine .peek abreast (.ite (fun _ => .pure abreast (.done trees)) fun isPipe => ?_)
  rw [Decidable.not_not] at isPipe
  refine .take abreast (by simp [isPipe]) fun _ abreast op => ?_
  refine .bind (goes_constraintTerm rulesGo (by omega) abreast) fun _ abreast rhs => ?_
  refine .bind (.close abreast trees.spans.1 (.cons (.child trees) <| .cons (.token op) <|
    .cons (.child rhs) .nil)) fun _ abreast union => ?_
  exact .pure abreast (.again (by omega) union)

theorem goes_constraint (rulesGo : pairing.RulesGo n rules rules') (lt : m < n)
    (abreast : pairing.Abreast m state state') :
    pairing.GoesTree m (constraint rules) state (constraint rules') state' := by
  rw [constraint_eq, constraint_eq]
  exact .bind (goes_constraintTerm rulesGo lt abreast) fun le abreast first =>
    .iterate (steps_constraint rulesGo lt) le first abreast

theorem goes_typeParams (rulesGo : pairing.RulesGo n rules rules') (le : m ≤ n)
    (abreast : pairing.Abreast m state state') (more : state.current.kind ≠ .eof) :
    pairing.GoesSlots m bracketed (typeParams rules) state (typeParams rules') state' := by
  unfold typeParams
  refine .take abreast more fun _ abreast lbrack => ?_
  refine .bind (goes_params (fun le abreast => goes_constraint rulesGo (by omega) abreast) abreast)
    fun _ abreast list => ?_
  exact .bind (.expect abreast (by decide)) fun _ abreast rbrack =>
    .pure abreast (.cons (.token lbrack) <| .cons list.slot <| .cons (.ofToken rbrack.rel) .nil)

/-! ## Members -/

theorem goes_members {element element' : Parse Positional}
    (elements : pairing.Within n element element') (abreast : pairing.Abreast n state state') :
    pairing.GoesSlots n bracketed (members element) state (members element') state' := by
  unfold members
  refine .bind (.expect abreast (by decide)) fun le abreast found => ?_
  cases found with
  | found _ lbrace =>
    refine .bind (goes_terminated (fun le' => elements (by omega)) abreast) fun _ abreast list => ?_
    exact .bind (.expect abreast (by decide)) fun _ abreast rbrace =>
      .pure abreast (.cons (.token lbrace) <| .cons list.slot <| .cons (.ofToken rbrace.rel) .nil)
  | missing => exact .pure abreast slotLists_unbracketed

theorem goes_fieldRest {start start' : Nat} {names names' : Elements}
    (rulesGo : pairing.RulesGo n rules rules') (lt : m < n)
    (abreast : pairing.Abreast m state state') (starts : pairing.offset start start')
    (lists : pairing.Gathers names names') :
    pairing.GoesTree m (fieldRest rules start names) state
      (fieldRest rules' start' names') state' := by
  unfold fieldRest
  refine .bind (rulesGo.type lt abreast) fun _ abreast type => .peek abreast ?_
  refine .ite (fun isString => ?_) fun _ => ?_
  · exact .bind (goes_basicLit abreast (by simp [isString])) fun _ abreast tag =>
      .close abreast starts (.cons lists.slot <| .cons (.child type) <| .cons (.child tag) .nil)
  · exact .close abreast starts (.cons lists.slot <| .cons (.child type) <| .cons .childless .nil)

theorem goes_structField (rulesGo : pairing.RulesGo n rules rules') (lt : m < n)
    (abreast : pairing.Abreast m state state') :
    pairing.GoesTree m (structField rules) state (structField rules') state' := by
  unfold structField
  refine .here abreast fun start => .peek abreast ?_
  have embedded := goes_fieldRest rulesGo lt abreast start .empty
  refine .ite (fun _ => embedded) fun isName => .aheadOne abreast fun same => ?_
  rw [Decidable.not_not] at isName
  obtain ⟨rfl, -⟩ := same (by simp [isName])
  split
  case h_5 =>
    have named := Goes.bind (goes_separated (fun _ => goes_ident) abreast)
      fun _ abreast names => goes_fieldRest rulesGo (by omega) abreast start names
    exact named
  all_goals exact embedded

theorem goes_structType (rulesGo : pairing.RulesGo n rules rules') (le : m ≤ n)
    (abreast : pairing.Abreast m state state') (more : state.current.kind ≠ .eof) :
    pairing.GoesTree m (structType rules) state (structType rules') state' := by
  unfold structType
  refine .here abreast fun start => .take abreast more fun _ abreast keyword => ?_
  exact .bind (goes_members (fun _ => goes_structField rulesGo (by omega)) abreast)
    fun _ abreast slots => .close abreast start (.cons (.token keyword) slots)

theorem goes_interfaceMember (rulesGo : pairing.RulesGo n rules rules') (lt : m < n)
    (abreast : pairing.Abreast m state state') :
    pairing.GoesTree m (interfaceMember rules) state (interfaceMember rules') state' := by
  unfold interfaceMember
  refine .here abreast fun start => .peek abreast (.aheadOne abreast fun same => ?_)
  refine .ite_congr ?_ (fun isMethod => ?_) fun _ => ?_
  · exact and_congr_right fun isName => by rw [(same (by simp [isName])).1]
  · refine .bind (goes_ident abreast) fun _ abreast name => .here abreast fun inner => ?_
    refine .bind (goes_signature rulesGo (by omega) abreast) fun _ abreast slots => ?_
    refine .bind (.close abreast inner (.cons .vacant slots)) fun _ abreast type => ?_
    exact .close abreast start (.cons (Gathers.single name).slot <| .cons (.child type) <|
      .cons .childless .nil)
  · exact .bind (goes_constraint rulesGo lt abreast) fun _ abreast type =>
      .close abreast start (.cons Gathers.empty.slot <| .cons (.child type) <|
        .cons .childless .nil)

theorem goes_interfaceType (rulesGo : pairing.RulesGo n rules rules') (le : m ≤ n)
    (abreast : pairing.Abreast m state state') (more : state.current.kind ≠ .eof) :
    pairing.GoesTree m (interfaceType rules) state (interfaceType rules') state' := by
  unfold interfaceType
  refine .here abreast fun start => .take abreast more fun _ abreast keyword => ?_
  exact .bind (goes_members (fun _ => goes_interfaceMember rulesGo (by omega)) abreast)
    fun _ abreast slots => .close abreast start (.cons (.token keyword) slots)

/-! ## Types -/

theorem goes_typeArgs {base base' : Positional} (rulesGo : pairing.RulesGo n rules rules')
    (le : m ≤ n) (trees : pairing.Trees base base') (abreast : pairing.Abreast m state state')
    (more : state.current.kind ≠ .eof) :
    pairing.GoesTree m (typeArgs rules base) state (typeArgs rules' base') state' := by
  unfold typeArgs
  refine .take abreast more fun _ abreast lbrack => ?_
  refine .bind (goes_delimited (within_type rulesGo (by omega)) abreast)
    fun {_ list list' _ _} _ abreast args => ?_
  refine .bind (.expect abreast (by decide)) fun _ abreast rbrack => ?_
  have listed := Slots.list args.nodes args.separators
  obtain ⟨nodes, separators⟩ := args
  obtain ⟨_, _⟩ := list
  obtain ⟨_, _⟩ := list'
  have several := SlotLists.cons (.child trees) <| .cons (.token lbrack) <| .cons listed <|
    .cons (.ofToken rbrack.rel) .nil
  cases nodes with
  | nil => exact .close abreast trees.spans.1 several
  | cons index rest =>
    cases rest with
    | nil =>
      cases separators with
      | nil =>
        exact .close abreast trees.spans.1 (.cons (.child trees) <| .cons (.token lbrack) <|
          .cons (.child index) <| .cons (.ofToken rbrack.rel) .nil)
      | cons _ _ => exact .close abreast trees.spans.1 several
    | cons _ _ => exact .close abreast trees.spans.1 several

theorem goes_typeName (rulesGo : pairing.RulesGo n rules rules') (le : m ≤ n)
    (abreast : pairing.Abreast m state state') :
    pairing.GoesTree m (typeName rules) state (typeName rules') state' := by
  unfold typeName
  refine .bind (goes_ident abreast) fun _ abreast name => .peek abreast ?_
  have goesOn : ∀ {k state state' name name'}, k ≤ n → pairing.Abreast k state state' →
      pairing.Trees name name' → pairing.GoesTree k
        (do if (← peek) = .leftBracket then typeArgs rules name else return name) state
        (do if (← peek) = .leftBracket then typeArgs rules' name' else return name') state' :=
    fun le abreast name => .peek abreast (.ite
      (fun isBracket => goes_typeArgs rulesGo le name abreast (by simp [isBracket]))
      fun _ => .pure abreast name)
  refine .ite (fun isDot => ?_) fun _ => goesOn (by omega) abreast name
  refine .take abreast (by simp [isDot]) fun _ abreast dot => ?_
  refine .bind (goes_ident abreast) fun _ abreast sel => ?_
  refine .bind (.close abreast name.spans.1 (.cons (.child name) <| .cons (.token dot) <|
    .cons (.child sel) .nil)) fun _ abreast qualified => ?_
  exact goesOn (by omega) abreast qualified

theorem goes_arrayLength (rulesGo : pairing.RulesGo n rules rules') (lt : m < n)
    (abreast : pairing.Abreast m state state') :
    pairing.Goes m (fun _ => Option.Rel pairing.Trees) (arrayLength rules) state
      (arrayLength rules') state' := by
  unfold arrayLength
  refine .peek abreast ?_
  split
  · exact .pure abreast .none
  · next isDots =>
    refine .here abreast fun start => .take abreast (by simp [isDots]) fun _ abreast dots => ?_
    exact .bind (.close abreast start (.cons (.token dots) <| .cons .childless .nil))
      fun _ abreast tree => .pure abreast (.some tree)
  · exact .bind (rulesGo.binary lt abreast) fun _ abreast tree => .pure abreast (.some tree)

theorem goes_arrayType (rulesGo : pairing.RulesGo n rules rules') (le : m ≤ n)
    (abreast : pairing.Abreast m state state') (more : state.current.kind ≠ .eof) :
    pairing.GoesTree m (arrayType rules) state (arrayType rules') state' := by
  unfold arrayType
  refine .here abreast fun start => .take abreast more fun _ abreast lbrack => ?_
  refine .bind (goes_arrayLength rulesGo (by omega) abreast) fun _ abreast len => ?_
  refine .bind (.expect abreast (by decide)) fun _ abreast rbrack => ?_
  refine .bind (rulesGo.type (by omega) abreast) fun _ abreast elt => ?_
  exact .close abreast start (.cons (.token lbrack) <| .cons (.ofChild len) <|
    .cons (.ofToken rbrack.rel) <| .cons (.child elt) .nil)

theorem goes_mapType (rulesGo : pairing.RulesGo n rules rules') (le : m ≤ n)
    (abreast : pairing.Abreast m state state') (more : state.current.kind ≠ .eof) :
    pairing.GoesTree m (mapType rules) state (mapType rules') state' := by
  unfold mapType
  refine .here abreast fun start => .take abreast more fun _ abreast keyword => ?_
  refine .bind (.expect abreast (by decide)) fun _ abreast lbrack => ?_
  refine .bind (rulesGo.type (by omega) abreast) fun _ abreast key => ?_
  refine .bind (.expect abreast (by decide)) fun _ abreast rbrack => ?_
  refine .bind (rulesGo.type (by omega) abreast) fun _ abreast value => ?_
  exact .close abreast start (.cons (.token keyword) <| .cons (.ofToken lbrack.rel) <|
    .cons (.child key) <| .cons (.ofToken rbrack.rel) <| .cons (.child value) .nil)

theorem goes_type (rulesGo : pairing.RulesGo n rules rules') (le : m ≤ n)
    (abreast : pairing.Abreast m state state') :
    pairing.GoesTree m (type rules) state (type rules') state' := by
  unfold type
  refine .peek abreast ?_
  split
  · exact goes_typeName rulesGo le abreast
  · next isStar =>
    refine .here abreast fun start => .take abreast (by simp [isStar]) fun _ abreast star => ?_
    exact .bind (rulesGo.type (by omega) abreast) fun _ abreast x =>
      .close abreast start (.cons (.token star) <| .cons (.child x) .nil)
  · next is => exact goes_arrayType rulesGo le abreast (by simp [is])
  · next is => exact goes_mapType rulesGo le abreast (by simp [is])
  · next is => exact (goes_funcType rulesGo le abreast (by simp [is])).relax
  · next is => exact goes_structType rulesGo le abreast (by simp [is])
  · next is => exact goes_interfaceType rulesGo le abreast (by simp [is])
  · next isParen =>
    refine .here abreast fun start => .take abreast (by simp [isParen]) fun _ abreast lparen => ?_
    refine .bind (rulesGo.type (by omega) abreast) fun _ abreast x => ?_
    exact .bind (.expect abreast (by decide)) fun _ abreast rparen =>
      .close abreast start (.cons (.token lparen) <| .cons (.child x) <|
        .cons (.ofToken rparen.rel) .nil)
  · exact goes_bad rfl abreast

end Grammar

end GoTrivia
