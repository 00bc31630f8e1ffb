import GoTrivia.Proofs.Grammar.AbreastExpressions
import GoTrivia.Proofs.Grammar.GrowingTypes

/-!
# How expressions grow

Operands with what follows them, operators, and lists of expressions.

**Precedence.** While operators are read from left to right, what stands on the left may stand
below the operator in line, whichever that is (`Climbing`): the right operand was read up to an
operator that binds no tighter than the one in front of it.
-/

set_option autoImplicit false

namespace GoTrivia

namespace Grammar

variable {origin state : ParseState} {n : Nat} {rules : Rules} {literals : Bool} {x : Positional}

/-- An expression between brackets. -/
theorem leads_inner (lead : RulesLead origin n rules) (lt : state.upcoming.length < n)
    (stands : Stands origin state) :
    Leads origin (Resting origin (.whole true) 0) (rules.binary true 1) state :=
  (lead.binary lt (by decide) stands).imp fun _ _ _ inner => inner.1.weaken (Nat.zero_le _)

/-! ## What follows an operand -/

/-- What goes on from an operand takes a token and makes another one. -/
abbrev Follows (origin : ParseState) (place : Place) (rule : Parse Positional)
    (state : ParseState) : Prop :=
  Leads origin (fun tree after => Resting origin place tightest tree after ∧
    after.upcoming.length < state.upcoming.length) rule state

theorem leads_selectorOrAssertion (lead : RulesLead origin n rules)
    (le : state.upcoming.length ≤ n) (stands : Stands origin state)
    (resting : Resting origin (.operand literals) tightest x state)
    (isDot : state.current.kind = .dot) :
    Follows origin (.operand literals) (selectorOrAssertion rules x) state := by
  unfold selectorOrAssertion
  refine .ahead (.ite (fun _ => ?_) fun isParen => ?_)
  · refine .takeStrict stands (by simp [isDot]) fun taken _ _ => ?_
    refine .bind (leads_ident taken.stands) fun after _ _ sel => ?_
    exact .closeResting after (resting.rests.past stands (by omega)) sel.rests.firm
      (.cons (.child resting.grown (by omega) (Nat.le_refl _)) <| .cons .token <|
        .cons (.child sel.grown (Nat.le_refl _) (Nat.zero_le _)) .nil) rfl
  · rw [Decidable.not_not] at isParen
    have isParen := ParseState.kind_advance isParen (by decide)
    refine .takeStrict stands (by simp [isDot]) fun taken _ _ => ?_
    refine .take taken.stands (by simp [isParen]) fun taken _ _ => .peek ?_
    have goesOn : ∀ {dot lparen now asserted}, Stands origin now →
        now.upcoming.length < state.upcoming.length →
        state.diagnostics.length ≤ now.diagnostics.length →
        Resting origin .type tightest asserted now →
        Leads origin (Resting origin (.operand literals) tightest)
          (do
            let rparen ← expect .rightParen "expected `)`"
            close .typeAssertExpr x.span.start
              [childSlot x, tokenSlot dot, tokenSlot lparen, childSlot asserted, .token rparen]) now :=
      fun stands' fewer le asserted => .bind (.expect stands' (by decide)) fun after _ _ rparen =>
        .closeResting after (resting.rests.past stands (by omega))
          (rparen.firm stands' asserted.rests.firm (by decide))
          (.cons (.child resting.grown (by omega) (Nat.le_refl _)) <| .cons .token <|
            .cons .token <| .cons (.child asserted.grown (by omega) (Nat.zero_le _)) <|
            .cons .token .nil) rfl
    refine .ite (fun isType => ?_) fun _ => ?_
    · exact .bind (leads_takeIdent .type rfl taken.stands (by simp [isType]) (by simp [isType]))
        fun stands _ _ asserted => goesOn stands (by omega) (by omega) asserted.1
    · exact .bind (lead.type (by omega) taken.stands) fun stands _ _ asserted =>
        goesOn stands (by omega) (by omega) asserted

theorem leads_sliceFrom {lbrack : Lexeme} {low : Option Positional}
    (lead : RulesLead origin n rules) (le : state.upcoming.length ≤ n) (stands : Stands origin state)
    (grown : Grown origin.tokens state.diagnostics.length (.operand literals) tightest x)
    (past : Past origin x.span.start state)
    (lows : ∀ tree, low = some tree →
      Grown origin.tokens state.diagnostics.length (.whole true) 0 tree)
    (isColon : state.current.kind = .colon) :
    Leads origin (Resting origin (.operand literals) tightest) (sliceFrom rules x lbrack low)
      state := by
  unfold sliceFrom
  refine .take stands (by simp [isColon]) fun taken _ _ => .peek ?_
  have goesOn : ∀ {colon now high}, Stands origin now → Firm origin now →
      now.upcoming.length ≤ state.upcoming.length →
      state.diagnostics.length ≤ now.diagnostics.length →
      (∀ tree, high = some tree → Grown origin.tokens now.diagnostics.length (.whole true) 0 tree) →
      Leads origin (Resting origin (.operand literals) tightest)
        (do
          let rbrack ← expect .rightBracket "expected `]`"
          close .sliceExpr x.span.start
            [childSlot x, tokenSlot lbrack, .child low, tokenSlot colon, .child high,
              .token rbrack])
        now :=
    fun stands firm fewer le highs => .bind (.expect stands (by decide)) fun after _ _ rbrack =>
      .closeResting after (past.later (by omega)) (rbrack.firm stands firm (by decide))
        (.cons (.child grown (by omega) (Nat.le_refl _)) <| .cons .token <|
          .cons (.optional lows (by omega) (Nat.zero_le _)) <| .cons .token <|
          .cons (.optional highs (by omega) (Nat.zero_le _)) <| .cons .token .nil) rfl
  refine .ite (fun _ => ?_) fun _ => ?_
  · exact goesOn taken.stands (taken.firm (by simp [isColon])) (by omega) (by omega) nofun
  · refine .bind (leads_inner lead (by omega) taken.stands) fun stands _ _ high => ?_
    refine goesOn stands high.rests.firm (by omega) (by omega) ?_
    rintro tree ⟨⟩
    exact high.grown

theorem leads_indexOrSlice (lead : RulesLead origin n rules) (le : state.upcoming.length ≤ n)
    (stands : Stands origin state) (resting : Resting origin (.operand literals) tightest x state)
    (isBracket : state.current.kind = .leftBracket) :
    Follows origin (.operand literals) (indexOrSlice rules x) state := by
  unfold indexOrSlice
  refine .takeStrict stands (by simp [isBracket]) fun taken fewer same => ?_
  have past : ∀ {now}, now.upcoming.length ≤ state.advance.upcoming.length →
      Past origin x.span.start now := fun le => resting.rests.past stands (by omega)
  refine .peek (.ite (fun isColon => ?_) fun _ => ?_)
  · exact leads_sliceFrom lead (by omega) taken.stands (resting.grown.mono (by omega))
      (past (Nat.le_refl _)) nofun isColon
  refine .bind (leads_inner lead (by omega) taken.stands) fun {first now} stands' fewer' le' inner =>
    .peek ?_
  have grown : ∀ {count}, now.diagnostics.length ≤ count →
      Grown origin.tokens count (.operand literals) tightest x :=
    fun le => resting.grown.mono (by omega)
  split
  · next isColon =>
    refine leads_sliceFrom lead (by omega) stands' (grown (Nat.le_refl _)) (past fewer') ?_ isColon
    rintro tree ⟨⟩
    exact inner.grown
  · next isComma =>
    have closed := (Elements.hangs_single first).separate (inner.rests.behind isComma)
    refine .take stands' (by simp [isComma]) fun taken _ same => ?_
    refine .bind (leads_delimited (fun now le stands => lead.type (by omega) stands) taken.stands
      (taken.firm (by simp [isComma]))) fun {rest now} stands' _ le' listed => ?_
    obtain ⟨listing, firm⟩ := listed
    refine .bind (.expect stands' (by decide)) fun {_ later} after _ _ rbrack => ?_
    have places : ∀ index node, (first :: rest.nodes)[index]? = some node →
        Grown origin.tokens now.diagnostics.length
          (placeAt (.operand literals) .indexListExpr .indices index) 0 node := by
      rintro (_ | index) node found
      · obtain rfl : first = node := by simpa using found
        exact inner.grown.mono (by omega)
      · have mem : node ∈ rest.nodes := List.mem_of_getElem? (by simpa using found)
        exact listing.grows.weaken node mem
    exact .closeResting after (past (by omega)) (rbrack.firm stands' firm (by decide))
      (.cons (.child (grown (by omega)) (Nat.le_refl _) (Nat.le_refl _)) <| .cons .token <|
        .cons (.commasAt places (by omega) (closed.append listing.commas) rfl rfl rfl) <|
        .cons .token .nil) rfl
  · refine .bind (.expect stands' (by decide)) fun after _ _ rbrack => ?_
    exact .closeResting after (past (by omega)) (rbrack.firm stands' inner.rests.firm (by decide))
      (.cons (.child (grown (by omega)) (Nat.le_refl _) (Nat.le_refl _)) <| .cons .token <|
        .cons (.child inner.grown (by omega) (Nat.zero_le _)) <| .cons .token .nil) rfl

/-- Arguments stand firm, with the dots behind them. -/
theorem leads_arguments (lead : RulesLead origin n rules) (lt : state.upcoming.length < n)
    (stands : Stands origin state) (firm : Firm origin state) :
    Leads origin (fun args after => Listing origin (.whole true) 0 args.1 after ∧ Firm origin after)
      (arguments rules) state := by
  rw [arguments_eq]
  refine leads_iterate (fun args now => args.1.Closed origin.tokens ∧
    args.1.Grows origin.tokens now.diagnostics.length (.whole true) 0 ∧ Firm origin now) ?_ stands
    ⟨Elements.closed_empty, Elements.grows_empty, firm⟩
  rintro ⟨args, _⟩ now stands fewer - ⟨closed, grows, firm⟩
  unfold argumentStep
  refine .peek (.ite (fun _ => .pure stands (.done ⟨⟨grows, closed.commas⟩, firm⟩)) fun _ => ?_)
  refine .bind (leads_inner lead (by omega) stands) fun {argument later} stands _ _ resting =>
    .peek ?_
  have pushed := (grows.mono (by omega)).push resting.grown
  have hangs := closed.push argument
  split
  · next isDots =>
    refine .take stands (by simp [isDots]) fun taken _ _ => .pure taken.stands (.done ⟨⟨?_, ?_⟩, ?_⟩)
    · exact pushed.mono (by omega)
    · exact hangs.commas
    · exact taken.firm (by simp [isDots])
  · next isComma =>
    refine .take stands (by simp [isComma]) fun taken _ _ => .pure taken.stands ?_
    exact .again (by omega) ⟨hangs.separate (resting.rests.behind isComma), pushed.mono (by omega),
      taken.firm (by simp [isComma])⟩
  · exact .pure stands (.done ⟨⟨pushed, hangs.commas⟩, resting.rests.firm⟩)

theorem leads_call (lead : RulesLead origin n rules) (le : state.upcoming.length ≤ n)
    (stands : Stands origin state) (resting : Resting origin (.operand literals) tightest x state)
    (isParen : state.current.kind = .leftParen) :
    Follows origin (.operand literals) (call rules x) state := by
  unfold call
  refine .takeStrict stands (by simp [isParen]) fun taken _ _ => ?_
  refine .bind (leads_arguments lead (by omega) taken.stands (taken.firm (by simp [isParen])))
    fun stands' _ _ args => ?_
  refine .bind (.expect stands' (by decide)) fun after _ _ rparen => ?_
  exact .closeResting after (resting.rests.past stands (by omega))
    (rparen.firm stands' args.2 (by decide))
    (.cons (.child resting.grown (by omega) (Nat.le_refl _)) <| .cons .token <|
      .cons (.commas (fun _ => args.1.grows) (by omega) args.1.commas rfl rfl rfl) <| .cons .token <|
      .cons .token .nil) rfl

/-! ## Literals -/

theorem leads_elementValue (lead : RulesLead origin n rules) (lt : state.upcoming.length < n)
    (stands : Stands origin state) :
    Leads origin (Resting origin (.whole true) 0) (elementValue rules) state := by
  unfold elementValue
  refine .peek (.ite (fun isBrace => ?_) fun _ => leads_inner lead lt stands)
  exact (lead.elided lt stands isBrace).imp fun _ _ _ elided => elided.weaken (Nat.zero_le _)

theorem leads_element (lead : RulesLead origin n rules) (lt : state.upcoming.length < n)
    (stands : Stands origin state) :
    Leads origin (Resting origin (.whole true) 0) (element rules) state := by
  unfold element
  refine .bind (leads_elementValue lead lt stands) fun {key now} stands _ _ resting => .peek ?_
  refine .ite (fun _ => .pure stands resting) fun isColon => ?_
  rw [Decidable.not_not] at isColon
  refine .take stands (by simp [isColon]) fun taken _ _ => ?_
  refine .bind (leads_elementValue lead (by omega) taken.stands) fun after _ _ value => ?_
  exact .closeResting after (resting.rests.past stands (by omega)) value.rests.firm
    (.cons (.child resting.grown (by omega) (Nat.zero_le _)) <| .cons .token <|
      .cons (.child value.grown (Nat.le_refl _) (Nat.zero_le _)) .nil) rfl

/-- A brace behind a bare type name is only read where it opens a literal. -/
theorem leads_compositeLit {extent : Extent} {start : Nat} {type : Option Positional}
    (lead : RulesLead origin n rules) (le : state.upcoming.length ≤ n) (stands : Stands origin state)
    (since : start ≤ state.current.span.start)
    (grown : ∀ tree, type = some tree →
      Grown origin.tokens state.diagnostics.length (.operand literals) tightest tree)
    (opens : literals = false → ∀ tree, type = some tree → isTypeName tree.kind = false)
    (isBrace : state.current.kind = .leftBrace) :
    Follows origin (.code extent literals) (compositeLit rules start type) state := by
  unfold compositeLit
  refine .takeStrict stands (by simp [isBrace]) fun taken _ _ => ?_
  refine .bind (leads_delimited (fun now le stands => leads_element lead (by omega) stands)
    taken.stands (taken.firm (by simp [isBrace]))) fun stands' _ _ elts => ?_
  refine .bind (.expect stands' (by decide)) fun after _ _ rbrace => ?_
  have firm := rbrace.firm stands' elts.2 (by decide)
  refine .close after ⟨Fills.node (.cons (.optional grown (by omega) (Nat.zero_le _)) <|
      .cons .token <| .cons (.commas (fun _ => elts.1.grows) (by omega) elts.1.commas rfl rfl rfl) <|
      .cons .token .nil) (by decide) (fun isShut => ?_) nofun nofun,
    rests_closing after (.of_start stands since (by omega)) firm⟩
  cases type with
  | none => rfl
  | some tree => exact opens (by simpa [Place.isShut] using isShut) tree rfl

theorem leads_elided (lead : RulesLead origin n rules) (le : state.upcoming.length ≤ n)
    (stands : Stands origin state) (isBrace : state.current.kind = .leftBrace) :
    Leads origin (Resting origin (.whole true) tightest) (elided rules) state := by
  unfold elided
  have literal : Follows origin (.whole true) (compositeLit rules state.current.span.start none)
      state := leads_compositeLit lead le stands (Nat.le_refl _) nofun nofun isBrace
  exact .here (literal.imp fun _ _ _ literal => literal.1)

theorem leads_funcLit (lead : RulesLead origin n rules) (le : state.upcoming.length ≤ n)
    (stands : Stands origin state) (isFunc : state.current.kind = .funcKw) :
    Leads origin (Resting origin (.operand literals) tightest) (funcLit rules) state := by
  unfold funcLit
  refine .bind (leads_funcType lead le stands isFunc) fun {type now} stands _ _ found => .peek ?_
  obtain ⟨⟨resting, past⟩, fewer⟩ := found
  refine .ite (fun _ => .pure stands (resting _)) fun _ => ?_
  refine .bind (lead.block (by omega) stands) fun {body later} after fewer' _ body => ?_
  have grown : Grown origin.tokens later.diagnostics.length (.whole true) 0 _ := body.1
  have type := resting .type
  exact .closeResting after (past.later fewer') (body.2 type.rests.firm)
    (.cons (.child type.grown (by omega) (Nat.zero_le _)) <|
    .cons (.child grown (Nat.le_refl _) (Nat.zero_le _)) .nil) rfl

/-! ## Operands -/

theorem leads_operand (lead : RulesLead origin n rules) (le : state.upcoming.length ≤ n)
    (stands : Stands origin state) :
    Leads origin (Resting origin (.operand literals) tightest) (operand rules) state := by
  unfold operand
  refine .peek (.ite (fun isLiteral => leads_basicLit _ stands isLiteral) fun _ => ?_)
  split
  · exact leads_identAt _ rfl stands
  · next isParen =>
    refine .here (.take stands (by simp [isParen]) fun taken _ _ => ?_)
    refine .bind (leads_inner lead (by omega) taken.stands) fun stands' _ _ inner => ?_
    refine .bind (.expect stands' (by decide)) fun after _ _ rparen => ?_
    exact .closeResting after (.of_start stands (Nat.le_refl _) (by omega))
      (rparen.firm stands' inner.rests.firm (by decide))
      (.cons .token <| .cons (.child inner.grown (by omega) (Nat.zero_le _)) <|
      .cons .token .nil) rfl
  · next isFunc => exact leads_funcLit lead le stands isFunc
  · next is => exact leads_typeLit lead le stands (by simp [is])
  · next is => exact leads_typeLit lead le stands (by simp [is])
  · next is => exact leads_typeLit lead le stands (by simp [is])
  · next is => exact leads_typeLit lead le stands (by simp [is])
  · exact leads_bad stands rfl rfl

/-- Without literals of bare type names, a brace is read behind other types only. -/
theorem isTypeName_of_acceptsLiteral {kind : NodeKind}
    (accepts : acceptsLiteral literals kind = true) (isFalse : literals = false) : isTypeName kind = false := by
  subst isFalse
  cases kind <;> simp_all [acceptsLiteral, isTypeName]

theorem acceptsLiteral_of_isTypeName {kind : NodeKind} (isTrue : literals = true)
    (isName : isTypeName kind = true) : acceptsLiteral literals kind = true := by
  subst isTrue
  cases kind <;> first | rfl | cases isName

/-- A brace behind a bare type name is read where it opens a literal, so an operand ends in
front of another token. -/
theorem steps_followed (lead : RulesLead origin n rules) (le : state.upcoming.length ≤ n) :
    Strides origin state (Resting origin (.operand literals) tightest)
      (Resting origin (.whole literals) tightest) (primaryStep rules literals) := by
  intro x now stands fewer _ resting
  have goesOn : ∀ {rule}, Follows origin (.operand literals) rule now → Leads origin
      (Proceeds now.upcoming.length (Resting origin (.operand literals) tightest)
        (Resting origin (.whole literals) tightest)) (do return .again (← rule)) now :=
    fun follows => .bind follows fun after _ _ tree => .pure after (.again tree.2 tree.1)
  unfold primaryStep
  refine .peek ?_
  split
  · next is => exact goesOn (leads_selectorOrAssertion lead (by omega) stands resting is)
  · next is => exact goesOn (leads_indexOrSlice lead (by omega) stands resting is)
  · next is => exact goesOn (leads_call lead (by omega) stands resting is)
  · next isBrace =>
    refine .ite (fun accepts => goesOn ?_) fun refuses => .pure stands (.done ?_)
    case refine_2 =>
      refine resting.finish stands lead.fresh fun isTrue isName => ?_
      exact absurd (acceptsLiteral_of_isTypeName isTrue isName) refuses
    refine leads_compositeLit lead (by omega) stands resting.rests.since ?_ ?_ isBrace
    · rintro tree ⟨⟩
      exact resting.grown
    · rintro isFalse tree ⟨⟩
      exact isTypeName_of_acceptsLiteral accepts isFalse
  · next other =>
    exact .pure stands (.done (resting.finish stands lead.fresh fun _ _ => other))

theorem leads_primary (lead : RulesLead origin n rules) (le : state.upcoming.length ≤ n)
    (stands : Stands origin state) :
    Leads origin (Resting origin (.whole literals) tightest) (primary rules literals) state := by
  rw [primary_eq]
  exact .bind (leads_operand lead le stands) fun stands fewer _ x =>
    leads_iterate _ (steps_followed lead (by omega)) stands x

/-! ## Operators -/

theorem leads_unary (lead : RulesLead origin n rules) (le : state.upcoming.length ≤ n)
    (stands : Stands origin state) :
    Leads origin (Resting origin (.whole literals) tightest) (unary rules literals) state := by
  unfold unary
  refine .peek (.ite (fun isOperator => ?_) fun _ => leads_primary lead le stands)
  have more : state.current.kind ≠ .eof := fun isEnd => by
    simp [isEnd, TokenKind.isUnaryOperator] at isOperator
  refine .here (.take stands more fun taken _ _ => ?_)
  refine .bind (lead.unary (by omega) taken.stands) fun {x later} after _ _ resting => ?_
  have past : Past origin state.current.span.start later :=
    .of_start stands (Nat.le_refl _) (by omega)
  split
  · exact .closeResting after past resting.rests.firm
      (.cons .token <| .cons (.child resting.grown (Nat.le_refl _) (Nat.le_refl _)) .nil) rfl
  · exact .closeResting after past resting.rests.firm
      (.cons .token <| .cons (.child resting.grown (Nat.le_refl _) (Nat.le_refl _)) .nil) rfl

theorem precedence_lt {kind : TokenKind} {precedence : Nat}
    (binds : kind.precedence? = some precedence) : precedence < tightest := by
  have all : ∀ kind ∈ TokenKind.all, ∀ precedence ∈ kind.precedence?, precedence < tightest := by
    decide
  exact all kind (TokenKind.mem_all kind) precedence binds

/-- Operands and operators read so far may stand below the operator in line. -/
structure Climbing (origin : ParseState) (literals : Bool) (least : Nat) (lhs : Positional)
    (now : ParseState) : Prop where
  resting : Resting origin (.whole literals) least lhs now
  below : ∀ precedence, now.current.kind.precedence? = some precedence →
    Grown origin.tokens now.diagnostics.length (.whole literals) precedence lhs

theorem steps_operator {least : Nat} (lead : RulesLead origin n rules)
    (le : state.upcoming.length ≤ n) :
    Strides origin state (Climbing origin literals least)
      (fun tree after => Resting origin (.whole literals) least tree after ∧ Stops least after)
      (binaryStep rules literals least) := by
  intro lhs now stands fewer _ climbing
  unfold binaryStep
  refine .peek ?_
  split
  · next precedence binds =>
    refine .ite (fun atLeast => ?_) fun looser => .pure stands (.done ⟨climbing.resting, ?_⟩)
    · have more : now.current.kind ≠ .eof := fun isEnd => by
        simp [isEnd, TokenKind.precedence?] at binds
      refine .take stands more fun taken _ _ => ?_
      refine .bind (lead.binary (by omega) (precedence_lt binds) taken.stands)
        fun {rhs later} after _ _ right => ?_
      have past : Past origin lhs.span.start later := climbing.resting.rests.past stands (by omega)
      have left : Grown origin.tokens later.diagnostics.length (.whole literals) precedence lhs :=
        (climbing.below precedence binds).mono (by omega)
      have grown : ∀ {span least}, least ≤ precedence →
          Grown origin.tokens later.diagnostics.length (.whole literals) least
            (.node .binaryExpr span [childSlot lhs, tokenSlot now.current.toLexeme,
              childSlot rhs]) :=
        fun atLeast => grown_binary stands binds atLeast left right.1.grown
      refine .closed (.pure after (.again (by omega) ⟨⟨grown atLeast, ?_⟩, fun next binds => ?_⟩))
      · exact rests_closing after past right.1.rests.firm
      · exact grown (Nat.le_of_lt_succ (right.2 next binds))
    · intro other same
      obtain rfl := Option.some.inj (binds.symm.trans same)
      omega
  · next none =>
    refine .pure stands (.done ⟨climbing.resting, fun other same => ?_⟩)
    cases none.symm.trans same

theorem leads_binary {least : Nat} (bound : least ≤ tightest) (lead : RulesLead origin n rules)
    (le : state.upcoming.length ≤ n) (stands : Stands origin state) :
    Leads origin (fun tree after =>
        Resting origin (.whole literals) least tree after ∧ Stops least after)
      (binary rules literals least) state := by
  rw [binary_eq]
  refine .bind (leads_unary lead le stands) fun stands fewer _ x => ?_
  refine leads_iterate _ (steps_operator lead (by omega)) stands ⟨x.weaken bound, ?_⟩
  exact fun precedence binds => (x.weaken (Nat.le_of_lt (precedence_lt binds))).grown

theorem leads_expr (lead : RulesLead origin n rules) (le : state.upcoming.length ≤ n)
    (stands : Stands origin state) :
    Leads origin (Resting origin (.whole literals) 0) (expr rules literals) state :=
  (leads_binary (by decide) lead le stands).imp fun _ _ _ tree => tree.1.weaken (Nat.zero_le _)

theorem leads_exprList (lead : RulesLead origin n rules) (le : state.upcoming.length ≤ n)
    (stands : Stands origin state) :
    Leads origin (Listing origin (.whole literals) 0) (exprList rules literals) state :=
  leads_separated (fun _ fewer stands => leads_expr lead (Nat.le_trans fewer le) stands) stands

end Grammar

end GoTrivia
