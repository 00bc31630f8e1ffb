import GoTrivia.Proofs.Grammar.AbreastDeclarations
import GoTrivia.Proofs.Grammar.Statements

/-!
# Statements and files abreast

The last rules go abreast, and so do the levels of rules on top of any two that go abreast.
Below as many levels as there are tokens nothing is asked of the rules at the bottom: no run
gets there.
-/

set_option autoImplicit false

namespace GoTrivia

namespace Grammar

open Pairing

variable {pairing : Pairing} {n m : Nat} {state state' : ParseState} {rules rules' : Rules}
  {literals : Bool} {lhs lhs' : Elements}

/-! ## Simple statements -/

/-- Nothing is taken to find the one expression of a list. -/
theorem goes_single (abreast : pairing.Abreast m state state')
    (lists : pairing.Gathers lhs lhs') :
    pairing.Goes m (fun left tree tree' => left = m ∧ pairing.Trees tree tree')
      (single lhs) state (single lhs') state' := by
  obtain ⟨nodes, -⟩ := lists
  obtain ⟨nodes, _⟩ := lhs
  obtain ⟨nodes', _⟩ := lhs'
  cases nodes with
  | nil =>
    refine .here abreast fun start => ⟨m, Nat.le_refl m, abreast, rfl, ?_⟩
    exact .node (abreast.closing start) .nil
  | cons x rest =>
    cases rest with
    | nil => exact .pure abreast ⟨rfl, x⟩
    | cons extra _ =>
      exact .bind (.reportAt _ abreast extra.spans) fun _ abreast same => .pure abreast ⟨same, x⟩

theorem goes_finishSimple (rulesGo : pairing.RulesGo n rules rules') (le : m ≤ n)
    (abreast : pairing.Abreast m state state') (lists : pairing.Gathers lhs lhs') :
    pairing.GoesTree m (finishSimple rules literals lhs) state
      (finishSimple rules' literals lhs') state' := by
  unfold finishSimple
  refine .peek abreast (.ite (fun isAssign => ?_) fun _ => ?_)
  · have more : state.current.kind ≠ .eof := fun isEnd => by
      simp [isEnd, TokenKind.isAssignOperator] at isAssign
    have goesOn : ∀ {start start'}, pairing.offset start start' →
        pairing.GoesTree m
          (do
            let tok ← take
            let rhs ← exprList rules literals
            close .assignStmt start [lhs.slot, tokenSlot tok, rhs.slot]) state
          (do
            let tok ← take
            let rhs ← exprList rules' literals
            close .assignStmt start' [lhs'.slot, tokenSlot tok, rhs.slot]) state' :=
      fun starts => .take abreast more fun _ abreast tok =>
        .bind (goes_exprList rulesGo (by omega) abreast) fun _ abreast rhs =>
          .close abreast starts (.cons lists.slot <| .cons (.token tok) <| .cons rhs.slot .nil)
    have nodes := lists.nodes
    obtain ⟨_, _⟩ := lhs
    obtain ⟨_, _⟩ := lhs'
    cases nodes with
    | nil => exact .here abreast goesOn
    | cons first _ => exact goesOn first.spans.1
  · have pos := abreast.pos
    refine .bind (goes_single abreast lists) fun _ after x => ?_
    obtain ⟨rfl, x⟩ := x
    refine .ite (fun isStep => ?_) fun _ => .close after x.spans.1 (.cons (.child x) .nil)
    have more := after.pos_iff.mp (pos (by rcases isStep with is | is <;> simp [is]))
    exact .take after more fun _ abreast tok =>
      .close abreast x.spans.1 (.cons (.child x) <| .cons (.token tok) .nil)

theorem goes_simple (rulesGo : pairing.RulesGo n rules rules') (le : m ≤ n)
    (abreast : pairing.Abreast m state state') :
    pairing.GoesTree m (simple rules literals) state (simple rules' literals) state' :=
  .bind (goes_exprList rulesGo le abreast) fun _ abreast lists =>
    goes_finishSimple rulesGo (by omega) abreast lists

theorem goes_exprOf {stmt stmt' : Positional} (abreast : pairing.Abreast m state state')
    (trees : pairing.Trees stmt stmt') :
    pairing.GoesTree m (exprOf stmt) state (exprOf stmt') state' := by
  have reported : pairing.GoesTree m
      (do
        reportAt "expected an expression" stmt.span
        return .node .badExpr stmt.span []) state
      (do
        reportAt "expected an expression" stmt'.span
        return .node .badExpr stmt'.span []) state' :=
    .bind (.reportAt _ abreast trees.spans) fun _ abreast _ => .pure abreast (.node trees.spans .nil)
  cases trees with
  | @node kind info info' slots slots' spans lists =>
    by_cases isExpr : kind = .exprStmt
    · subst isExpr
      cases lists with
      | cons slot _ =>
        cases slot with
        | child x => exact .pure abreast x
        | childless => exact reported
    · rw [exprOf.eq_2 _ fun _ _ _ same => isExpr (by cases same; rfl),
        exprOf.eq_2 _ fun _ _ _ same => isExpr (by cases same; rfl)]
      exact reported

/-! ## Blocks and conditionals -/

theorem goes_block (rulesGo : pairing.RulesGo n rules rules') (le : m ≤ n)
    (abreast : pairing.Abreast m state state') :
    pairing.GoesTree m (block rules) state (block rules') state' := by
  unfold block
  refine .here abreast fun start => .bind (.expect abreast (by decide)) fun _ abreast found => ?_
  cases found with
  | found _ lbrace =>
    refine .bind (rulesGo.statements (by omega) abreast) fun _ abreast list => ?_
    exact .bind (.expect abreast (by decide)) fun _ abreast rbrace =>
      .close abreast start (.cons (.token lbrace) <| .cons list.slot <|
        .cons (.ofToken rbrace.rel) .nil)
  | missing => exact .close abreast start slotLists_unbracketed

/-- What the slots of an initial statement, its semicolon and a condition are for. -/
abbrev conditioned : List SlotSort := [.child, .token, .child]

theorem goes_conditionalHeader (rulesGo : pairing.RulesGo n rules rules') (le : m ≤ n)
    (abreast : pairing.Abreast m state state') :
    pairing.GoesSlots m conditioned (conditionalHeader rules) state
      (conditionalHeader rules') state' := by
  unfold conditionalHeader
  refine .bind (goes_simple rulesGo le abreast) fun _ abreast stmt => .peek abreast ?_
  refine .ite (fun isSemicolon => ?_) fun _ => ?_
  · refine .take abreast (by simp [isSemicolon]) fun _ abreast semicolon => ?_
    exact .bind (goes_expr rulesGo (by omega) abreast) fun _ abreast cond =>
      .pure abreast (.cons (.child stmt) <| .cons (.token semicolon) <| .cons (.child cond) .nil)
  · exact .bind (goes_exprOf abreast stmt) fun _ abreast cond =>
      .pure abreast (.cons .childless <| .cons .vacant <| .cons (.child cond) .nil)

theorem goes_conditional (rulesGo : pairing.RulesGo n rules rules') (le : m ≤ n)
    (abreast : pairing.Abreast m state state') (more : state.current.kind ≠ .eof) :
    pairing.GoesTree m (conditional rules) state (conditional rules') state' := by
  unfold conditional
  refine .here abreast fun start => .take abreast more fun _ abreast keyword => ?_
  refine .bind (goes_conditionalHeader rulesGo (by omega) abreast) fun _ abreast header => ?_
  refine .bind (goes_block rulesGo (by omega) abreast) fun _ abreast body => .peek abreast ?_
  have front := (SlotLists.nil.cons (.token keyword)).append header
  refine .ite (fun isElse => ?_) fun _ => ?_
  · refine .take abreast (by simp [isElse]) fun _ abreast elseToken => .peek abreast ?_
    refine .ite (fun isIf => ?_) fun _ => ?_
    · exact .bind (rulesGo.conditional (by omega) abreast (by simp [isIf]))
        fun _ abreast alternative => .close abreast start (front.append <| .cons (.child body) <|
          .cons (.token elseToken) <| .cons (.child alternative) .nil)
    · exact .bind (goes_block rulesGo (by omega) abreast)
        fun _ abreast alternative => .close abreast start (front.append <| .cons (.child body) <|
          .cons (.token elseToken) <| .cons (.child alternative) .nil)
  · exact .close abreast start (front.append <| .cons (.child body) <| .cons .vacant <|
      .cons .childless .nil)

/-! ## Loops -/

/-- Headers of loops that agree but for where they stand, with slots as a loop of their kind
asks between its keyword and its body. -/
structure Pairing.Headers (pairing : Pairing) (header header' : NodeKind × List PositionalSlot) :
    Prop where
  kind : header.1 = header'.1
  slots : ∃ sorts, slotSorts header.1 = [.token] ++ sorts ++ [.child] ∧
    pairing.SlotLists sorts header.2 header'.2

theorem slotLists_iterated (lists : pairing.Gathers lhs lhs') :
    pairing.SlotLists conditioned (iteratedSlots lhs) (iteratedSlots lhs') := by
  obtain ⟨nodes, separators⟩ := lists
  obtain ⟨nodes, separators⟩ := lhs
  obtain ⟨nodes', separators'⟩ := lhs'
  cases nodes with
  | nil => exact .cons .childless <| .cons .vacant <| .cons .childless .nil
  | cons key rest =>
    have alone := SlotLists.cons (.child key) <| .cons .vacant <| .cons .childless .nil
    cases rest with
    | nil => exact alone
    | cons value _ =>
      cases separators with
      | nil => exact alone
      | cons comma _ =>
        exact .cons (.child key) <| .cons (.token ⟨rfl, comma⟩) <| .cons (.child value) .nil

theorem goes_rangeRest (rulesGo : pairing.RulesGo n rules rules') (le : m ≤ n)
    (abreast : pairing.Abreast m state state') (lists : pairing.Gathers lhs lhs')
    (more : state.current.kind ≠ .eof) (next : state.advance.current.kind = .rangeKw) :
    pairing.Goes m (fun _ => pairing.Headers) (rangeRest rules lhs) state
      (rangeRest rules' lhs') state' := by
  unfold rangeRest
  refine .take abreast more fun _ abreast tok => ?_
  refine .take abreast (by simp [next]) fun _ abreast keyword => ?_
  refine .bind (goes_expr rulesGo (by omega) abreast) fun _ abreast x => ?_
  exact .pure abreast ⟨rfl, conditioned ++ [.token, .token, .child], rfl,
    (slotLists_iterated lists).append <| .cons (.token tok) <| .cons (.token keyword) <|
      .cons (.child x) .nil⟩

theorem goes_rangeHeader (rulesGo : pairing.RulesGo n rules rules') (le : m ≤ n)
    (abreast : pairing.Abreast m state state') (lists : pairing.Gathers lhs lhs')
    (more : state.current.kind ≠ .eof) (next : state.advance.current.kind = .rangeKw) :
    pairing.Goes m (fun _ => pairing.Headers) (rangeHeader rules lhs) state
      (rangeHeader rules' lhs') state' := by
  have plain := goes_rangeRest rulesGo le abreast lists more next
  have nodes := lists.nodes
  -- Reporting leaves the tokens in line as they are.
  have kept : ∀ diagnostics, ({ state with diagnostics := diagnostics }).advance.current =
      state.advance.current := fun _ => by
    unfold ParseState.advance
    cases state.upcoming <;> rfl
  have reported : ∀ {extra extra' : Positional}, pairing.Trees extra extra' →
      pairing.Goes m (fun _ => pairing.Headers)
        (do
          reportAt "expected at most two iteration variables" extra.span
          rangeRest rules lhs) state
        (do
          reportAt "expected at most two iteration variables" extra'.span
          rangeRest rules' lhs') state' := by
    intro extra extra' trees
    obtain ⟨left, -, after, same⟩ :=
      Goes.reportAt "expected at most two iteration variables" abreast trees.spans
    rw [same] at after
    exact goes_rangeRest rulesGo le after lists more ((congrArg Token.kind (kept _)).trans next)
  rw [rangeHeader_eq, rangeHeader_eq]
  generalize lhs.nodes = trees, lhs'.nodes = trees' at nodes
  cases nodes with
  | nil => exact plain
  | cons _ rest =>
    cases rest with
    | nil => exact plain
    | cons _ rest =>
      cases rest with
      | nil => exact plain
      | cons extra _ => exact reported extra

/-- The header of a counting loop behind its condition. -/
def countingRest (rules : Rules) (init : Option Positional) (semicolon : Lexeme)
    (cond : Option Positional) : Parse (NodeKind × List PositionalSlot) := do
  let condSemicolon ← expect .semicolon "expected `;`"
  let post ← if (← peek) = .leftBrace then pure none else pure (some (← simple rules false))
  return (.forStmt,
    [.child init, tokenSlot semicolon, .child cond, .token condSemicolon, .child post])

theorem goes_countingRest {init init' cond cond' : Option Positional}
    {semicolon semicolon' : Lexeme} (rulesGo : pairing.RulesGo n rules rules') (le : m ≤ n)
    (abreast : pairing.Abreast m state state') (inits : Option.Rel pairing.Trees init init')
    (lexemes : pairing.Lexemes semicolon semicolon')
    (conds : Option.Rel pairing.Trees cond cond') :
    pairing.Goes m (fun _ => pairing.Headers) (countingRest rules init semicolon cond) state
      (countingRest rules' init' semicolon' cond') state' := by
  unfold countingRest
  refine .bind (.expect abreast (by decide)) fun _ abreast condSemicolon => .peek abreast ?_
  have front := SlotLists.cons (.ofChild inits) <| .cons (.token lexemes) <|
    .cons (.ofChild conds) <| .cons (.ofToken condSemicolon.rel) .nil
  refine .ite (fun _ => ?_) fun _ => ?_
  · exact .pure abreast ⟨rfl, _, rfl, front.append (.cons .childless .nil)⟩
  · exact .bind (goes_simple rulesGo (by omega) abreast) fun _ abreast post =>
      .pure abreast ⟨rfl, _, rfl, front.append (.cons (.child post) .nil)⟩

theorem goes_countingHeader {init init' : Option Positional}
    (rulesGo : pairing.RulesGo n rules rules') (le : m ≤ n)
    (abreast : pairing.Abreast m state state') (inits : Option.Rel pairing.Trees init init')
    (more : state.current.kind ≠ .eof) :
    pairing.Goes m (fun _ => pairing.Headers) (countingHeader rules init) state
      (countingHeader rules' init') state' := by
  unfold countingHeader
  refine .take abreast more fun _ abreast semicolon => .peek abreast (.ite (fun _ => ?_) fun _ => ?_)
  · exact goes_countingRest rulesGo (by omega) abreast inits semicolon .none
  · exact .bind (goes_expr rulesGo (by omega) abreast) fun _ abreast cond =>
      goes_countingRest rulesGo (by omega) abreast inits semicolon (.some cond)

theorem goes_loopHeader (rulesGo : pairing.RulesGo n rules rules') (le : m ≤ n)
    (abreast : pairing.Abreast m state state') :
    pairing.Goes m (fun _ => pairing.Headers) (loopHeader rules) state
      (loopHeader rules') state' := by
  unfold loopHeader
  refine .peek abreast ?_
  split
  · exact .pure abreast ⟨rfl, _, rfl, .cons .childless <| .cons .vacant <| .cons .childless <|
      .cons .vacant <| .cons .childless .nil⟩
  · next isRange =>
    refine .take abreast (by simp [isRange]) fun _ abreast keyword => ?_
    exact .bind (goes_expr rulesGo (by omega) abreast) fun _ abreast x =>
      .pure abreast ⟨rfl, _, rfl, .cons .childless <| .cons .vacant <| .cons .childless <|
        .cons .vacant <| .cons (.token keyword) <| .cons (.child x) .nil⟩
  · next is => exact goes_countingHeader rulesGo le abreast .none (by simp [is])
  · refine .bind (goes_exprList rulesGo le abreast) fun _ abreast lists => .peek abreast ?_
    have more : ∀ {kind : TokenKind}, kind = .colonEq ∨ kind = .eq → kind ≠ .eof := by
      rintro _ (rfl | rfl) <;> decide
    refine .aheadOne abreast fun same => .ite_congr ?_ (fun isRange => ?_) fun _ => ?_
    · exact and_congr_right fun isAssign => by rw [(same (more isAssign)).1]
    · obtain ⟨isAssign, isRange⟩ := isRange
      exact goes_rangeHeader rulesGo (by omega) abreast lists (more isAssign)
        ((same (more isAssign)).2 ▸ isRange)
    · refine .bind (goes_finishSimple rulesGo (by omega) abreast lists) fun _ abreast stmt => ?_
      refine .peek abreast (.ite (fun isSemicolon => ?_) fun _ => ?_)
      · exact goes_countingHeader rulesGo (by omega) abreast (.some stmt) (by simp [isSemicolon])
      · exact .bind (goes_exprOf abreast stmt) fun _ abreast cond =>
          .pure abreast ⟨rfl, _, rfl, .cons .childless <| .cons .vacant <| .cons (.child cond) <|
            .cons .vacant <| .cons .childless .nil⟩

theorem goes_loop (rulesGo : pairing.RulesGo n rules rules') (le : m ≤ n)
    (abreast : pairing.Abreast m state state') (more : state.current.kind ≠ .eof) :
    pairing.GoesTree m (loop rules) state (loop rules') state' := by
  unfold loop
  refine .here abreast fun start => .take abreast more fun _ abreast keyword => ?_
  refine .bind (goes_loopHeader rulesGo (by omega) abreast)
    fun {_ header header' _ _} _ abreast headers => ?_
  refine .bind (goes_block rulesGo (by omega) abreast) fun _ abreast body => ?_
  obtain ⟨same, sorts, whole, slots⟩ := headers
  obtain ⟨kind, slots⟩ := header
  obtain ⟨kind', slots'⟩ := header'
  obtain rfl : kind = kind' := same
  exact .close abreast start (whole ▸ ((SlotLists.nil.cons (.token keyword)).append slots).append
    (.cons (.child body) .nil))

/-! ## Switches -/

theorem goes_caseClause (rulesGo : pairing.RulesGo n rules rules') (le : m ≤ n)
    (abreast : pairing.Abreast m state state') (more : state.current.kind ≠ .eof) :
    pairing.Goes m (fun left tree tree' => left < m ∧ pairing.Trees tree tree')
      (caseClause rules) state (caseClause rules') state' := by
  unfold caseClause
  refine .here abreast fun start => .peek abreast ?_
  refine .take abreast more fun _ abreast keyword => .strict (by omega) ?_
  have goesOn : ∀ {k now now' list list'}, k < n → pairing.Abreast k now now' →
      pairing.Gathers list list' → pairing.GoesTree k
        (do
          let colon ← expect .colon "expected `:`"
          let body ← rules.statements
          close .caseClause state.current.span.start
            [tokenSlot state.current.toLexeme, list.slot, .token colon, body.slot]) now
        (do
          let colon ← expect .colon "expected `:`"
          let body ← rules'.statements
          close .caseClause state'.current.span.start
            [tokenSlot state'.current.toLexeme, list'.slot, .token colon, body.slot]) now' :=
    fun lt abreast lists => .bind (.expect abreast (by decide)) fun _ abreast colon =>
      .bind (rulesGo.statements (by omega) abreast) fun _ abreast body =>
        .close abreast start (.cons (.token keyword) <| .cons lists.slot <|
          .cons (.ofToken colon.rel) <| .cons body.slot .nil)
  refine .ite (fun _ => ?_) fun _ => goesOn (by omega) abreast .empty
  exact .bind (goes_exprList rulesGo (by omega) abreast) fun _ abreast lists =>
    goesOn (by omega) abreast lists

/-- A clause of a switch, or a token that is none. -/
def clauseStep (rules : Rules) (list : Elements) : Parse (Flow Elements) := do
  match ← peek with
  | .rightBrace | .eof => return .done list
  | .caseKw | .defaultKw => return .again (list.push (← caseClause rules))
  | _ =>
    report "expected `case` or `default`"
    let _ ← take
    return .again list

theorem clauses_eq (rules : Rules) : clauses rules = iterate (clauseStep rules) .empty := rfl

theorem steps_clause (rulesGo : pairing.RulesGo n rules rules') :
    pairing.Steps n pairing.Gathers (fun _ => pairing.Gathers) (clauseStep rules)
      (clauseStep rules') := by
  intro left list list' state state' bound lists abreast
  have clause : state.current.kind ≠ .eof → pairing.Goes left
      (Flows left pairing.Gathers fun _ => pairing.Gathers)
      (do return .again (list.push (← caseClause rules))) state
      (do return .again (list'.push (← caseClause rules'))) state' := fun more => by
    obtain ⟨rest, le, after, lt, tree⟩ := goes_caseClause rulesGo bound abreast more
    exact ⟨rest, le, after, .again lt (lists.push tree)⟩
  unfold clauseStep
  refine .peek abreast ?_
  split
  · exact .pure abreast (.done lists)
  · exact .pure abreast (.done lists)
  · next is => exact clause (by simp [is])
  · next is => exact clause (by simp [is])
  · next more _ _ =>
    have pos := abreast.pos more
    refine .bind (.report abreast) fun _ abreast same => ?_
    exact .take abreast (abreast.pos_iff.mp (by omega)) fun _ abreast _ =>
      .pure abreast (.again (by omega) lists)

theorem goes_switchBody (rulesGo : pairing.RulesGo n rules rules') (le : m ≤ n)
    (abreast : pairing.Abreast m state state') :
    pairing.GoesTree m (switchBody rules) state (switchBody rules') state' := by
  unfold switchBody
  refine .here abreast fun start => .bind (.expect abreast (by decide)) fun _ abreast found => ?_
  cases found with
  | found _ lbrace =>
    rw [clauses_eq, clauses_eq]
    refine .bind (.iterate (steps_clause rulesGo) (by omega) .empty abreast) fun _ abreast list => ?_
    exact .bind (.expect abreast (by decide)) fun _ abreast rbrace =>
      .close abreast start (.cons (.token lbrace) <| .cons list.slot <|
        .cons (.ofToken rbrace.rel) .nil)
  | missing => exact .close abreast start slotLists_unbracketed

theorem goes_switchHeader (rulesGo : pairing.RulesGo n rules rules') (le : m ≤ n)
    (abreast : pairing.Abreast m state state') :
    pairing.GoesSlots m conditioned (switchHeader rules) state (switchHeader rules') state' := by
  unfold switchHeader
  refine .peek abreast (.ite (fun _ => ?_) fun _ => ?_)
  · exact .pure abreast (.cons .childless <| .cons .vacant <| .cons .childless .nil)
  refine .bind (goes_simple rulesGo le abreast) fun _ abreast stmt => .peek abreast ?_
  refine .ite (fun isSemicolon => ?_) fun _ => ?_
  · refine .take abreast (by simp [isSemicolon]) fun _ abreast semicolon => .peek abreast ?_
    have front := SlotLists.nil.cons (.token semicolon) |>.cons (.child stmt)
    refine .ite (fun _ => .pure abreast (front.append (.cons .childless .nil))) fun _ => ?_
    exact .bind (goes_simple rulesGo (by omega) abreast) fun _ abreast second =>
      .bind (goes_exprOf abreast second) fun _ abreast tag =>
        .pure abreast (front.append (.cons (.child tag) .nil))
  · exact .bind (goes_exprOf abreast stmt) fun _ abreast tag =>
      .pure abreast (.cons .childless <| .cons .vacant <| .cons (.child tag) .nil)

theorem goes_switchStmt (rulesGo : pairing.RulesGo n rules rules') (le : m ≤ n)
    (abreast : pairing.Abreast m state state') (more : state.current.kind ≠ .eof) :
    pairing.GoesTree m (switchStmt rules) state (switchStmt rules') state' := by
  unfold switchStmt
  refine .here abreast fun start => .take abreast more fun _ abreast keyword => ?_
  refine .bind (goes_switchHeader rulesGo (by omega) abreast) fun _ abreast header => ?_
  exact .bind (goes_switchBody rulesGo (by omega) abreast) fun _ abreast body =>
    .close abreast start (((SlotLists.nil.cons (.token keyword)).append header).append
      (.cons (.child body) .nil))

/-! ## Statements -/

theorem goes_callStmt {kind : NodeKind} (whole : slotSorts kind = [.token, .child])
    (rulesGo : pairing.RulesGo n rules rules') (le : m ≤ n)
    (abreast : pairing.Abreast m state state') (more : state.current.kind ≠ .eof) :
    pairing.GoesTree m (callStmt rules kind) state (callStmt rules' kind) state' := by
  unfold callStmt
  refine .here abreast fun start => .take abreast more fun _ abreast keyword => ?_
  exact .bind (goes_expr rulesGo (by omega) abreast) fun _ abreast call =>
    .close abreast start (whole ▸ .cons (.token keyword) (.cons (.child call) .nil))

theorem goes_returnStmt (rulesGo : pairing.RulesGo n rules rules') (le : m ≤ n)
    (abreast : pairing.Abreast m state state') (more : state.current.kind ≠ .eof) :
    pairing.GoesTree m (returnStmt rules) state (returnStmt rules') state' := by
  unfold returnStmt
  refine .here abreast fun start => .take abreast more fun _ abreast keyword => .peek abreast ?_
  refine .ite (fun _ => ?_) fun _ => ?_
  · exact .close abreast start (.cons (.token keyword) <| .cons Gathers.empty.slot .nil)
  · exact .bind (goes_exprList rulesGo (by omega) abreast) fun _ abreast results =>
      .close abreast start (.cons (.token keyword) <| .cons results.slot .nil)

theorem goes_branchStmt (abreast : pairing.Abreast m state state')
    (more : state.current.kind ≠ .eof) :
    pairing.GoesTree m branchStmt state branchStmt state' := by
  unfold branchStmt
  refine .here abreast fun start => .take abreast more fun _ abreast tok => .peek abreast ?_
  refine .ite (fun _ => ?_) fun _ => ?_
  · exact .bind (goes_ident abreast) fun _ abreast label =>
      .close abreast start (.cons (.token tok) <| .cons (.child label) .nil)
  · exact .close abreast start (.cons (.token tok) <| .cons .childless .nil)

theorem goes_declStmt (rulesGo : pairing.RulesGo n rules rules') (le : m ≤ n)
    (abreast : pairing.Abreast m state state') (more : state.current.kind ≠ .eof) :
    pairing.GoesTree m (declStmt rules) state (declStmt rules') state' := by
  unfold declStmt
  exact .here abreast fun start => .bind (goes_genDecl rulesGo le abreast more)
    fun _ abreast decl => .close abreast start (.cons (.child decl) .nil)

theorem goes_statement (rulesGo : pairing.RulesGo n rules rules') (le : m ≤ n)
    (abreast : pairing.Abreast m state state') :
    pairing.GoesTree m (statement rules) state (statement rules') state' := by
  unfold statement
  refine .peek abreast ?_
  split
  · next is => exact goes_declStmt rulesGo le abreast (by simp [is])
  · next is => exact goes_declStmt rulesGo le abreast (by simp [is])
  · next is => exact goes_declStmt rulesGo le abreast (by simp [is])
  · next is => exact goes_returnStmt rulesGo le abreast (by simp [is])
  · next is => exact goes_branchStmt abreast (by simp [is])
  · next is => exact goes_branchStmt abreast (by simp [is])
  · next is => exact goes_branchStmt abreast (by simp [is])
  · next is => exact goes_branchStmt abreast (by simp [is])
  · next is => exact goes_callStmt rfl rulesGo le abreast (by simp [is])
  · next is => exact goes_callStmt rfl rulesGo le abreast (by simp [is])
  · exact goes_block rulesGo le abreast
  · next is => exact goes_conditional rulesGo le abreast (by simp [is])
  · next is => exact goes_loop rulesGo le abreast (by simp [is])
  · next is => exact goes_switchStmt rulesGo le abreast (by simp [is])
  · exact goes_simple rulesGo le abreast

/-- A lone semicolon, or a statement with what terminates it. -/
def statementStep (rules : Rules) (list : Elements) : Parse (Flow Elements) := do
  if statementsEnd.contains (← peek) then return .done list
  else if ← takeIf .semicolon then return .again list
  else
    let before ← remaining
    let stmt ← statement rules
    terminator
    ensureProgress before
    return .again (list.push stmt)

theorem statements_eq (rules : Rules) :
    statements rules = iterate (statementStep rules) .empty := rfl

theorem steps_statement (rulesGo : pairing.RulesGo n rules rules') :
    pairing.Steps n pairing.Gathers (fun _ => pairing.Gathers) (statementStep rules)
      (statementStep rules') := by
  intro left list list' state state' bound lists abreast
  unfold statementStep
  refine .peek abreast (.ite (fun _ => .pure abreast (.done lists)) fun goesOn => ?_)
  have more : state.current.kind ≠ .eof := fun isEnd => goesOn (by rw [isEnd]; rfl)
  have pos := abreast.pos more
  refine .bind (.takeIf abreast (by decide)) fun {_ lone _ _ _} _ abreast found => ?_
  obtain ⟨rfl, took⟩ := found
  refine .ite (fun isLone => ?_) fun notLone => ?_
  · rw [if_pos isLone] at took
    exact .pure abreast (.again took lists)
  · rw [if_neg notLone] at took
    refine .remaining abreast (.bind (goes_statement rulesGo (by omega) abreast) fun _ abreast stmt => ?_)
    refine .bind (goes_terminator abreast) fun _ abreast _ => ?_
    refine .bind (goes_ensureProgress abreast (by omega) (by omega)) fun _ abreast lt => ?_
    exact .pure abreast (.again (by omega) (lists.push stmt))

theorem goes_statements (rulesGo : pairing.RulesGo n rules rules') (le : m ≤ n)
    (abreast : pairing.Abreast m state state') :
    pairing.GoesList m (statements rules) state (statements rules') state' :=
  .iterate (steps_statement rulesGo) le .empty abreast

/-! ## Levels -/

/-- Rules stacked a number of levels high on top of given ones. -/
def Rules.stack (bottom : Rules) : Nat → Rules
  | 0 => bottom
  | n + 1 => (bottom.stack n).next

theorem Rules.level_eq_stack (n : Nat) : Rules.level n = Rules.exhausted.stack n := by
  induction n with
  | zero => rfl
  | succ n ih => rw [Rules.level, Rules.stack, ih]

theorem Pairing.RulesGo.next (rulesGo : pairing.RulesGo n rules rules') :
    pairing.RulesGo (n + 1) rules.next rules'.next where
  type lt := goes_type rulesGo (Nat.le_of_lt_succ lt)
  binary lt := goes_binary rulesGo (Nat.le_of_lt_succ lt)
  unary lt := goes_unary rulesGo (Nat.le_of_lt_succ lt)
  elided lt := goes_elided rulesGo (Nat.le_of_lt_succ lt)
  block lt := goes_block rulesGo (Nat.le_of_lt_succ lt)
  statements lt := goes_statements rulesGo (Nat.le_of_lt_succ lt)
  conditional lt := goes_conditional rulesGo (Nat.le_of_lt_succ lt)

/-- Whatever lies at the bottom, rules go abreast until they have taken as many tokens as they
have levels. -/
theorem rulesGo_stack (pairing : Pairing) (bottom bottom' : Rules) (n : Nat) :
    pairing.RulesGo n (bottom.stack n) (bottom'.stack n) := by
  induction n with
  | zero => exact ⟨by simp, by simp, by simp, by simp, by simp, by simp, by simp⟩
  | succ n ih => exact ih.next

/-! ## Files -/

theorem goes_file {length length' : Nat} (rulesGo : pairing.RulesGo n rules rules') (le : m ≤ n)
    (lengths : pairing.offset length length') (abreast : pairing.Abreast m state state') :
    pairing.Goes m (fun left tree tree' => left = 0 ∧ pairing.Trees tree tree') (file rules length)
      state (file rules' length') state' := by
  unfold file
  refine .here abreast fun start => .bind (.expect abreast (by decide)) fun _ abreast keyword => ?_
  refine .bind (goes_ident abreast) fun _ abreast name => ?_
  refine .bind (goes_terminator abreast) fun _ abreast _ => ?_
  refine .bind (goes_terminated_eof (fun le abreast => goes_decl rulesGo (by omega) abreast) abreast)
    fun _ abreast decls => ?_
  exact .pure abreast ⟨decls.1, .node ⟨start, pairing.max lengths start⟩ <|
    .cons (.ofToken keyword.rel) <| .cons (.child name) <| .cons decls.2.slot .nil⟩

/-! ## Token lists -/

theorem ahead_of_forall₂ {front tokens' : List Token} {last : Token}
    (tokens : List.Forall₂ pairing.Tokens (front ++ [last]) tokens')
    (others : ∀ token ∈ front, token.kind ≠ .eof) (isEnd : last.kind = .eof) :
    pairing.Ahead front.length (front ++ [last] ++ pairing.beyond) (tokens' ++ pairing.beyond') := by
  induction front generalizing tokens' with
  | nil =>
    cases tokens with
    | cons same rest =>
      cases rest
      exact .ended same isEnd
  | cons token front ih =>
    cases tokens with
    | cons same rest =>
      obtain ⟨other, others⟩ := List.forall_mem_cons.mp others
      exact .token same other (ih rest others)

theorem abreast_start {tokens tokens' : List Token} {diagnostics diagnostics' : List Diagnostic}
    (ahead : pairing.Ahead n tokens tokens')
    (reports : List.Forall₂ pairing.Reports diagnostics diagnostics') :
    pairing.Abreast n (.start tokens diagnostics) (.start tokens' diagnostics') := by
  cases ahead with
  | ended same isEnd => exact ⟨.ended same isEnd, .inl ⟨rfl, rfl⟩, reports⟩
  | token same other rest => exact ⟨.token same other rest, .inl ⟨rfl, rfl⟩, reports⟩

/-- **Reading abreast.** Token lists that agree up to their ends are read the same, on top of
any rules at the bottom and with anything behind the ends, which is left as it is. -/
theorem goes_read (bottom bottom' : Rules) {length length' levels : Nat}
    {tokens tokens' : List Token} {diagnostics diagnostics' : List Diagnostic}
    (ahead : pairing.Ahead n tokens tokens') (enough : n ≤ levels)
    (lengths : pairing.offset length length')
    (reports : List.Forall₂ pairing.Reports diagnostics diagnostics') :
    pairing.Goes n (fun left tree tree' => left = 0 ∧ pairing.Trees tree tree')
      (file (bottom.stack levels) length) (.start tokens diagnostics)
      (file (bottom'.stack levels) length') (.start tokens' diagnostics') :=
  goes_file (rulesGo_stack pairing bottom bottom' levels) enough lengths
    (abreast_start ahead reports)

end Grammar

end GoTrivia
