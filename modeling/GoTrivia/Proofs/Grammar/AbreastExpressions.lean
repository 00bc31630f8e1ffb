import GoTrivia.Proofs.Grammar.AbreastTypes

/-!
# Expressions abreast

Operands with what follows them, operators and lists of expressions go abreast.
-/

set_option autoImplicit false

namespace GoTrivia

namespace Grammar

open Pairing

variable {pairing : Pairing} {n m : Nat} {state state' : ParseState} {rules rules' : Rules}
  {literals : Bool} {x x' : Positional}

/-! ## What follows an operand -/

theorem goes_selectorOrAssertion (rulesGo : pairing.RulesGo n rules rules') (le : m ≤ n)
    (trees : pairing.Trees x x') (abreast : pairing.Abreast m state state')
    (more : state.current.kind ≠ .eof) :
    pairing.Goes m (fun left tree tree' => left < m ∧ pairing.Trees tree tree')
      (selectorOrAssertion rules x) state (selectorOrAssertion rules' x') state' := by
  unfold selectorOrAssertion
  refine .aheadOne abreast fun same => ?_
  obtain ⟨rfl, next⟩ := same more
  refine .ite (fun _ => ?_) fun isParen => ?_
  · refine .take abreast more fun _ abreast dot => .strict (by omega) ?_
    refine .bind (goes_ident abreast) fun _ abreast sel => ?_
    exact .close abreast trees.spans.1 (.cons (.child trees) <| .cons (.token dot) <|
      .cons (.child sel) .nil)
  · rw [Decidable.not_not, next] at isParen
    refine .take abreast more fun _ abreast dot => .strict (by omega) ?_
    refine .take abreast (by simp [isParen]) fun _ abreast lparen => .peek abreast ?_
    have goesOn : ∀ {k state state' asserted asserted'}, pairing.Abreast k state state' →
        pairing.Trees asserted asserted' → pairing.GoesTree k
          (do
            let rparen ← expect .rightParen "expected `)`"
            close .typeAssertExpr x.span.start
              [childSlot x, tokenSlot _, tokenSlot _, childSlot asserted, .token rparen]) state
          (do
            let rparen ← expect .rightParen "expected `)`"
            close .typeAssertExpr x'.span.start
              [childSlot x', tokenSlot _, tokenSlot _, childSlot asserted', .token rparen]) state' :=
      fun abreast asserted => .bind (.expect abreast (by decide)) fun _ abreast rparen =>
        .close abreast trees.spans.1 (.cons (.child trees) <| .cons (.token dot) <|
          .cons (.token lparen) <| .cons (.child asserted) <| .cons (.ofToken rparen.rel) .nil)
    refine .ite (fun isType => ?_) fun _ => ?_
    · exact .bind (goes_takeIdent abreast (by simp [isType])) fun _ abreast => goesOn abreast
    · exact .bind (rulesGo.type (by omega) abreast) fun _ abreast => goesOn abreast

theorem goes_sliceFrom {lbrack lbrack' : Lexeme} {low low' : Option Positional}
    (rulesGo : pairing.RulesGo n rules rules') (le : m ≤ n) (trees : pairing.Trees x x')
    (opened : pairing.Lexemes lbrack lbrack') (lows : Option.Rel pairing.Trees low low')
    (abreast : pairing.Abreast m state state') (more : state.current.kind ≠ .eof) :
    pairing.GoesTree m (sliceFrom rules x lbrack low) state
      (sliceFrom rules' x' lbrack' low') state' := by
  unfold sliceFrom
  refine .take abreast more fun _ abreast colon => .peek abreast ?_
  have goesOn : ∀ {k state state' high high'}, pairing.Abreast k state state' →
      Option.Rel pairing.Trees high high' → pairing.GoesTree k
        (do
          let rbrack ← expect .rightBracket "expected `]`"
          close .sliceExpr x.span.start
            [childSlot x, tokenSlot lbrack, .child low, tokenSlot _, .child high, .token rbrack])
        state
        (do
          let rbrack ← expect .rightBracket "expected `]`"
          close .sliceExpr x'.span.start
            [childSlot x', tokenSlot lbrack', .child low', tokenSlot _, .child high',
              .token rbrack])
        state' :=
    fun abreast highs => .bind (.expect abreast (by decide)) fun _ abreast rbrack =>
      .close abreast trees.spans.1 (.cons (.child trees) <| .cons (.token opened) <|
        .cons (.ofChild lows) <| .cons (.token colon) <| .cons (.ofChild highs) <|
        .cons (.ofToken rbrack.rel) .nil)
  refine .ite (fun _ => goesOn abreast .none) fun _ => ?_
  exact .bind (rulesGo.binary (by omega) abreast) fun _ abreast high => goesOn abreast (.some high)

theorem goes_indexOrSlice (rulesGo : pairing.RulesGo n rules rules') (le : m ≤ n)
    (trees : pairing.Trees x x') (abreast : pairing.Abreast m state state')
    (more : state.current.kind ≠ .eof) :
    pairing.Goes m (fun left tree tree' => left < m ∧ pairing.Trees tree tree')
      (indexOrSlice rules x) state (indexOrSlice rules' x') state' := by
  unfold indexOrSlice
  refine .take abreast more fun _ abreast lbrack => .strict (by omega) ?_
  refine .peek abreast (.ite (fun isColon => ?_) fun _ => ?_)
  · exact goes_sliceFrom rulesGo (by omega) trees lbrack .none abreast (by simp [isColon])
  refine .bind (rulesGo.binary (by omega) abreast) fun _ abreast first => .peek abreast ?_
  split
  · next isColon =>
    exact goes_sliceFrom rulesGo (by omega) trees lbrack (.some first) abreast (by simp [isColon])
  · next isComma =>
    refine .take abreast (by simp [isComma]) fun _ abreast comma => ?_
    refine .bind (goes_delimited (within_type rulesGo (by omega)) abreast) fun _ abreast rest => ?_
    refine .bind (.expect abreast (by decide)) fun _ abreast rbrack => ?_
    exact .close abreast trees.spans.1 (.cons (.child trees) <| .cons (.token lbrack) <|
      .cons (((Gathers.single first).separate comma.spans).append rest).slot <|
      .cons (.ofToken rbrack.rel) .nil)
  · exact .bind (.expect abreast (by decide)) fun _ abreast rbrack =>
      .close abreast trees.spans.1 (.cons (.child trees) <| .cons (.token lbrack) <|
        .cons (.child first) <| .cons (.ofToken rbrack.rel) .nil)

/-- Arguments that agree but for where they stand, with the dots behind them. -/
def Pairing.Arguments (pairing : Pairing) (arguments arguments' : Elements × Option Lexeme) :
    Prop :=
  pairing.Gathers arguments.1 arguments'.1 ∧ Option.Rel pairing.Lexemes arguments.2 arguments'.2

/-- An argument with the comma or the dots behind it. -/
def argumentStep (rules : Rules) : Elements × Option Lexeme →
    Parse (Flow (Elements × Option Lexeme)) := fun (args, _) => do
  let kind ← peek
  if kind = .rightParen ∨ kind = .eof then return .done (args, none)
  let args := args.push (← rules.binary true 1)
  match ← peek with
  | .ellipsis => return .done (args, some (← take))
  | .comma => return .again (args.separate (← take).span, none)
  | _ => return .done (args, none)

theorem arguments_eq (rules : Rules) :
    arguments rules = iterate (argumentStep rules) (.empty, none) := rfl

theorem steps_argument (rulesGo : pairing.RulesGo n rules rules') (lt : m < n) :
    pairing.Steps m pairing.Arguments (fun _ => pairing.Arguments) (argumentStep rules)
      (argumentStep rules') := by
  intro left args args' state state' bound lists abreast
  obtain ⟨lists, -⟩ := lists
  unfold argumentStep
  refine .peek abreast (.ite (fun _ => .pure abreast (.done ⟨lists, .none⟩)) fun _ => ?_)
  refine .bind (rulesGo.binary (by omega) abreast) fun _ abreast argument => .peek abreast ?_
  have pushed := lists.push argument
  split
  · next isDots =>
    exact .take abreast (by simp [isDots]) fun _ abreast dots =>
      .pure abreast (.done ⟨pushed, .some dots⟩)
  · next isComma =>
    exact .take abreast (by simp [isComma]) fun _ abreast comma =>
      .pure abreast (.again (by omega) ⟨pushed.separate comma.spans, .none⟩)
  · exact .pure abreast (.done ⟨pushed, .none⟩)

theorem goes_call (rulesGo : pairing.RulesGo n rules rules') (le : m ≤ n)
    (trees : pairing.Trees x x') (abreast : pairing.Abreast m state state')
    (more : state.current.kind ≠ .eof) :
    pairing.Goes m (fun left tree tree' => left < m ∧ pairing.Trees tree tree')
      (call rules x) state (call rules' x') state' := by
  unfold call
  refine .take abreast more fun _ abreast lparen => .strict (by omega) ?_
  rw [arguments_eq, arguments_eq]
  refine .bind (.iterate (steps_argument rulesGo (by omega)) (Nat.le_refl _) ⟨.empty, .none⟩ abreast)
    fun _ abreast args => ?_
  exact .bind (.expect abreast (by decide)) fun _ abreast rparen =>
    .close abreast trees.spans.1 (.cons (.child trees) <| .cons (.token lparen) <|
      .cons args.1.slot <| .cons (.ofToken args.2) <| .cons (.ofToken rparen.rel) .nil)

theorem goes_elementValue (rulesGo : pairing.RulesGo n rules rules') (lt : m < n)
    (abreast : pairing.Abreast m state state') :
    pairing.GoesTree m (elementValue rules) state (elementValue rules') state' := by
  unfold elementValue
  exact .peek abreast (.ite (fun isBrace => rulesGo.elided lt abreast (by simp [isBrace]))
    fun _ => rulesGo.binary lt abreast)

theorem goes_element (rulesGo : pairing.RulesGo n rules rules') (lt : m < n)
    (abreast : pairing.Abreast m state state') :
    pairing.GoesTree m (element rules) state (element rules') state' := by
  unfold element
  refine .bind (goes_elementValue rulesGo lt abreast) fun _ abreast key => .peek abreast ?_
  refine .ite (fun _ => .pure abreast key) fun isColon => ?_
  rw [Decidable.not_not] at isColon
  refine .take abreast (by simp [isColon]) fun _ abreast colon => ?_
  exact .bind (goes_elementValue rulesGo (by omega) abreast) fun _ abreast value =>
    .close abreast key.spans.1 (.cons (.child key) <| .cons (.token colon) <|
      .cons (.child value) .nil)

theorem goes_compositeLit {start start' : Nat} {type type' : Option Positional}
    (rulesGo : pairing.RulesGo n rules rules') (le : m ≤ n) (starts : pairing.offset start start')
    (types : Option.Rel pairing.Trees type type') (abreast : pairing.Abreast m state state')
    (more : state.current.kind ≠ .eof) :
    pairing.Goes m (fun left tree tree' => left < m ∧ pairing.Trees tree tree')
      (compositeLit rules start type) state (compositeLit rules' start' type') state' := by
  unfold compositeLit
  refine .take abreast more fun _ abreast lbrace => .strict (by omega) ?_
  refine .bind (goes_delimited (fun le abreast => goes_element rulesGo (by omega) abreast) abreast)
    fun _ abreast elts => ?_
  exact .bind (.expect abreast (by decide)) fun _ abreast rbrace =>
    .close abreast starts (.cons (.ofChild types) <| .cons (.token lbrace) <| .cons elts.slot <|
      .cons (.ofToken rbrace.rel) .nil)

theorem goes_elided (rulesGo : pairing.RulesGo n rules rules') (le : m ≤ n)
    (abreast : pairing.Abreast m state state') (more : state.current.kind ≠ .eof) :
    pairing.GoesTree m (elided rules) state (elided rules') state' := by
  unfold elided
  exact .here abreast fun start => (goes_compositeLit rulesGo le start .none abreast more).relax

/-! ## Operands -/

theorem goes_funcLit (rulesGo : pairing.RulesGo n rules rules') (le : m ≤ n)
    (abreast : pairing.Abreast m state state') (more : state.current.kind ≠ .eof) :
    pairing.GoesTree m (funcLit rules) state (funcLit rules') state' := by
  unfold funcLit
  refine .bind (goes_funcType rulesGo le abreast more) fun _ abreast type => .peek abreast ?_
  refine .ite (fun _ => .pure abreast type.2) fun _ => ?_
  exact .bind (rulesGo.block (by omega) abreast) fun _ abreast body =>
    .close abreast type.2.spans.1 (.cons (.child type.2) <| .cons (.child body) .nil)

theorem goes_operand (rulesGo : pairing.RulesGo n rules rules') (le : m ≤ n)
    (abreast : pairing.Abreast m state state') :
    pairing.GoesTree m (operand rules) state (operand rules') state' := by
  unfold operand
  refine .peek abreast (.ite (fun isLiteral => ?_) fun _ => ?_)
  · exact goes_basicLit abreast fun isEnd => by simp [isEnd, TokenKind.isLiteral] at isLiteral
  split
  · exact goes_ident abreast
  · next isParen =>
    refine .here abreast fun start => .take abreast (by simp [isParen]) fun _ abreast lparen => ?_
    refine .bind (rulesGo.binary (by omega) abreast) fun _ abreast x => ?_
    exact .bind (.expect abreast (by decide)) fun _ abreast rparen =>
      .close abreast start (.cons (.token lparen) <| .cons (.child x) <|
        .cons (.ofToken rparen.rel) .nil)
  · next isFunc => exact goes_funcLit rulesGo le abreast (by simp [isFunc])
  · exact goes_type rulesGo le abreast
  · exact goes_type rulesGo le abreast
  · exact goes_type rulesGo le abreast
  · exact goes_type rulesGo le abreast
  · exact goes_bad rfl abreast

/-- What may follow an operand: a selector, an index, arguments or the elements of a
literal. -/
def primaryStep (rules : Rules) (literals : Bool) (x : Positional) : Parse (Flow Positional) := do
  match ← peek with
  | .dot => return .again (← selectorOrAssertion rules x)
  | .leftBracket => return .again (← indexOrSlice rules x)
  | .leftParen => return .again (← call rules x)
  | .leftBrace =>
    if acceptsLiteral literals x.kind then
      return .again (← compositeLit rules x.span.start (some x))
    else return .done x
  | _ => return .done x

theorem primary_eq (rules : Rules) (literals : Bool) :
    primary rules literals = operand rules >>= fun x =>
      iterate (primaryStep rules literals) x := rfl

theorem steps_primary (rulesGo : pairing.RulesGo n rules rules') :
    pairing.Steps n pairing.Trees (fun _ => pairing.Trees) (primaryStep rules literals)
      (primaryStep rules' literals) := by
  intro left x x' state state' bound trees abreast
  have goesOn : ∀ {rule rule' : Parse Positional},
      pairing.Goes left (fun rest tree tree' => rest < left ∧ pairing.Trees tree tree')
        rule state rule' state' →
      pairing.Goes left (Flows left pairing.Trees fun _ => pairing.Trees)
        (do return .again (← rule)) state (do return .again (← rule')) state' := by
    rintro rule rule' ⟨rest, le, abreast, lt, trees⟩
    exact ⟨rest, le, abreast, .again lt trees⟩
  unfold primaryStep
  refine .peek abreast ?_
  split
  · next isDot => exact goesOn (goes_selectorOrAssertion rulesGo bound trees abreast (by simp [isDot]))
  · next is => exact goesOn (goes_indexOrSlice rulesGo bound trees abreast (by simp [is]))
  · next isParen => exact goesOn (goes_call rulesGo bound trees abreast (by simp [isParen]))
  · next isBrace =>
    rw [trees.kind]
    refine .ite (fun _ => goesOn ?_) fun _ => .pure abreast (.done trees)
    exact goes_compositeLit rulesGo bound trees.spans.1 (.some trees) abreast (by simp [isBrace])
  · exact .pure abreast (.done trees)

theorem goes_primary (rulesGo : pairing.RulesGo n rules rules') (le : m ≤ n)
    (abreast : pairing.Abreast m state state') :
    pairing.GoesTree m (primary rules literals) state (primary rules' literals) state' := by
  rw [primary_eq, primary_eq]
  exact .bind (goes_operand rulesGo le abreast) fun le' abreast x =>
    .iterate (steps_primary rulesGo) (Nat.le_trans le' le) x abreast

/-! ## Operators -/

theorem goes_unary (rulesGo : pairing.RulesGo n rules rules') (le : m ≤ n)
    (abreast : pairing.Abreast m state state') :
    pairing.GoesTree m (unary rules literals) state (unary rules' literals) state' := by
  unfold unary
  refine .peek abreast (.ite (fun isOperator => ?_) fun _ => goes_primary rulesGo le abreast)
  have more : state.current.kind ≠ .eof := fun isEnd => by
    simp [isEnd, TokenKind.isUnaryOperator] at isOperator
  refine .here abreast fun start => .take abreast more fun _ abreast op => ?_
  refine .bind (rulesGo.unary (by omega) abreast) fun _ abreast x => ?_
  split
  · exact .close abreast start (.cons (.token op) <| .cons (.child x) .nil)
  · exact .close abreast start (.cons (.token op) <| .cons (.child x) .nil)

/-- An operator with the operand behind it. -/
def binaryStep (rules : Rules) (literals : Bool) (least : Nat) (lhs : Positional) :
    Parse (Flow Positional) := do
  match (← peek).precedence? with
  | some precedence =>
    if least ≤ precedence then
      let op ← take
      let rhs ← rules.binary literals (precedence + 1)
      return .again (← close .binaryExpr lhs.span.start
        [childSlot lhs, tokenSlot op, childSlot rhs])
    else return .done lhs
  | none => return .done lhs

theorem binary_eq (rules : Rules) (literals : Bool) (least : Nat) :
    binary rules literals least = unary rules literals >>= fun first =>
      iterate (binaryStep rules literals least) first := rfl

theorem steps_binary {least : Nat} (rulesGo : pairing.RulesGo n rules rules') :
    pairing.Steps n pairing.Trees (fun _ => pairing.Trees) (binaryStep rules literals least)
      (binaryStep rules' literals least) := by
  intro left lhs lhs' state state' bound trees abreast
  unfold binaryStep
  refine .peek abreast ?_
  split
  · next precedence isOperator =>
    have more : state.current.kind ≠ .eof := fun isEnd => by
      simp [isEnd, TokenKind.precedence?] at isOperator
    refine .ite (fun _ => ?_) fun _ => .pure abreast (.done trees)
    refine .take abreast more fun _ abreast op => ?_
    refine .bind (rulesGo.binary (by omega) abreast) fun _ abreast rhs => ?_
    refine .bind (.close abreast trees.spans.1 (.cons (.child trees) <| .cons (.token op) <|
      .cons (.child rhs) .nil)) fun _ abreast tree => ?_
    exact .pure abreast (.again (by omega) tree)
  · exact .pure abreast (.done trees)

theorem goes_binary {least : Nat} (rulesGo : pairing.RulesGo n rules rules') (le : m ≤ n)
    (abreast : pairing.Abreast m state state') :
    pairing.GoesTree m (binary rules literals least) state
      (binary rules' literals least) state' := by
  rw [binary_eq, binary_eq]
  exact .bind (goes_unary rulesGo le abreast) fun le' abreast first =>
    .iterate (steps_binary rulesGo) (Nat.le_trans le' le) first abreast

theorem goes_expr (rulesGo : pairing.RulesGo n rules rules') (le : m ≤ n)
    (abreast : pairing.Abreast m state state') :
    pairing.GoesTree m (expr rules literals) state (expr rules' literals) state' :=
  goes_binary rulesGo le abreast

theorem goes_exprList (rulesGo : pairing.RulesGo n rules rules') (le : m ≤ n)
    (abreast : pairing.Abreast m state state') :
    pairing.GoesList m (exprList rules literals) state (exprList rules' literals) state' :=
  goes_separated (fun le' => goes_expr rulesGo (Nat.le_trans le' le)) abreast

end Grammar

end GoTrivia
