import GoTrivia.Grammar.Type

/-!
# Expressions

Binary operators by precedence climbing, unary operators, and operands with the
selectors, indices, calls and literals that follow them.

In the header of a control clause a brace behind a plain type name opens the body
and not a literal.  Every rule from an expression down to its operands is told
whether literals of that form are allowed; inside brackets they always are.
-/

set_option autoImplicit false

namespace GoTrivia

namespace Grammar

variable (rules : Rules)

/-! ## What follows an operand -/

/-- Whether a brace behind a node opens a literal of that type. -/
def acceptsLiteral (literals : Bool) : NodeKind → Bool
  | .arrayType | .mapType | .structType => true
  | .ident | .selectorExpr | .indexExpr | .indexListExpr => literals
  | _ => false

/-- A selector, or a type assertion if the dot is followed by a parenthesis.  The
asserted type may be the word `type` itself. -/
def selectorOrAssertion (x : Positional) : Parse Positional := do
  if (← ahead 1) ≠ .leftParen then
    let dot ← take
    let sel ← ident
    close .selectorExpr x.span.start [childSlot x, tokenSlot dot, childSlot sel]
  else
    let dot ← take
    let lparen ← take
    let asserted ← if (← peek) = .typeKw then takeIdent else rules.type
    let rparen ← expect .rightParen "expected `)`"
    close .typeAssertExpr x.span.start
      [childSlot x, tokenSlot dot, tokenSlot lparen, childSlot asserted, .token rparen]

/-- The rest of a slice expression, from its colon on. -/
def sliceFrom (x : Positional) (lbrack : Lexeme) (low : Option Positional) :
    Parse Positional := do
  let colon ← take
  let high ← if (← peek) = .rightBracket then pure none else pure (some (← rules.binary true 1))
  let rbrack ← expect .rightBracket "expected `]`"
  close .sliceExpr x.span.start
    [childSlot x, tokenSlot lbrack, .child low, tokenSlot colon, .child high, .token rbrack]

/-- An index, several type arguments, or a slice. -/
def indexOrSlice (x : Positional) : Parse Positional := do
  let lbrack ← take
  if (← peek) = .colon then sliceFrom rules x lbrack none
  else
    let first ← rules.binary true 1
    match ← peek with
    | .colon => sliceFrom rules x lbrack (some first)
    | .comma =>
      let comma ← take
      let rest ← delimited .rightBracket rules.type
      let rbrack ← expect .rightBracket "expected `]`"
      close .indexListExpr x.span.start
        [childSlot x, tokenSlot lbrack,
         (((Elements.single first).separate comma.span).append rest).slot, .token rbrack]
    | _ =>
      let rbrack ← expect .rightBracket "expected `]`"
      close .indexExpr x.span.start
        [childSlot x, tokenSlot lbrack, childSlot first, .token rbrack]

/-- The arguments of a call up to its closing parenthesis, with the dots behind the
last one. -/
def arguments : Parse (Elements × Option Lexeme) :=
  iterate (fun (args, _) => do
    let kind ← peek
    if kind = .rightParen ∨ kind = .eof then return .done (args, none)
    let args := args.push (← rules.binary true 1)
    match ← peek with
    | .ellipsis => return .done (args, some (← take))
    | .comma => return .again (args.separate (← take).span, none)
    | _ => return .done (args, none)) (.empty, none)

/-- A call. -/
def call (callee : Positional) : Parse Positional := do
  let lparen ← take
  let (args, dots) ← arguments rules
  let rparen ← expect .rightParen "expected `)`"
  close .callExpr callee.span.start
    [childSlot callee, tokenSlot lparen, args.slot, .token dots, .token rparen]

/-- A value in a composite literal, which may be a literal without its type. -/
def elementValue : Parse Positional := do
  if (← peek) = .leftBrace then rules.elided else rules.binary true 1

/-- An element of a composite literal, perhaps with a key. -/
def element : Parse Positional := do
  let key ← elementValue rules
  if (← peek) ≠ .colon then return key
  else
    let colon ← take
    let value ← elementValue rules
    close .keyValueExpr key.span.start [childSlot key, tokenSlot colon, childSlot value]

/-- A composite literal from its opening brace on. -/
def compositeLit (start : Nat) (type : Option Positional) : Parse Positional := do
  let lbrace ← take
  let elts ← delimited .rightBrace (element rules)
  let rbrace ← expect .rightBrace "expected `\x7d`"
  close .compositeLit start [.child type, tokenSlot lbrace, elts.slot, .token rbrace]

/-- A composite literal that leaves out its type. -/
def elided : Parse Positional := do
  compositeLit rules (← here) none

/-! ## Operands -/

/-- A function literal, or a function type if no body follows. -/
def funcLit : Parse Positional := do
  let type ← funcType rules
  if (← peek) ≠ .leftBrace then return type
  else
    let body ← rules.block
    close .funcLit type.span.start [childSlot type, childSlot body]

/-- An operand without anything behind it. -/
def operand : Parse Positional := do
  let kind ← peek
  if kind.isLiteral then basicLit
  else
    match kind with
    | .name => ident
    | .leftParen =>
      let start ← here
      let lparen ← take
      let x ← rules.binary true 1
      let rparen ← expect .rightParen "expected `)`"
      close .parenExpr start [tokenSlot lparen, childSlot x, .token rparen]
    | .funcKw => funcLit rules
    | .leftBracket | .mapKw | .structKw | .interfaceKw => type rules
    | _ => bad .badExpr "expected expression"

/-- An operand and everything that follows it. -/
def primary (literals : Bool) : Parse Positional := do
  iterate (fun x => do
    match ← peek with
    | .dot => return .again (← selectorOrAssertion rules x)
    | .leftBracket => return .again (← indexOrSlice rules x)
    | .leftParen => return .again (← call rules x)
    | .leftBrace =>
      if acceptsLiteral literals x.kind then
        return .again (← compositeLit rules x.span.start (some x))
      else return .done x
    | _ => return .done x) (← operand rules)

/-! ## Operators -/

/-- An operand with its unary operators. -/
def unary (literals : Bool) : Parse Positional := do
  let kind ← peek
  if kind.isUnaryOperator then
    let start ← here
    let op ← take
    let x ← rules.unary literals
    close (if kind = .star then .starExpr else .unaryExpr) start [tokenSlot op, childSlot x]
  else primary rules literals

/-- Operands joined by binary operators of at least a given precedence.  The right
operand of an operator only holds operators that bind tighter. -/
def binary (literals : Bool) (least : Nat) : Parse Positional := do
  iterate (fun lhs => do
    match (← peek).precedence? with
    | some precedence =>
      if least ≤ precedence then
        let op ← take
        let rhs ← rules.binary literals (precedence + 1)
        return .again (← close .binaryExpr lhs.span.start
          [childSlot lhs, tokenSlot op, childSlot rhs])
      else return .done lhs
    | none => return .done lhs) (← unary rules literals)

/-- An expression. -/
def expr (literals : Bool) : Parse Positional := binary rules literals 1

/-- One or more expressions. -/
def exprList (literals : Bool) : Parse Elements := separated (expr rules literals)

end Grammar

end GoTrivia
