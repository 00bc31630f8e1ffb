import GoTrivia.Grammar.Declaration

/-!
# Statements

Blocks, control clauses and simple statements.  The header of a control clause is
read as a simple statement first; only what follows shows whether it was an
initial statement or the condition itself.
-/

set_option autoImplicit false

namespace GoTrivia

namespace Grammar

variable (rules : Rules)

/-! ## Simple statements -/

/-- The one expression of a list.  Any further ones are reported and dropped. -/
def single (list : Elements) : Parse Positional := do
  match list.nodes with
  | [] => close .badExpr (← here) []
  | [x] => return x
  | x :: extra :: _ =>
    reportAt "expected a single expression" extra.span
    return x

/-- An assignment, an increment or an expression statement, behind its left-hand
side. -/
def finishSimple (literals : Bool) (lhs : Elements) : Parse Positional := do
  let kind ← peek
  if kind.isAssignOperator then
    let start ← match lhs.nodes with
      | [] => here
      | node :: _ => pure node.span.start
    let tok ← take
    let rhs ← exprList rules literals
    close .assignStmt start [lhs.slot, tokenSlot tok, rhs.slot]
  else
    let x ← single lhs
    if kind = .plusPlus ∨ kind = .minusMinus then
      let tok ← take
      close .incDecStmt x.span.start [childSlot x, tokenSlot tok]
    else close .exprStmt x.span.start [childSlot x]

/-- A simple statement. -/
def simple (literals : Bool) : Parse Positional := do
  finishSimple rules literals (← exprList rules literals)

/-- The expression of a simple statement that turned out to be a condition. -/
def exprOf : Positional → Parse Positional
  | .node .exprStmt _ (.child (some x) :: _) => return x
  | stmt => do
    reportAt "expected an expression" stmt.span
    return .node .badExpr stmt.span []

/-! ## Blocks -/

/-- The tokens that end a list of statements. -/
def statementsEnd : KindSet := .ofList [.rightBrace, .caseKw, .defaultKw, .eof]

/-- Statements between braces. -/
def block : Parse Positional := do
  let start ← here
  match ← expect .leftBrace "expected `\x7b`" with
  | some lbrace =>
    let list ← rules.statements
    let rbrace ← expect .rightBrace "expected `\x7d`"
    close .blockStmt start [tokenSlot lbrace, list.slot, .token rbrace]
  | none => close .blockStmt start [.token none, Elements.empty.slot, .token none]

/-! ## Conditionals -/

/-- The header of a conditional: perhaps an initial statement with its semicolon,
then the condition. -/
def conditionalHeader : Parse (List PositionalSlot) := do
  let stmt ← simple rules false
  if (← peek) = .semicolon then
    let semicolon ← take
    let cond ← expr rules false
    return [childSlot stmt, tokenSlot semicolon, childSlot cond]
  else
    let cond ← exprOf stmt
    return [.child none, .token none, childSlot cond]

/-- A conditional statement. -/
def conditional : Parse Positional := do
  let start ← here
  let keyword ← take
  let header ← conditionalHeader rules
  let body ← block rules
  if (← peek) = .elseKw then
    let elseToken ← take
    let alternative ← if (← peek) = .ifKw then rules.conditional else block rules
    close .ifStmt start
      ([tokenSlot keyword] ++ header ++
        [childSlot body, tokenSlot elseToken, childSlot alternative])
  else
    close .ifStmt start
      ([tokenSlot keyword] ++ header ++ [childSlot body, .token none, .child none])

/-! ## Loops -/

/-- The header of a loop over a range, behind its iteration variables. -/
def rangeHeader (lhs : Elements) : Parse (NodeKind × List PositionalSlot) := do
  match lhs.nodes with
  | _ :: _ :: extra :: _ => reportAt "expected at most two iteration variables" extra.span
  | _ => pure ()
  let tok ← take
  let keyword ← take
  let x ← expr rules false
  let iterated : List PositionalSlot :=
    match lhs.nodes, lhs.separators with
    | key :: value :: _, comma :: _ =>
      [childSlot key, tokenSlot ⟨",", comma⟩, childSlot value]
    | key :: _, _ => [childSlot key, .token none, .child none]
    | [], _ => [.child none, .token none, .child none]
  return (.rangeStmt, iterated ++ [tokenSlot tok, tokenSlot keyword, childSlot x])

/-- The rest of the header of a counting loop, from its first semicolon on. -/
def countingHeader (init : Option Positional) : Parse (NodeKind × List PositionalSlot) := do
  let initSemicolon ← take
  let cond ← if (← peek) = .semicolon then pure none else pure (some (← expr rules false))
  let condSemicolon ← expect .semicolon "expected `;`"
  let post ← if (← peek) = .leftBrace then pure none else pure (some (← simple rules false))
  return (.forStmt,
    [.child init, tokenSlot initSemicolon, .child cond, .token condSemicolon, .child post])

/-- The header of a loop: its kind and the slots between its keyword and its body. -/
def loopHeader : Parse (NodeKind × List PositionalSlot) := do
  match ← peek with
  | .leftBrace =>
    return (.forStmt, [.child none, .token none, .child none, .token none, .child none])
  | .rangeKw =>
    let keyword ← take
    let x ← expr rules false
    return (.rangeStmt,
      [.child none, .token none, .child none, .token none, tokenSlot keyword, childSlot x])
  | .semicolon => countingHeader rules none
  | _ =>
    let lhs ← exprList rules false
    let kind ← peek
    if (kind = .colonEq ∨ kind = .eq) ∧ (← ahead 1) = .rangeKw then rangeHeader rules lhs
    else
      let stmt ← finishSimple rules false lhs
      if (← peek) = .semicolon then countingHeader rules (some stmt)
      else
        let cond ← exprOf stmt
        return (.forStmt,
          [.child none, .token none, childSlot cond, .token none, .child none])

/-- A loop. -/
def loop : Parse Positional := do
  let start ← here
  let keyword ← take
  let (kind, header) ← loopHeader rules
  let body ← block rules
  close kind start ([tokenSlot keyword] ++ header ++ [childSlot body])

/-! ## Switches -/

/-- A clause of a switch. -/
def caseClause : Parse Positional := do
  let start ← here
  let kind ← peek
  let keyword ← take
  let list ← if kind = .caseKw then exprList rules true else pure .empty
  let colon ← expect .colon "expected `:`"
  let body ← rules.statements
  close .caseClause start [tokenSlot keyword, list.slot, .token colon, body.slot]

/-- The clauses of a switch.  Anything else between them is reported and skipped. -/
def clauses : Parse Elements :=
  iterate (fun list => do
    match ← peek with
    | .rightBrace | .eof => return .done list
    | .caseKw | .defaultKw => return .again (list.push (← caseClause rules))
    | _ =>
      report "expected `case` or `default`"
      let _ ← take
      return .again list) .empty

/-- The body of a switch. -/
def switchBody : Parse Positional := do
  let start ← here
  match ← expect .leftBrace "expected `\x7b`" with
  | some lbrace =>
    let list ← clauses rules
    let rbrace ← expect .rightBrace "expected `\x7d`"
    close .blockStmt start [tokenSlot lbrace, list.slot, .token rbrace]
  | none => close .blockStmt start [.token none, Elements.empty.slot, .token none]

/-- The header of a switch: perhaps an initial statement with its semicolon, perhaps
a tag. -/
def switchHeader : Parse (List PositionalSlot) := do
  if (← peek) = .leftBrace then return [.child none, .token none, .child none]
  else
    let stmt ← simple rules false
    if (← peek) = .semicolon then
      let semicolon ← take
      if (← peek) = .leftBrace then
        return [childSlot stmt, tokenSlot semicolon, .child none]
      else
        let tag ← exprOf (← simple rules false)
        return [childSlot stmt, tokenSlot semicolon, childSlot tag]
    else
      let tag ← exprOf stmt
      return [.child none, .token none, childSlot tag]

/-- A switch. -/
def switchStmt : Parse Positional := do
  let start ← here
  let keyword ← take
  let header ← switchHeader rules
  let body ← switchBody rules
  close .switchStmt start ([tokenSlot keyword] ++ header ++ [childSlot body])

/-! ## Statements -/

/-- A keyword followed by an expression, as in `go` and `defer`. -/
def callStmt (kind : NodeKind) : Parse Positional := do
  let start ← here
  let keyword ← take
  let call ← expr rules true
  close kind start [tokenSlot keyword, childSlot call]

/-- A return statement. -/
def returnStmt : Parse Positional := do
  let start ← here
  let keyword ← take
  let kind ← peek
  let results ←
    if kind = .semicolon ∨ statementsEnd.contains kind then pure .empty
    else exprList rules true
  close .returnStmt start [tokenSlot keyword, results.slot]

/-- A statement that leaves a loop, a switch or a place in the code. -/
def branchStmt : Parse Positional := do
  let start ← here
  let tok ← take
  let label ← if (← peek) = .name then pure (some (← ident)) else pure none
  close .branchStmt start [tokenSlot tok, .child label]

/-- A declaration among statements. -/
def declStmt : Parse Positional := do
  let start ← here
  let decl ← genDecl rules
  close .declStmt start [childSlot decl]

/-- A statement. -/
def statement : Parse Positional := do
  match ← peek with
  | .varKw | .constKw | .typeKw => declStmt rules
  | .returnKw => returnStmt rules
  | .breakKw | .continueKw | .gotoKw | .fallthroughKw => branchStmt
  | .goKw => callStmt rules .goStmt
  | .deferKw => callStmt rules .deferStmt
  | .leftBrace => block rules
  | .ifKw => conditional rules
  | .forKw => loop rules
  | .switchKw => switchStmt rules
  | _ => simple rules true

/-- Statements up to the end of their block or clause.  Lone semicolons are
skipped. -/
def statements : Parse Elements :=
  iterate (fun list => do
    if statementsEnd.contains (← peek) then return .done list
    else if ← takeIf .semicolon then return .again list
    else
      let before ← remaining
      let stmt ← statement rules
      terminator
      ensureProgress before
      return .again (list.push stmt)) .empty

end Grammar

end GoTrivia
