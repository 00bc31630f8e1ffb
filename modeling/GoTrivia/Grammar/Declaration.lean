import GoTrivia.Grammar.Expression

/-!
# Declarations

Imports, constants, variables, types and functions.  All but functions may be
grouped in parentheses under one keyword.
-/

set_option autoImplicit false

namespace GoTrivia

namespace Grammar

variable (rules : Rules)

/-- An import: a path, perhaps under a name or a dot. -/
def importSpec : Parse Positional := do
  let start ← here
  let kind ← peek
  let name ← if kind = .name ∨ kind = .dot then pure (some (← takeIdent)) else pure none
  let path ←
    if (← peek) = .string then basicLit else bad .badExpr "expected import path"
  close .importSpec start [.child name, childSlot path]

/-- The tokens that end the names of constants and variables without a type. -/
def valueSpecEnd : KindSet := .ofList [.eq, .semicolon, .rightParen, .eof]

/-- Constants or variables: names, perhaps a type, perhaps values. -/
def valueSpec : Parse Positional := do
  let start ← here
  let names ← separated ident
  let declared ←
    if valueSpecEnd.contains (← peek) then pure none else pure (some (← type rules))
  if (← peek) = .eq then
    let assign ← take
    let values ← exprList rules true
    close .valueSpec start [names.slot, .child declared, tokenSlot assign, values.slot]
  else
    close .valueSpec start [names.slot, .child declared, .token none, Elements.empty.slot]

/-- A type: a name, perhaps type parameters, perhaps an alias.  A bracket opens type
parameters if a name follows that is not all there is between the brackets. -/
def typeSpec : Parse Positional := do
  let start ← here
  let name ← ident
  let paramSlots ←
    if (← peek) = .leftBracket ∧ (← ahead 1) = .name ∧ (← ahead 2) ≠ .rightBracket then
      typeParams rules
    else pure noTypeParams
  let assign ← if (← peek) = .eq then pure (some (← take)) else pure none
  let value ← type rules
  close .typeSpec start ([childSlot name] ++ paramSlots ++ [.token assign, childSlot value])

/-- A declaration under a keyword, grouped or not. -/
def genDecl : Parse Positional := do
  let start ← here
  let spec :=
    match ← peek with
    | .importKw => importSpec
    | .typeKw => typeSpec rules
    | _ => valueSpec rules
  let tok ← take
  if (← peek) = .leftParen then
    let lparen ← take
    let specs ← terminated .rightParen spec
    let rparen ← expect .rightParen "expected `)`"
    close .genDecl start [tokenSlot tok, tokenSlot lparen, specs.slot, .token rparen]
  else
    let single ← spec
    close .genDecl start
      [tokenSlot tok, .token none, (Elements.single single).slot, .token none]

/-- The receiver of a method in parentheses. -/
def receiver : Parse (List PositionalSlot) := do
  if (← peek) = .leftParen then
    let lparen ← take
    let list ← params .rightParen (type rules)
    let rparen ← expect .rightParen "expected `)`"
    return [tokenSlot lparen, list.slot, .token rparen]
  else return [.token none, Elements.empty.slot, .token none]

/-- A function or method, perhaps without a body. -/
def funcDecl : Parse Positional := do
  let start ← here
  let keyword ← take
  let receiverSlots ← receiver rules
  let name ← ident
  let paramSlots ← if (← peek) = .leftBracket then typeParams rules else pure noTypeParams
  let signatureSlots ← signature rules
  let body ← if (← peek) = .leftBrace then pure (some (← rules.block)) else pure none
  close .funcDecl start
    ([tokenSlot keyword] ++ receiverSlots ++ [childSlot name] ++ paramSlots ++ signatureSlots ++
      [.child body])

/-- A declaration at the top of a file. -/
def decl : Parse Positional := do
  match ← peek with
  | .importKw | .constKw | .varKw | .typeKw => genDecl rules
  | .funcKw => funcDecl rules
  | _ => bad .badDecl "expected declaration"

end Grammar

end GoTrivia
