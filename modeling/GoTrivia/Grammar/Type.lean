import GoTrivia.Grammar.Rules

/-!
# Types, parameters and constraints

The rules for types, the parameter lists of functions and type declarations, and
the members of structures and interfaces.

Whether the entries of a parameter list are names with types or types alone shows
only at the end of the list: entries are gathered first and then grouped into
fields.
-/

set_option autoImplicit false

namespace GoTrivia

namespace Grammar

variable (rules : Rules)

/-! ## Fields -/

/-- A field of names that share a type. -/
def fieldOf (names : Elements) (type : Positional) : Positional :=
  let start := (names.nodes.head?.map Positional.span).getD type.span |>.start
  .node .field (.closing start type.span.stop) [names.slot, childSlot type, .child none]

/-- An entry of a parameter list: a name or a type, a type if the name has one of
its own, and the comma behind it. -/
structure Param where
  first : Positional
  type : Option Positional
  separator : Option Span

/-- Entries that are types alone, as fields without names. -/
def unnamedParams : List Param → Elements → Elements
  | [], list => list
  | entry :: entries, list =>
    unnamedParams entries ((list.push (fieldOf .empty entry.first)).separateBy entry.separator)

/-- Names that are still without a type at the end of the list, each as a field of
its own. -/
def strayNames : List Positional → List Span → Elements → Elements
  | [], _, list => list
  | name :: names, separators, list =>
    strayNames names (separators.drop 1)
      ((list.push (fieldOf .empty name)).separateBy separators.head?)

/-- Entries of a list in which some name has a type: consecutive names share the
type that follows them. -/
def namedParams : List Param → (names : Elements) → Elements → Parse Elements
  | [], names, list => do
    match names.nodes with
    | [] => return list
    | name :: _ =>
      reportAt "missing parameter type" name.span
      return strayNames names.nodes names.separators list
  | entry :: entries, names, list => do
    if entry.first.kind ≠ .ident then
      reportAt "expected parameter name" entry.first.span
    let names := names.push entry.first
    match entry.type with
    | some type =>
      namedParams entries .empty ((list.push (fieldOf names type)).separateBy entry.separator)
    | none => namedParams entries (names.separateBy entry.separator) list

/-- Entries grouped into fields. -/
def groupParams (entries : List Param) : Parse Elements :=
  if entries.all (·.type.isNone) then return unnamedParams entries .empty
  else namedParams entries .empty .empty

/-- One entry of a parameter list without its comma. -/
def paramEntry (element : Parse Positional) : Parse (Positional × Option Positional) := do
  if (← peek) ≠ .name then return (← element, none)
  match ← ahead 1 with
  | .dot | .comma | .rightParen | .rightBracket => return (← element, none)
  | _ =>
    let name ← ident
    return (name, some (← element))

/-- The entries of a parameter list up to a closing token. -/
def paramEntries (closer : TokenKind) (element : Parse Positional) : Parse (List Param) :=
  iterate (fun entries => do
    let kind ← peek
    if kind = closer ∨ kind = .eof then return .done entries
    let (first, type) ← paramEntry element
    if (← peek) = .comma then
      return .again (entries ++ [⟨first, type, some (← take).span⟩])
    return .done (entries ++ [⟨first, type, none⟩])) []

/-- A parameter list up to a closing token. -/
def params (closer : TokenKind) (element : Parse Positional) : Parse Elements := do
  groupParams (← paramEntries closer element)

/-! ## Signatures -/

/-- The tokens a type can start with. -/
def typeFirst : KindSet :=
  .ofList [.name, .star, .leftBracket, .leftParen, .mapKw, .funcKw, .structKw, .interfaceKw]

/-- The type of a parameter, which may be variadic. -/
def paramType : Parse Positional := do
  if (← peek) ≠ .ellipsis then rules.type
  else
    let start ← here
    let dots ← take
    let elt ← rules.type
    close .ellipsis start [tokenSlot dots, childSlot elt]

/-- The results of a function: in parentheses, a single type, or none. -/
def results : Parse (List PositionalSlot) := do
  let kind ← peek
  if kind = .leftParen then
    let lparen ← take
    let list ← params .rightParen (paramType rules)
    let rparen ← expect .rightParen "expected `)`"
    return [tokenSlot lparen, list.slot, .token rparen]
  else if typeFirst.contains kind then
    let result ← rules.type
    return [.token none, (Elements.single (fieldOf .empty result)).slot, .token none]
  else return [.token none, Elements.empty.slot, .token none]

/-- Parameters and results, as the slots that functions, function types and methods
share. -/
def signature : Parse (List PositionalSlot) := do
  match ← expect .leftParen "expected `(`" with
  | some lparen =>
    let list ← params .rightParen (paramType rules)
    let rparen ← expect .rightParen "expected `)`"
    return [tokenSlot lparen, list.slot, .token rparen] ++ (← results rules)
  | none => return [.token none, Elements.empty.slot, .token none] ++ (← results rules)

/-- A function type. -/
def funcType : Parse Positional := do
  let start ← here
  let keyword ← take
  let slots ← signature rules
  close .funcType start (tokenSlot keyword :: slots)

/-! ## Constraints -/

/-- One term of a constraint, perhaps with a tilde. -/
def constraintTerm : Parse Positional := do
  if (← peek) ≠ .tilde then rules.type
  else
    let start ← here
    let op ← take
    let x ← rules.type
    close .unaryExpr start [tokenSlot op, childSlot x]

/-- A type constraint: a union of terms. -/
def constraint : Parse Positional := do
  iterate (fun lhs => do
    if (← peek) ≠ .pipe then return .done lhs
    let op ← take
    let rhs ← constraintTerm rules
    return .again (← close .binaryExpr lhs.span.start
      [childSlot lhs, tokenSlot op, childSlot rhs])) (← constraintTerm rules)

/-- Type parameters in brackets, as the slots that types and functions share. -/
def typeParams : Parse (List PositionalSlot) := do
  let lbrack ← take
  let list ← params .rightBracket (constraint rules)
  let rbrack ← expect .rightBracket "expected `]`"
  return [tokenSlot lbrack, list.slot, .token rbrack]

/-- The slots of a construct without type parameters. -/
def noTypeParams : List PositionalSlot := [.token none, Elements.empty.slot, .token none]

/-! ## Members -/

/-- A member list in braces: its opening brace, its members and its closing brace. -/
def members (element : Parse Positional) : Parse (List PositionalSlot) := do
  match ← expect .leftBrace "expected `\x7b`" with
  | some lbrace =>
    let list ← terminated .rightBrace element
    let rbrace ← expect .rightBrace "expected `\x7d`"
    return [tokenSlot lbrace, list.slot, .token rbrace]
  | none => return [.token none, Elements.empty.slot, .token none]

/-- A field of a structure: names with a type, or an embedded type; perhaps a tag. -/
def structField : Parse Positional := do
  let start ← here
  let embedded ←
    if (← peek) ≠ .name then pure true
    else
      match ← ahead 1 with
      | .dot | .semicolon | .rightBrace | .string => pure true
      | _ => pure false
  let names ← if embedded then pure .empty else separated ident
  let type ← rules.type
  let tag ← if (← peek) = .string then pure (some (← basicLit)) else pure none
  close .field start [names.slot, childSlot type, .child tag]

/-- A structure type. -/
def structType : Parse Positional := do
  let start ← here
  let keyword ← take
  let slots ← members (structField rules)
  close .structType start (tokenSlot keyword :: slots)

/-- A member of an interface: a method or an embedded constraint. -/
def interfaceMember : Parse Positional := do
  let start ← here
  if (← peek) = .name ∧ (← ahead 1) = .leftParen then
    let name ← ident
    let signatureStart ← here
    let slots ← signature rules
    let type ← close .funcType signatureStart (.token none :: slots)
    close .field start [(Elements.single name).slot, childSlot type, .child none]
  else
    let type ← constraint rules
    close .field start [Elements.empty.slot, childSlot type, .child none]

/-- An interface type. -/
def interfaceType : Parse Positional := do
  let start ← here
  let keyword ← take
  let slots ← members (interfaceMember rules)
  close .interfaceType start (tokenSlot keyword :: slots)

/-! ## Types -/

/-- Type arguments behind a generic type: a single one is an index. -/
def typeArgs (base : Positional) : Parse Positional := do
  let lbrack ← take
  let args ← delimited .rightBracket rules.type
  let rbrack ← expect .rightBracket "expected `]`"
  match args with
  | ⟨[index], []⟩ =>
    close .indexExpr base.span.start
      [childSlot base, tokenSlot lbrack, childSlot index, .token rbrack]
  | _ =>
    close .indexListExpr base.span.start
      [childSlot base, tokenSlot lbrack, args.slot, .token rbrack]

/-- A type name, perhaps qualified, perhaps with type arguments. -/
def typeName : Parse Positional := do
  let name ← ident
  let name ←
    if (← peek) = .dot then do
      let dot ← take
      let sel ← ident
      close .selectorExpr name.span.start [childSlot name, tokenSlot dot, childSlot sel]
    else pure name
  if (← peek) = .leftBracket then typeArgs rules name else return name

/-- The length of an array type: none for a slice, dots if it is to be counted. -/
def arrayLength : Parse (Option Positional) := do
  match ← peek with
  | .rightBracket => return none
  | .ellipsis =>
    let start ← here
    let dots ← take
    return some (← close .ellipsis start [tokenSlot dots, .child none])
  | _ => return some (← rules.binary true 1)

/-- An array or slice type. -/
def arrayType : Parse Positional := do
  let start ← here
  let lbrack ← take
  let len ← arrayLength rules
  let rbrack ← expect .rightBracket "expected `]`"
  let elt ← rules.type
  close .arrayType start [tokenSlot lbrack, .child len, .token rbrack, childSlot elt]

/-- A map type. -/
def mapType : Parse Positional := do
  let start ← here
  let keyword ← take
  let lbrack ← expect .leftBracket "expected `[`"
  let key ← rules.type
  let rbrack ← expect .rightBracket "expected `]`"
  let value ← rules.type
  close .mapType start
    [tokenSlot keyword, .token lbrack, childSlot key, .token rbrack, childSlot value]

/-- A type. -/
def type : Parse Positional := do
  match ← peek with
  | .name => typeName rules
  | .star =>
    let start ← here
    let star ← take
    let x ← rules.type
    close .starExpr start [tokenSlot star, childSlot x]
  | .leftBracket => arrayType rules
  | .mapKw => mapType rules
  | .funcKw => funcType rules
  | .structKw => structType rules
  | .interfaceKw => interfaceType rules
  | .leftParen =>
    let start ← here
    let lparen ← take
    let x ← rules.type
    let rparen ← expect .rightParen "expected `)`"
    close .parenExpr start [tokenSlot lparen, childSlot x, .token rparen]
  | _ => bad .badExpr "expected type"

end Grammar

end GoTrivia
