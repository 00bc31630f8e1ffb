import GoTrivia.Diagnostic.Basic
import GoTrivia.Token.Basic
import GoTrivia.Token.KindSet
import GoTrivia.Tree.Positional

/-!
# Reading a tree off a token list

The grammar is read by recursive descent with at most two tokens of look-ahead.
A rule never fails: where the source does not fit, it reports a diagnostic and
goes on, so that every text has a tree.  The state of a run is what lies ahead,
where the last token ended, and the diagnostics so far.

A semicolon that was inserted at a line end takes no text, so it does not move the
end of the last token.  This keeps the span of a node free of the blanks and
comments behind it.
-/

set_option autoImplicit false

namespace GoTrivia

namespace Grammar

/-- Where a run stands: the token in line, those behind it, the end of the last
token taken, and the diagnostics reported so far. -/
structure ParseState where
  current : Token
  upcoming : List Token
  lastEnd : Nat
  diagnostics : List Diagnostic
deriving DecidableEq, Repr

/-- The state behind the current token.  The last token of a list is never left. -/
def ParseState.advance (state : ParseState) : ParseState :=
  match state.upcoming with
  | [] => state
  | next :: rest =>
    { state with
      current := next
      upcoming := rest
      lastEnd := if state.current.isImplicit then state.lastEnd else state.current.span.stop }

/-- A rule of the grammar: it reads tokens and may report diagnostics. -/
abbrev Parse := StateM ParseState

/-! ## Looking at tokens and taking them -/

/-- The kind of the token in line. -/
def peek : Parse TokenKind := do return (← get).current.kind

/-- The kind of the token `n` places behind the one in line. -/
def ahead (n : Nat) : Parse TokenKind := do
  match n with
  | 0 => peek
  | n + 1 => return ((← get).upcoming[n]?.map Token.kind).getD .eof

/-- The offset of the token in line. -/
def here : Parse Nat := do return (← get).current.span.start

/-- How many tokens are left, the one in line included. -/
def remaining : Parse Nat := do return (← get).upcoming.length + 1

/-- Takes the token in line. -/
def take : Parse Lexeme := modifyGet fun state => (state.current.toLexeme, state.advance)

/-- Takes the token in line if it is of a kind. -/
def takeIf (kind : TokenKind) : Parse Bool := do
  if (← peek) = kind then
    let _ ← take
    return true
  else return false

/-- Reports a diagnostic about a span. -/
def reportAt (message : String) (span : Span) : Parse Unit :=
  modify fun state => { state with diagnostics := state.diagnostics ++ [⟨message, span⟩] }

/-- Reports a diagnostic about the token in line. -/
def report (message : String) : Parse Unit := do
  reportAt message (← get).current.span

/-- Takes the token in line if it is of a kind, and reports its absence if not. -/
def expect (kind : TokenKind) (message : String) : Parse (Option Lexeme) := do
  if (← peek) = kind then return some (← take)
  else
    report message
    return none

/-! ## Building nodes -/

/-- A node from `start` to the end of the last token taken. -/
def close (kind : NodeKind) (start : Nat) (slots : List PositionalSlot) : Parse Positional := do
  return .node kind (.closing start (← get).lastEnd) slots

/-- A slot filled with a token. -/
def tokenSlot (lexeme : Lexeme) : PositionalSlot := .token (some lexeme)

/-- A slot filled with a node. -/
def childSlot (node : Positional) : PositionalSlot := .child (some node)

/-- A list under construction. -/
structure Elements where
  nodes : List Positional
  separators : List Span

namespace Elements

/-- The list without elements. -/
def empty : Elements := ⟨[], []⟩

/-- The list with one element and no separator. -/
def single (node : Positional) : Elements := ⟨[node], []⟩

/-- The list with one more element. -/
def push (list : Elements) (node : Positional) : Elements :=
  { list with nodes := list.nodes ++ [node] }

/-- The list with the separator behind its last element. -/
def separate (list : Elements) (span : Span) : Elements :=
  { list with separators := list.separators ++ [span] }

/-- The list with a separator behind its last element, if there is one. -/
def separateBy (list : Elements) : Option Span → Elements
  | some span => list.separate span
  | none => list

/-- One list behind the other. -/
def append (list more : Elements) : Elements :=
  ⟨list.nodes ++ more.nodes, list.separators ++ more.separators⟩

/-- The list as the content of an anchor. -/
def slot (list : Elements) : PositionalSlot := .list list.nodes list.separators

end Elements

/-! ## Repetition -/

/-- Whether a repetition goes on, with what it has gathered so far. -/
inductive Flow (α : Type)
  | again (gathered : α)
  | done (gathered : α)

/-- Repeats a step until it is done, at most `n` times. -/
def iterateUpTo {α : Type} (step : α → Parse (Flow α)) : Nat → α → Parse α
  | 0, gathered => return gathered
  | n + 1, gathered => do
    match ← step gathered with
    | .again gathered => iterateUpTo step n gathered
    | .done gathered => return gathered

/-- Repeats a step until it is done.  A step that goes on has taken a token, so as
many repetitions as there are tokens left are enough. -/
def iterate {α : Type} (step : α → Parse (Flow α)) (gathered : α) : Parse α := do
  iterateUpTo step (← remaining) gathered

/-! ## Recovery -/

/-- Never skipped while recovering from an error, so that the enclosing construct
can still close. -/
def recovery : KindSet :=
  .ofList [.rightParen, .rightBracket, .rightBrace, .semicolon, .eof]

/-- Reports an error and stands in for the node that is missing.  The offending
token is skipped unless the enclosing construct needs it. -/
def bad (kind : NodeKind) (message : String) : Parse Positional := do
  report message
  let start ← here
  if !recovery.contains (← peek) then
    let _ ← take
  close kind start []

/-- The tokens in front of which a terminator may be left out. -/
def closers : KindSet := .ofList [.rightParen, .rightBrace, .eof]

/-- The terminator of a statement or declaration.  Without one, everything up to
the next is skipped. -/
def terminator : Parse Unit := do
  if ← takeIf .semicolon then return
  if closers.contains (← peek) then return
  report "expected `;` or a line break"
  iterate (fun _ => do
    let kind ← peek
    if kind = .semicolon ∨ closers.contains kind then return .done ()
    let _ ← take
    return .again ()) ()
  let _ ← takeIf .semicolon

/-- Skips the token in line if nothing was taken since `before` tokens were left. -/
def ensureProgress (before : Nat) : Parse Unit := do
  if (← remaining) = before ∧ (← peek) ≠ .eof then
    report "unexpected token"
    let _ ← take

/-- Terminated nodes up to, and not including, a closing token. -/
def terminated (closer : TokenKind) (element : Parse Positional) : Parse Elements :=
  iterate (fun list => do
    let kind ← peek
    if kind = closer ∨ kind = .eof then return .done list
    let before ← remaining
    let node ← element
    terminator
    ensureProgress before
    return .again (list.push node)) .empty

/-- Nodes separated by commas up to, and not including, a closing token.  A comma
behind the last node is kept. -/
def delimited (closer : TokenKind) (element : Parse Positional) : Parse Elements :=
  iterate (fun list => do
    let kind ← peek
    if kind = closer ∨ kind = .eof then return .done list
    let list := list.push (← element)
    if (← peek) = .comma then return .again (list.separate (← take).span)
    return .done list) .empty

/-- One or more nodes with commas between them. -/
def separated (element : Parse Positional) : Parse Elements := do
  iterate (fun list => do
    if (← peek) = .comma then
      let list := list.separate (← take).span
      return .again (list.push (← element))
    return .done list) (.single (← element))

/-! ## Leaves -/

/-- A name node made of the token in line, whatever it is. -/
def takeIdent : Parse Positional := do
  let start ← here
  let name ← take
  close .ident start [tokenSlot name]

/-- A name. -/
def ident : Parse Positional := do
  if (← peek) = .name then takeIdent else bad .badExpr "expected identifier"

/-- A literal node made of the token in line. -/
def basicLit : Parse Positional := do
  let start ← here
  let value ← take
  close .basicLit start [tokenSlot value]

end Grammar

end GoTrivia
