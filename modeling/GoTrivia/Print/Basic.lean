import GoTrivia.Text.Blank
import GoTrivia.Tree.Positional
import GoTrivia.Tree.Registry
import GoTrivia.Trivia.Comment

/-!
# Printing a positional tree

The printer walks a tree in shape order and writes its tokens with canonical
spacing.  Comments come from a table ordered by offset: every row below the offset
of the next token is written before it.  Line breaks that the table asks for and
line breaks that the layout asks for are merged, the larger number wins.

Output is a sequence of marks: tokens, comments, and the spaces, tabs and line
feeds between them.  The text is read off the marks at the end.
-/

set_option autoImplicit false

namespace GoTrivia

namespace Print

/-- Something written. -/
inductive Mark
  | token (text : String)
  | comment (text : String)
  | space
  | tab
  | lineFeed
deriving DecidableEq, Repr

/-- The text of a mark. -/
def Mark.text : Mark → String
  | token text => text
  | comment text => text
  | space => " "
  | tab => "\t"
  | lineFeed => "\n"

/-- The text of a sequence of marks. -/
def render (marks : List Mark) : String := String.join (marks.map Mark.text)

/-- The state of the printer. -/
structure State where
  /-- What was written so far. -/
  marks : Array Mark
  /-- The last character written, if any was. -/
  last : Option Char
  /-- The number of line feeds written. -/
  line : Nat
  /-- Nothing was written on the current line yet. -/
  atLineStart : Bool
  /-- The number of tokens written. -/
  tokens : Nat
  /-- The rows of the comment table that are still to come. -/
  table : List CommentEntry
  /-- Line breaks asked for by comments. -/
  breaks : Nat
  /-- A block comment asks for a space before whatever follows it. -/
  spaced : Bool
  /-- Line breaks the layout asks for in front of the next token. -/
  layoutBreaks : Nat
  /-- The layout asks for a space in front of the next token. -/
  layoutSpaced : Bool
  /-- The output line of every open delimiter, the innermost first. -/
  delimiters : List Nat
  /-- The last token written opened a delimiter. -/
  opened : Bool
  /-- Extra indentation of continued expressions. -/
  continuation : Nat
  /-- The next token is set one level less deep. -/
  dedented : Bool

/-- The state at the start of a run. -/
def State.start (table : List CommentEntry) : State where
  marks := #[]
  last := none
  line := 0
  atLineStart := true
  tokens := 0
  table := table
  breaks := 0
  spaced := false
  layoutBreaks := 0
  layoutSpaced := false
  delimiters := []
  opened := false
  continuation := 0
  dedented := false

/-! ## Writing -/

/-- Writes a mark. -/
def State.write (state : State) (mark : Mark) : State :=
  let chars := mark.text.toList
  { state with
    marks := state.marks.push mark
    last := chars.getLast?.or state.last
    line := state.line + chars.count '\n' }

/-- Writes a mark a number of times. -/
def State.writeTimes (state : State) (mark : Mark) : Nat → State
  | 0 => state
  | n + 1 => (state.write mark).writeTimes mark n

/-- Writes a token or a comment, which takes the start of the line. -/
def State.writeItem (state : State) (mark : Mark) : State :=
  { state.write mark with atLineStart := false }

/-- Starts a new line, or two for a blank line.  Nothing starts with an empty
line. -/
def State.breakLines (state : State) (n : Nat) : State :=
  if n = 0 || state.last.isNone then state
  else { state.writeTimes .lineFeed (min n 2) with atLineStart := true }

/-- The number of runs of equal neighbours in a list. -/
def runs : List Nat → Nat
  | [] => 0
  | [_] => 1
  | a :: b :: rest => if a = b then runs (b :: rest) else runs (b :: rest) + 1

/-- How deep a line is indented: one level for every line that opened delimiters,
and those of continued expressions. -/
def State.depth (state : State) : Nat :=
  let depth := runs state.delimiters + state.continuation
  if state.dedented then depth - 1 else depth

/-- Indents a fresh line. -/
def State.indent (state : State) : State := state.writeTimes .tab state.depth

/-! ## Comments -/

/-- Writes a comment on the current line or on a new one. -/
def State.comment (state : State) (text : String) : State :=
  let breaks := state.breaks
  let state :=
    { state with
      breaks := 0
      -- A comment that opens a line opens it for the token behind it too.
      layoutBreaks := if 0 < breaks then 0 else state.layoutBreaks }
  let state := state.breakLines breaks
  let state := if state.atLineStart then state.indent else state.write .space
  let state := state.writeItem (.comment text)
  if isLineComment text then { state with breaks := 1, spaced := false }
  else { state with spaced := true }

/-- Writes one row of the comment table. -/
def State.entry (state : State) (entry : CommentEntry) : State :=
  entry.texts.foldl State.comment
    { state with breaks := max state.breaks entry.spacing.lineBreaks }

/-- Writes the rows below an offset. -/
def State.flushRows (offset : Nat) : List CommentEntry → State → State
  | [], state => { state with table := [] }
  | entry :: table, state =>
    if entry.offset < offset then flushRows offset table (state.entry entry)
    else { state with table := entry :: table }

/-- Writes the rows of the comment table below an offset. -/
def State.flush (state : State) (offset : Nat) : State :=
  State.flushRows offset state.table state

/-- Whether the next token, at an offset, starts a new line. -/
def State.breaksBefore (state : State) (offset : Nat) : Bool :=
  0 < state.breaks || 0 < state.layoutBreaks ||
    (state.table.takeWhile (·.offset < offset)).any CommentEntry.breaksLine

/-- Whether a line ends between two offsets, so that a separator is needed in
between. -/
def State.breaksBetween (state : State) (offset bound : Nat) : Bool :=
  ((state.table.dropWhile (·.offset ≤ offset)).takeWhile (·.offset < bound)).any
    CommentEntry.breaksLine

/-! ## Tokens -/

/-- Whether a text opens a delimiter. -/
def isOpener (text : String) : Bool := text == "(" || text == "[" || text == "\x7b"

/-- Whether a text closes a delimiter. -/
def isCloser (text : String) : Bool := text == ")" || text == "]" || text == "\x7d"

/-- Whether the last character written opens a delimiter. -/
def State.afterOpener (state : State) : Bool :=
  state.last == some '(' || state.last == some '[' || state.last == some '\x7b'

/-- Whether a token wants a space in front of it.  A comment between two delimiters
is kept off both of them. -/
def State.wantsSpace (state : State) (text : String) : Bool :=
  if isCloser text then state.spaced && state.opened
  else state.spaced || (state.layoutSpaced && !state.afterOpener)

/-- Writes a token at an offset, behind the comments in front of it. -/
def State.token (state : State) (offset : Nat) (text : String) : State :=
  let state := state.flush offset
  let state :=
    if isCloser text then { state with delimiters := state.delimiters.tail } else state
  let breaks := max state.breaks state.layoutBreaks
  let space := state.wantsSpace text
  let state :=
    { state with breaks := 0, spaced := false, layoutBreaks := 0, layoutSpaced := false }
  let state := state.breakLines breaks
  let state :=
    if state.atLineStart then state.indent
    else if space && text ≠ "," && text ≠ ";" then state.write .space
    else state
  let state := state.writeItem (.token text)
  let opened := isOpener text
  { state with
    tokens := state.tokens + 1
    dedented := false
    opened := opened
    delimiters := if opened then state.line :: state.delimiters else state.delimiters }

/-! ## Layout -/

/-- Asks for a line break in front of the next token. -/
def State.askLine (state : State) : State :=
  { state with layoutBreaks := max state.layoutBreaks 1 }

/-- Asks for a space in front of the next token. -/
def State.askSpace (state : State) : State := { state with layoutSpaced := true }

/-- Asks for the gap in front of an anchor.  Nothing separates the first anchor that
a node prints from what precedes the node, which had written `tokens` tokens. -/
def State.askGap (state : State) (tokens : Nat) (gap : Gap) (content : Bool) : State :=
  if state.tokens = tokens then state
  else
    match gap with
    | .glue => state
    | .space => state.askSpace
    | .spaceIfContent | .spaceUnlessParen => if content then state.askSpace else state
    | .line => state.askLine

/-- Anchors at which a line break indents the rest of the node. -/
def continues : NodeKind → Anchor → Bool
  | .binaryExpr, .y => true
  | .selectorExpr, .sel => true
  | .assignStmt, .rhs => true
  | .valueSpec, .values => true
  | _, _ => false

mutual
/-- The first token of a tree.  Only the first element of a list is looked at. -/
def firstToken? : Positional → Option Lexeme
  | .node _ _ slots => firstTokenSlots? slots

/-- The first token of a list of slots. -/
def firstTokenSlots? : List PositionalSlot → Option Lexeme
  | [] => none
  | slot :: slots => (slotToken? slot).or (firstTokenSlots? slots)

/-- The first token of a slot. -/
def slotToken? : PositionalSlot → Option Lexeme
  | .token token => token
  | .child none => none
  | .child (some child) => firstToken? child
  | .list [] _ => none
  | .list (element :: _) _ => firstToken? element
end

/-- The offset of the token that follows, if a token comes before any other
content. -/
def nextToken? : List PositionalSlot → Option Nat
  | [] => none
  | .token (some lexeme) :: _ => some lexeme.span.start
  | slot :: slots => if slot.isPresent then none else nextToken? slots

/-- Whether the elements of a list start lines of their own. -/
def isLines (tree : Positional) : ListStyle → Bool
  | .inline => false
  | .lines => true
  | .grouped => (tree.token? .lparen).isSome

/-- Whether the first token of a child is a parenthesis. -/
def beginsWithParen (child : Positional) : Bool :=
  ((firstToken? child).map (·.text)) == some "("

/-! ## The walk -/

/-- A walk that prints, or stops at a node of unknown kind. -/
abbrev Printer := StateT State (Except TreeError)

/-- How a list is printed: on lines or not, its separator, the gap in front of it
and the offset of the token behind it. -/
structure ListPlan where
  lines : Bool
  separator : Option String
  gap : Gap
  bound : Option Nat

/-- The layout in front of a list element. -/
def State.askElement (state : State) (tokens : Nat) (plan : ListPlan) (first : Bool) : State :=
  if plan.lines then state.askLine
  else if first then state.askGap tokens plan.gap true
  else state.askSpace

/-- Writes the separator behind a list element.  The last element has one only if
the list is closed on a later line. -/
def State.separator (state : State) (plan : ListPlan) (offset : Nat) (last : Bool) : State :=
  match plan.separator with
  | some text =>
    if !last || plan.bound.any (state.breaksBetween offset) then state.token offset text
    else state
  | none => state

/-- Starts a continued expression if a slot begins a new line inside its node. -/
def State.askContinuation (state : State) (tokens : Nat) (kind : NodeKind) (anchor : Anchor)
    (slot : PositionalSlot) : State :=
  if state.tokens ≠ tokens ∧ continues kind anchor ∧
      ((slotToken? slot).any fun lexeme => state.breaksBefore lexeme.span.start) then
    { state with continuation := state.continuation + 1 }
  else state

mutual
/-- Prints a tree. -/
def tree (registry : Registry) : Positional → Printer Unit
  | .node kind span slots => do
    let shape ← (registry.shapeOf kind : Except TreeError Shape)
    let before ← get
    if kind = .caseClause then modify fun state => { state with dedented := true }
    printSlots registry (.node kind span slots) before.tokens shape.anchors slots
    modify fun state => { state with continuation := before.continuation }

/-- Prints the slots of a node. -/
def printSlots (registry : Registry) (node : Positional) (tokens : Nat)
    (shapes : List AnchorShape) : List PositionalSlot → Printer Unit
  | [] => return
  | slot :: slots => do
    match shapes with
    | [] => return
    | shape :: shapes =>
      modify (·.askContinuation tokens node.kind shape.anchor slot)
      printSlot registry node tokens shape slots slot
      printSlots registry node tokens shapes slots

/-- Prints one slot, given those that follow it. -/
def printSlot (registry : Registry) (node : Positional) (tokens : Nat) (shape : AnchorShape)
    (following : List PositionalSlot) : PositionalSlot → Printer Unit
  | .token none => return
  | .token (some lexeme) =>
    modify fun state =>
      (state.askGap tokens shape.gap (following.head?.any Slot.isPresent)).token
        lexeme.span.start lexeme.text
  | .child none => return
  | .child (some child) => do
    modify (·.askGap tokens shape.gap (!beginsWithParen child))
    tree registry child
  | .list elements separators => do
    match shape.slot with
    | .list layout =>
      let plan : ListPlan :=
        ⟨isLines node layout.style, layout.separator, shape.gap, nextToken? following⟩
      printElements registry tokens plan true separators elements
      if plan.lines && !elements.isEmpty then modify State.askLine
    | _ => return

/-- Prints list elements with their separators. -/
def printElements (registry : Registry) (tokens : Nat) (plan : ListPlan) (first : Bool)
    (separators : List Span) : List Positional → Printer Unit
  | [] => return
  | element :: elements => do
    modify (·.askElement tokens plan first)
    tree registry element
    let offset := (separators.head?.map Span.start).getD element.span.stop
    modify (·.separator plan offset elements.isEmpty)
    printElements registry tokens plan false (separators.drop 1) elements
end

/-- Rows of the comment table at this offset or behind it are never written. -/
def lastOffset : Nat := 4294967295

/-- The marks of a tree and its comments. -/
def marks (registry : Registry) (root : Positional) (table : List CommentEntry) :
    Except TreeError (List Mark) := do
  let ((), state) ← (tree registry root).run (.start table)
  return (state.flush lastOffset).marks.toList

/-- The text of marks without the blanks at its end, closed by a line feed. -/
def finish (marks : List Mark) : String :=
  String.ofList (Text.trimEnd (render marks).toList) ++ "\n"

end Print

/-- Prints a positional tree with the comments of a table. -/
def Positional.print (root : Positional) (registry : Registry) (table : List CommentEntry) :
    Except TreeError String :=
  (Print.marks registry root table).map Print.finish

end GoTrivia
