import GoTrivia.Proofs.Printing.Trail

/-!
# What the printer is asked for

A run of the printer can be told without the blanks that it writes.  What is told is a list of
cues: the tokens and comments in the order in which they come, the line breaks that rows of the
comment table ask for, and the line breaks that the layout asks for.  They depend on the tree, its
comment table and the registry alone, whatever blanks were written before.

**Reading the cues.** The line breaks in front of a token or a comment are read off the cues that
came before, from the last one backwards.  Those of rows count back to the last token or comment.
The one of the layout counts back to the last token, unless a comment opened a line since.
-/

set_option autoImplicit false

namespace GoTrivia

open Print (Mark State ListPlan nextToken? isLines lastOffset)

/-- A step, or a line break that the layout asks for in front of the next token. -/
inductive Cue
  | step (step : Step)
  | line
deriving DecidableEq, Repr

/-! ## Reading cues -/

/-- The line breaks asked for since the last token or comment, of which there is one behind a line
comment.  The last cue comes first. -/
def breaksAsked : List Cue → Nat
  | [] => 0
  | .line :: past => breaksAsked past
  | .step (.gap spacing) :: past => max (breaksAsked past) spacing.lineBreaks
  | .step (.comment text) :: _ => if isLineComment text then 1 else 0
  | .step (.token _) :: _ => 0

/-- Whether the layout has asked for a line break since the last token, and no comment opened a line
since. -/
def lineAsked : List Cue → Bool
  | [] => false
  | .line :: _ => true
  | .step (.gap _) :: past => lineAsked past
  | .step (.comment _) :: past => breaksAsked past == 0 && lineAsked past
  | .step (.token _) :: _ => false

/-- Whether a token or a comment with a text has come. -/
def seen : List Cue → Bool
  | [] => false
  | .step (.token text) :: past => text ≠ "" || seen past
  | .step (.comment text) :: past => text ≠ "" || seen past
  | _ :: past => seen past

/-- A token or a comment with the line breaks that it stands behind, and whether anything visible
stands in front of it. -/
structure Lead where
  mark : Mark
  breaks : Nat
  seen : Bool
deriving DecidableEq, Repr

/-- The tokens and comments among cues, the first one first. -/
def leads : List Cue → List Lead
  | [] => []
  | .step (.token text) :: past =>
    leads past ++ [⟨.token text, max (breaksAsked past) (if lineAsked past then 1 else 0), seen past⟩]
  | .step (.comment text) :: past => leads past ++ [⟨.comment text, breaksAsked past, seen past⟩]
  | _ :: past => leads past

/-! ## Running without blanks -/

/-- A run without blanks: the cues so far, the last one first, the number of tokens among them, and
the rows of the comment table that are still to come. -/
structure Script where
  past : List Cue
  tokens : Nat
  table : List CommentEntry
deriving DecidableEq, Repr

namespace Script

/-- The start of a run. -/
def start (table : List CommentEntry) : Script := ⟨[], 0, table⟩

/-- The layout asks for a line break. -/
def askLine (script : Script) : Script := { script with past := .line :: script.past }

/-- The layout asks for the gap in front of an anchor, unless nothing was written since there were
`tokens` tokens. -/
def askGap (script : Script) (tokens : Nat) (gap : Gap) : Script :=
  if script.tokens ≠ tokens ∧ gap = .line then script.askLine else script

/-- The layout in front of a list element. -/
def askElement (script : Script) (tokens : Nat) (plan : ListPlan) (first : Bool) : Script :=
  if plan.lines then script.askLine
  else if first then script.askGap tokens plan.gap
  else script

/-- The rows below an offset come. -/
def flush (script : Script) (offset : Nat) : Script where
  past := (((script.table.takeWhile (·.offset < offset)).flatMap CommentEntry.steps).map
    Cue.step).reverse ++ script.past
  tokens := script.tokens
  table := script.table.dropWhile (·.offset < offset)

/-- A token comes, behind the rows below its offset. -/
def token (script : Script) (offset : Nat) (text : String) : Script where
  past := .step (.token text) :: (script.flush offset).past
  tokens := script.tokens + 1
  table := (script.flush offset).table

/-- The separator behind a list element comes, behind the last one only if a line ends in front of
the token that closes the list. -/
def separator (script : Script) (plan : ListPlan) (offset : Nat) (last : Bool) : Script :=
  match plan.separator with
  | some text =>
    if !last || plan.bound.any ((State.start script.table).breaksBetween offset) then
      script.token offset text
    else script
  | none => script

mutual
/-- A tree comes. -/
def tree (registry : Registry) : Positional → Script → Script
  | .node kind span slots => fun script =>
    Script.slots registry (.node kind span slots) script.tokens (registry.anchorsOf kind) slots script

/-- The slots of a node come. -/
def slots (registry : Registry) (node : Positional) (tokens : Nat) (shapes : List AnchorShape) :
    List PositionalSlot → Script → Script
  | [] => id
  | slot :: slots =>
    match shapes with
    | [] => id
    | shape :: shapes => fun script =>
      Script.slots registry node tokens shapes slots
        (Script.slot registry node tokens shape slots slot script)

/-- One slot comes, given those that follow it. -/
def slot (registry : Registry) (node : Positional) (tokens : Nat) (shape : AnchorShape)
    (following : List PositionalSlot) : PositionalSlot → Script → Script
  | .token none => id
  | .token (some lexeme) => fun script =>
    (script.askGap tokens shape.gap).token lexeme.span.start lexeme.text
  | .child none => id
  | .child (some child) => fun script => tree registry child (script.askGap tokens shape.gap)
  | .list elements separators =>
    match shape.slot with
    | .list layout => fun script =>
      let plan : ListPlan :=
        ⟨isLines node layout.style, layout.separator, shape.gap, nextToken? following⟩
      let closed := Script.elements registry tokens plan true separators elements script
      if plan.lines && !elements.isEmpty then closed.askLine else closed
    | _ => id

/-- List elements come with their separators. -/
def elements (registry : Registry) (tokens : Nat) (plan : ListPlan) (first : Bool)
    (separators : List Span) : List Positional → Script → Script
  | [] => id
  | element :: elements => fun script =>
    Script.elements registry tokens plan false (separators.drop 1) elements
      ((tree registry element (script.askElement tokens plan first)).separator plan
        ((separators.head?.map Span.start).getD element.span.stop) elements.isEmpty)
end

end Script

/-- The cues of a tree and its comment table, the last one first. -/
def cues (registry : Registry) (root : Positional) (table : List CommentEntry) : List Cue :=
  ((Script.tree registry root (.start table)).flush lastOffset).past

end GoTrivia
