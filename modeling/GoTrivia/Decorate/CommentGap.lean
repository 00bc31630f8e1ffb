import GoTrivia.Decorate.Fragment
import GoTrivia.Decorate.Resolver
import GoTrivia.Error
import GoTrivia.Event
import GoTrivia.Trivia.Decoration

/-!
# Gaps between fragments

Each comment falls into one gap between two neighbouring fragments, and the gap
decides where the comment goes:

- comments on the line of the point in front go behind that point,
- comments in front of a separator go in front of the end of the element before it,
- comments that close the line of a separator go behind the end of that element,
- everything else goes in front of the point behind the gap.

Comments are grouped by line first.  A group on the same line as what is in front
of the gap can only be the first one.  Line breaks between the last comment and
the point behind the gap are kept as a group without comments.
-/

set_option autoImplicit false

namespace GoTrivia

/-- The comments between two neighbouring fragments, or on either end. -/
structure CommentGap where
  prev : Option Fragment
  next : Option Fragment
  comments : List Lexeme
deriving DecidableEq, Repr

/-- How the trivia of a gap is split between its two sides. -/
structure Assignment where
  after : List TriviaGroup
  before : List TriviaGroup
deriving DecidableEq, Repr

namespace CommentGap

/-- The gaps of a sequence of fragments behind a given one.  A comment belongs in
front of the first fragment that starts behind it; comments behind the last
fragment have a gap of their own. -/
def ofFragments (prev : Option Fragment) : List Fragment → List Lexeme → List CommentGap
  | [], [] => []
  | [], comments => [⟨prev, none, comments⟩]
  | next :: fragments, comments =>
    let inFront (comment : Lexeme) : Bool := comment.span.start < next.span.start
    ⟨prev, some next, comments.takeWhile inFront⟩ ::
      ofFragments (some next) fragments (comments.dropWhile inFront)

/-- The line of an offset, or the error that it has none. -/
def lineOf (resolver : LineResolver) (offset : Nat) : Except TreeError Nat :=
  match resolver.lineOf? offset with
  | some line => .ok line
  | none => .error (.unresolved offset)

/-- Adds a comment that stands `delta` lines below what precedes it. -/
def addComment (groups : List TriviaGroup) (delta : Nat) (text : String) : List TriviaGroup :=
  match groups.getLast?, delta with
  | some last, 0 => groups.dropLast ++ [{ last with comments := last.comments ++ [text] }]
  | _, delta => groups ++ [.comment (.ofLineDelta delta) text]

/-- Groups comments by line, with the line the last of them ends on.  `line` is
where what precedes them ends, if anything does. -/
def group (resolver : LineResolver) (line : Option Nat) (groups : List TriviaGroup) :
    List Lexeme → Except TreeError (List TriviaGroup × Option Nat)
  | [] => .ok (groups, line)
  | comment :: comments => do
    let first ← lineOf resolver comment.span.start
    let delta := (line.map (first - ·)).getD 0
    let last ← lineOf resolver comment.span.stop
    group resolver (some last) (addComment groups delta comment.text) comments

/-- The line feeds between the last thing in a gap and the fragment behind it. -/
def deltaBehind (resolver : LineResolver) (line : Option Nat) (next : Option Fragment) :
    Except TreeError Nat :=
  match line, next with
  | some line, some next => do return (← lineOf resolver next.span.start) - line
  | _, _ => .ok 0

/-- Whether the first group stands on the line of what precedes it. -/
def beginsOnLine (groups : List TriviaGroup) : Bool :=
  groups.head?.any (·.spacing == .sameLine)

/-- The bare line break in front of a point, if it starts a line. -/
def lineBreak (delta : Nat) : List TriviaGroup :=
  if 0 < delta then [.bare (.ofLineDelta delta)] else []

/-- Splits groups between the two sides of a gap, given the line feeds behind them. -/
def split (prev next : Option Fragment) (groups : List TriviaGroup) (delta : Nat) : Assignment :=
  match prev, next with
  | some (.point _), none => ⟨groups, []⟩
  | some (.point _), some (.separator _) => ⟨[], groups⟩
  | some (.point _), some (.point _) =>
    let n := if beginsOnLine groups then 1 else 0
    ⟨groups.take n, groups.drop n ++ lineBreak delta⟩
  | some (.separator _), _ =>
    let n := if beginsOnLine groups && (1 < groups.length || 0 < delta) then 1 else 0
    ⟨groups.take n, groups.drop n ++ lineBreak delta⟩
  | none, _ => ⟨[], groups ++ lineBreak delta⟩

/-- Splits the trivia of a gap between its two sides. -/
def assign (resolver : LineResolver) (gap : CommentGap) : Except TreeError Assignment := do
  let line ← match gap.prev with
    | some prev => pure (some (← lineOf resolver prev.span.stop))
    | none => pure none
  let (groups, line) ← group resolver line [] gap.comments
  let delta ← deltaBehind resolver line gap.next
  return split gap.prev gap.next groups delta

/-- Whether all the trivia of a gap goes to one side without looking at lines. -/
def isOneSided (gap : CommentGap) : Bool :=
  match gap.prev, gap.next with
  | some (.point _), none => true
  | some (.point _), some (.separator _) => true
  | _, _ => false

/-- What is reported about a gap. -/
def events (gap : CommentGap) (assignment : Assignment) : List Event :=
  if gap.comments.isEmpty || gap.isOneSided then []
  else [.assigned assignment.after.length assignment.before.length]

/-- Assigns the trivia of gaps one after the other, up to the first that fails. -/
def assignAll (resolver : LineResolver) :
    List CommentGap → Traced TreeError (List (CommentGap × Assignment))
  | [] => ⟨[], .ok []⟩
  | gap :: gaps =>
    match gap.assign resolver with
    | .error error => ⟨[], .error error⟩
    | .ok assignment =>
      let rest := assignAll resolver gaps
      ⟨gap.events assignment ++ rest.events, rest.result.map ((gap, assignment) :: ·)⟩

/-- The decorations of the points of a sequence of gaps, in order.  `open?` is the
decoration of the point in front of the first gap.  A separator is no point: what
belongs in front of it stays with the point before it. -/
def decorations (open? : Option Decoration) :
    List (CommentGap × Assignment) → List Decoration
  | [] => open?.toList
  | (gap, assignment) :: rest =>
    let closed := open?.map fun decoration =>
      { decoration with after := decoration.after ++ assignment.after }
    match gap.next with
    | some (.point _) => closed.toList ++ decorations (some ⟨assignment.before, []⟩) rest
    | some (.separator _) =>
      decorations (closed.map fun decoration =>
        { decoration with before := decoration.before ++ assignment.before }) rest
    | none => decorations closed rest

end CommentGap

end GoTrivia
