/-!
# Line breaks between things

How far two neighbouring things stand apart is kept in three classes: on the same
line, on the next line, or with at least one blank line between them.  More than
one blank line is as good as one.
-/

set_option autoImplicit false

namespace GoTrivia

/-- The line breaks in front of something. -/
inductive Spacing
  | sameLine
  | newline
  | blank
deriving DecidableEq, Repr, Inhabited

namespace Spacing

/-- The class of a number of line feeds. -/
def ofLineDelta : Nat → Spacing
  | 0 => sameLine
  | 1 => newline
  | _ + 2 => blank

/-- The line feeds that are written for a class. -/
def lineBreaks : Spacing → Nat
  | sameLine => 0
  | newline => 1
  | blank => 2

/-- The wider of two spacings. -/
def max (a b : Spacing) : Spacing :=
  if a.lineBreaks ≤ b.lineBreaks then b else a

/-- The widest of a list of spacings. -/
def widest? : List Spacing → Option Spacing
  | [] => none
  | a :: rest => some (rest.foldl max a)

/-- The name of a spacing in dumps. -/
def text : Spacing → String
  | sameLine => "None"
  | newline => "Newline"
  | blank => "Blank"

/-- Every class, from the closest on. -/
def all : List Spacing := [sameLine, newline, blank]

/-- Writing out a class and reading it back caps the line feeds at two. -/
theorem lineBreaks_ofLineDelta (n : Nat) : (ofLineDelta n).lineBreaks = min n 2 := by
  match n with
  | 0 => rfl
  | 1 => rfl
  | n + 2 => simp [ofLineDelta, lineBreaks]

end Spacing

end GoTrivia
