import GoTrivia.Text.Span

/-!
# Lines of a text

Every line feed opens a new line.  A line index answers on which line and in
which column an offset lies, both counted from zero and the column in bytes.
Only offsets that fall between two characters, or at either end of the text, lie
on a line at all.
-/

set_option autoImplicit false

namespace GoTrivia

/-- A place in a text, by line and column. -/
structure LineColumn where
  line : Nat
  column : Nat
deriving DecidableEq, Repr

/-- The place behind a character. -/
def LineColumn.behind (place : LineColumn) (c : Char) : LineColumn :=
  if c = '\n' then ⟨place.line + 1, 0⟩ else ⟨place.line, place.column + c.utf8Size⟩

/-- What lies at each offset of a text that begins at a given place: the place, or
nothing inside a character. -/
def placesFrom (place : LineColumn) : List Char → List (Option LineColumn)
  | [] => [some place]
  | c :: cs => some place :: (List.replicate (c.utf8Size - 1) none ++ placesFrom (place.behind c) cs)

/-- A text ready to be asked about its lines: its characters and what lies at each
of its offsets. -/
structure LineIndex where
  chars : List Char
  places : Array (Option LineColumn)
  places_eq : places = (placesFrom ⟨0, 0⟩ chars).toArray

namespace LineIndex

/-- The index of a text. -/
def ofText (text : String) : LineIndex :=
  ⟨text.toList, (placesFrom ⟨0, 0⟩ text.toList).toArray, rfl⟩

/-- The place of an offset, if it lies on a line. -/
def lineColumn? (index : LineIndex) (offset : Nat) : Option LineColumn :=
  (index.places[offset]?).join

/-- The line of an offset, if it lies on one. -/
def lineOf? (index : LineIndex) (offset : Nat) : Option Nat :=
  (index.lineColumn? offset).map LineColumn.line

/-- The offsets at which lines begin, for a text that begins at `offset` just
after a line feed or at its very start. -/
def lineStartsFrom (offset : Nat) : List Char → List Nat
  | [] => []
  | c :: cs =>
    let next := offset + c.utf8Size
    if c = '\n' then next :: lineStartsFrom next cs else lineStartsFrom next cs

/-- The offsets at which the lines of the text begin. -/
def lineStarts (index : LineIndex) : List Nat :=
  0 :: lineStartsFrom 0 index.chars

/-- The offset `column` bytes after the start of a line.  The column may run past
the end of the line; the line has to exist. -/
def offset? (index : LineIndex) (place : LineColumn) : Option Nat :=
  index.lineStarts[place.line]?.map (· + place.column)

end LineIndex

end GoTrivia
