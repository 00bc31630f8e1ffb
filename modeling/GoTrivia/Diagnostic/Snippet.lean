import GoTrivia.Diagnostic.Basic
import GoTrivia.Diagnostic.Window
import GoTrivia.Text.Blank
import GoTrivia.Text.LineIndex
import GoTrivia.Text.Split

/-!
# Diagnostics beside their source text

The plain rendering of a diagnostic: its message, its place in a named file, and the
line it begins on, with the stretch underlined and labelled.  Every row is built by
writing into columns, later writings over earlier ones; long lines are seen through
the window of their scene.
-/

set_option autoImplicit false

namespace GoTrivia

namespace Snippet

/-! ## Rows -/

/-- Writes a text into a row from a column on, over what stands there.  Columns that
were never written are blank. -/
def write (row : List Char) (column : Nat) (text : List Char) : List Char :=
  if text.isEmpty then row
  else row.take column ++ List.replicate (column - row.length) ' ' ++ text ++
    row.drop (column + text.length)

/-! ## Columns -/

/-- The columns a character takes in front of a mark: a tab four, another control
none. -/
def columnsOf (c : Char) : Nat :=
  if c = '\t' then 4 else if c.toNat < 0x20 || c.toNat = 0x7f then 0 else 1

/-- The columns a text takes in front of a mark. -/
def columns (text : List Char) : Nat :=
  text.foldl (fun count c => count + columnsOf c) 0

/-- The blank columns at the start of a line. -/
def indent (line : List Char) : Nat :=
  (line.takeWhile Text.isBlank).foldl (fun count c => count + if c = '\t' then 4 else 1) 0

/-- A line with its tabs as blanks. -/
def withoutTabs (line : List Char) : List Char :=
  line.flatMap fun c => if c = '\t' then [' ', ' ', ' ', ' '] else [c]

/-! ## Snippets -/

/-- What stands behind the underline. -/
def label : List Char := "here".toList

/-- The columns of a row. -/
def width : Nat := 140

/-- The scene of a mark in a text of several lines. -/
def sceneOf (lines : List (List Char)) (start stop : Nat) : Scene where
  indent := ((lines.map indent).min?).getD 0
  start := start
  stop := stop
  labelStop := stop + label.length + 1
  longest := ((lines.map byteLength).max?).getD 0
  width := width - (3 + (toString (lines.length + 1)).length)

/-- The row that shows a line behind its number. -/
def sourceRow (scene : Scene) (number : List Char) (line : List Char) : List Char :=
  let shown := scene.shown (byteLength line)
  let code := (line.drop shown.left).take (shown.right - shown.left)
  let column := number.length + 3
  let row := write (number ++ [' ', '|']) column code
  let row := if scene.cutsLeft then write row column "...".toList else row
  if scene.cutsRight (byteLength line) then write row (column + code.length - 3) "...".toList
  else row

/-- The row that underlines the mark. -/
def markRow (scene : Scene) (gutter : List Char) (line : List Char) : List Char :=
  let left := min (scene.shown (byteLength line)).left line.length
  let column (n : Nat) : Nat := gutter.length + 1 + n - left
  let row := write gutter (column (scene.stop + 1)) label
  (List.range' scene.start (scene.stop - scene.start)).foldl
    (fun row n => write row (column n) ['^']) row

/-- The row with the place in the named file. -/
def placeRow (margin : List Char) (path : String) (line column : Nat) : List Char :=
  let arrow := margin ++ "-->".toList
  write arrow (arrow.length + 1) path.toList ++ s!":{line}:{column}".toList

/-- The heading: what kind of message it is, and the message if there is one. -/
def heading (message : String) : String :=
  if message.isEmpty then "error" else s!"error: {message}"

end Snippet

open Snippet in
/-- The message, the place in the named file, and the line with the stretch
underlined. -/
def Diagnostic.render (diagnostic : Diagnostic) (path source : String) : String :=
  let place := ((LineIndex.ofText source).lineColumn? diagnostic.span.start).getD ⟨0, 0⟩
  let lines := Text.lines source.toList
  let line := lines[place.line]?.getD []
  let size := diagnostic.span.stop - diagnostic.span.start
  let before := takeBytes place.column line
  let start := columns before
  let stop := max (start + 1) (columns (takeBytes (place.column + size) line))
  let scene := sceneOf lines start stop
  let number := (toString (place.line + 1)).toList
  let margin := List.replicate number.length ' '
  let gutter := margin ++ [' ', '|']
  "\n".intercalate
    [heading diagnostic.message,
     String.ofList (placeRow margin path (place.line + 1) (before.length + 1)),
     String.ofList gutter,
     String.ofList (sourceRow scene number (withoutTabs line)),
     String.ofList (markRow scene gutter (withoutTabs line)),
     String.ofList gutter]

end GoTrivia
