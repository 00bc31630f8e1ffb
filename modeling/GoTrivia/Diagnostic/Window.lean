/-!
# Windows on long lines

A line of source text is shown in a limited number of columns, with some columns of it
marked and a label behind the mark.  A line that fits is shown whole, except that most
of a long indent common to all lines is left out.  A longer one is seen through a
window of that many columns, and the window is placed so that as much as possible of
what matters is in it: the line from its indent to the label, else the mark with its
label, else the mark.  A mark too wide for the window is shown regardless of the limit.

Where a line is cut, an ellipsis takes the place of its outermost columns, so whatever
has to be seen is given some room on either side.
-/

set_option autoImplicit false

namespace GoTrivia

/-- What decides where the window stands.  Columns are counted from zero. -/
structure Scene where
  /-- The columns that are blank at the start of every line. -/
  indent : Nat
  /-- The first marked column. -/
  start : Nat
  /-- The column behind the mark. -/
  stop : Nat
  /-- The column behind the label. -/
  labelStop : Nat
  /-- The length of the longest line. -/
  longest : Nat
  /-- The number of columns there are. -/
  width : Nat
deriving DecidableEq, Repr

/-- The columns from `left` up to `right`. -/
structure Window where
  left : Nat
  right : Nat
deriving DecidableEq, Repr

namespace Scene

/-- The room for an ellipsis beside what has to be seen. -/
def room : Nat := 6

/-- The longest indent that is shown in full. -/
def longIndent : Nat := 20

/-- The part of a long indent that is kept. -/
def keptIndent : Nat := 16

/-- The window that begins at a column and takes the whole width. -/
def windowFrom (scene : Scene) (left : Nat) : Window := ⟨left, left + scene.width⟩

/-- The window on the lines of a scene. -/
def window (scene : Scene) : Window :=
  let indent := scene.indent - room
  let start := scene.start - room
  let stop := scene.stop + room
  let labelStop := scene.labelStop + room
  let left := if longIndent < indent then indent - keptIndent else 0
  let right := max scene.longest left
  if right - left ≤ scene.width then ⟨left, right⟩
  else if indent ≤ labelStop && labelStop - indent ≤ scene.width then scene.windowFrom indent
  else if labelStop - start ≤ scene.width then
    scene.windowFrom (start - (scene.width - (labelStop - start)) / 2)
  else if stop - start ≤ scene.width then
    scene.windowFrom (start - (scene.width - (stop - start)) / 5 * 2)
  else ⟨start, stop⟩

/-- The columns of a line of a given length that are shown. -/
def shown (scene : Scene) (length : Nat) : Window :=
  let window := scene.window
  let right := if length - window.left ≤ scene.width then length else min length window.right
  ⟨min window.left length, right⟩

/-- Whether lines are cut at their start. -/
def cutsLeft (scene : Scene) : Bool := 0 < scene.window.left

/-- Whether a line of a given length is cut at its end.  A window that ends where the
mark or the label does holds room for an ellipsis, and a line that ends in this room
is not cut. -/
def cutsRight (scene : Scene) (length : Nat) : Bool :=
  let window := scene.window
  let right :=
    if window.right = scene.stop + room || window.right = scene.labelStop + room then
      window.right - room
    else window.right
  right < length && window.left + scene.width < length

end Scene

end GoTrivia
