import GoTrivia.Text.Alphabetic
import GoTrivia.Text.Blank
import GoTrivia.Text.Numeric
import GoTrivia.Text.Split

/-!
# Log filters

A log filter is a list of directives with commas between them.  A directive is a level,
or a target with perhaps a span in brackets behind it and perhaps a level behind an
equals sign; either the target or the span may be left out:

    target[span{field=value}]=level

Filters are only checked here.  A directive is malformed, or well formed but with a
level that there is not.

Blanks around a directive do not count when its parts are told apart, but the parts
are then read off the text with its blanks, at the columns they were found at.  So a
directive is read as a list of places, each with the character that decides and the
character that is read.
-/

set_option autoImplicit false

namespace GoTrivia

namespace LogFilter

/-- What is wrong with a filter. -/
inductive Fault
  | malformed
  | badLevel
deriving DecidableEq, Repr

/-- What is wrong, from the outside in. -/
def Fault.causes : Fault → List String
  | malformed => ["invalid filter directive"]
  | badLevel =>
    let cause := "error parsing level filter: expected one of \"off\", \"error\", \"warn\", " ++
      "\"info\", \"debug\", \"trace\", or a number 0-5"
    [cause, cause]

/-! ## Levels -/

/-- The names of log levels. -/
def levelNames : List String := ["off", "error", "warn", "info", "debug", "trace"]

/-- Whether a text is a log level: a name in any case, a number up to five, or
nothing. -/
def isLevel (level : List Char) : Bool :=
  let digits := match level with
    | '+' :: digits => digits
    | digits => digits
  level.isEmpty ||
    levelNames.contains (String.ofList (level.map Char.toLower)) ||
    (!digits.isEmpty && digits.all Char.isDigit && Nat.ofDigitChars 10 digits 0 ≤ 5)

/-! ## Directives -/

/-- A directive: its places up to the blanks behind it, and what follows them in the
text with its blanks. -/
structure Directive where
  places : List (Char × Char)
  rest : List Char
deriving DecidableEq, Repr

namespace Directive

/-- A text without the blanks at both ends. -/
def trim (text : List Char) : List Char :=
  Text.trimEnd (text.dropWhile Text.isBlank)

/-- The directive that a text spells. -/
def ofText (text : List Char) : Directive :=
  let trimmed := trim text
  ⟨trimmed.zip text, text.drop trimmed.length⟩

/-- The places from the first on where one of some characters decides. -/
def dropTo (stops : List Char) (places : List (Char × Char)) : List (Char × Char) :=
  places.dropWhile fun place => !stops.contains place.1

/-- The places in front of the first where a character decides. -/
def takeTo (stop : Char) (places : List (Char × Char)) : List (Char × Char) :=
  places.takeWhile fun place => place.1 ≠ stop

/-- Checks a level, which goes on to the end of the text. -/
def checkLevel (rest : List Char) (places : List (Char × Char)) : Except Fault Unit :=
  if isLevel (places.map Prod.snd ++ rest) then .ok () else .error .badLevel

/-- Checks what stands behind a span. -/
def checkBehindSpan (rest : List Char) : List (Char × Char) → Except Fault Unit
  | [] => .ok ()
  | ('=', _) :: places => checkLevel rest places
  | _ => .error .malformed

/-- Checks the field of a span and what follows it. -/
def checkField (rest : List Char) (places : List (Char × Char)) : Except Fault Unit :=
  if (takeTo '\x7d' places).isEmpty then .error .malformed
  else
    match dropTo ['\x7d'] places with
    | _ :: (']', _) :: places => checkBehindSpan rest places
    | _ => .error .malformed

/-- Checks a span, from behind its opening bracket on. -/
def checkSpan (rest : List Char) (places : List (Char × Char)) : Except Fault Unit :=
  match dropTo [']', '\x7b'] places with
  | (']', _) :: places => checkBehindSpan rest places
  | (_, _) :: places => checkField rest places
  | [] => .error .malformed

/-- Whether a directive may begin with a character, its span aside. -/
def isInitial (c : Char) : Bool :=
  ['-', ':', '_'].contains c || Text.isAlphabetic c || Text.isNumeric c

/-- Checks a directive.  A word alone is a level or a target, so it is always well
formed. -/
def check (directive : Directive) : Except Fault Unit :=
  match directive.places with
  | [] => .error .malformed
  | ('[', _) :: places => checkSpan directive.rest places
  | (c, _) :: places =>
    if isInitial c then
      match dropTo ['=', '['] places with
      | [] => .ok ()
      | ('=', _) :: places => checkLevel directive.rest places
      | _ :: places => checkSpan directive.rest places
    else .error .malformed

end Directive

/-! ## Filters -/

/-- Checks a filter.  The first fault counts; a filter without any text has none. -/
def check (filter : String) : Except Fault Unit :=
  if filter.isEmpty then .ok ()
  else (Text.splitAt ',' filter.toList).forM fun text => (Directive.ofText text).check

end LogFilter

end GoTrivia
