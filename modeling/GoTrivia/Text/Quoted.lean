import GoTrivia.Text.GraphemeExtend
import GoTrivia.Text.Printable

/-!
# Quoted text

Dumps of trees show the text of tokens and comments between double quotes, on one
line and with nothing invisible in it: the double quote and the backslash get a
backslash, tab, line feed, carriage return and NUL have escapes of their own, and
any other character that would not show by itself is written by its code point in
lower-case hexadecimal.
-/

set_option autoImplicit false

namespace GoTrivia.Text

/-- A lower-case hexadecimal digit. -/
def hexDigit (n : Nat) : Char :=
  if n < 10 then Char.ofNat (48 + n) else Char.ofNat (87 + n)

/-- A number in lower-case hexadecimal without leading zeros. -/
def hex (n : Nat) : List Char :=
  if n < 16 then [hexDigit n] else hex (n / 16) ++ [hexDigit (n % 16)]

/-- A character as it stands between the quotes. -/
def escape (c : Char) : List Char :=
  match c with
  | '\x22' => ['\\', '\x22']
  | '\\' => ['\\', '\\']
  | '\t' => ['\\', 't']
  | '\n' => ['\\', 'n']
  | '\r' => ['\\', 'r']
  | '\x00' => ['\\', '0']
  | _ =>
    if isGraphemeExtend c || !isPrintable c then
      ['\\', 'u', '\x7b'] ++ hex c.toNat ++ ['\x7d']
    else [c]

/-- The text between double quotes. -/
def quote (text : String) : String :=
  String.ofList ('\x22' :: text.toList.flatMap escape ++ ['\x22'])

end GoTrivia.Text
