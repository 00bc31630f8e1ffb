import GoTrivia.Grammar.Basic

/-!
# Recursion in the grammar

The rules of the grammar refer to each other.  The rules through which every such
cycle passes are gathered in a record, and each rule is written against a given
record; stacking the rules on top of each other level by level then ties the knot
(`Rules.level`, in the module of the file rule).

Every reference to the record stands behind a token that was already taken, so a
text is read in full with as many levels as it has tokens.
-/

set_option autoImplicit false

namespace GoTrivia

namespace Grammar

/-- The rules that may contain themselves.  Rules for expressions are told whether
a brace behind a bare type name opens a literal. -/
structure Rules where
  /-- A type. -/
  type : Parse Positional
  /-- Operands joined by binary operators that bind at least so tightly. -/
  binary : (literals : Bool) → (least : Nat) → Parse Positional
  /-- An operand with its unary operators. -/
  unary : (literals : Bool) → Parse Positional
  /-- A composite literal that leaves out its type. -/
  elided : Parse Positional
  /-- Statements between braces. -/
  block : Parse Positional
  /-- Statements up to the end of their block or clause. -/
  statements : Parse Elements
  /-- A conditional statement. -/
  conditional : Parse Positional

/-- Stands in for a node below the last level. -/
def tooDeep : Parse Positional := do
  report "nesting too deep"
  close .badExpr (← here) []

/-- The rules below the last level: they take nothing and report that. -/
def Rules.exhausted : Rules where
  type := tooDeep
  binary _ _ := tooDeep
  unary _ := tooDeep
  elided := tooDeep
  block := tooDeep
  statements := do
    report "nesting too deep"
    return .empty
  conditional := tooDeep

end Grammar

end GoTrivia
