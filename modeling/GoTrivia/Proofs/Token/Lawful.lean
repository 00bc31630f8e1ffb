import Mathlib.Data.List.Basic
import GoTrivia.Token.Basic

/-!
# Lawful token lists

What the grammar may rely on when it reads a token list, whatever text the list was cut
from: the list ends with its only `eof`, the tokens do not overlap, and the text of a token
matches its kind.

**Semicolons.** A semicolon is written in the text or inserted at the end of a line, and
only an inserted one has no text.  Every other kind that has one spelling is spelled so.
-/

set_option autoImplicit false

namespace GoTrivia

/-- The one spelling of a kind, for operators, punctuation and keywords. -/
def TokenKind.spelling? (kind : TokenKind) : Option String :=
  match Cut.operators.find? (·.2 == kind) with
  | some (chars, _) => some (String.ofList chars)
  | none => (TokenKind.keywords.find? (·.2 == kind)).map Prod.fst

/-- A token whose text matches its kind. -/
structure Token.Regular (token : Token) : Prop where
  ordered : token.span.start ≤ token.span.stop
  spelled : token.kind ≠ .semicolon → ∀ text, token.kind.spelling? = some text → token.text = text
  semicolon : token.kind = .semicolon → token.text = ";" ∨ token.text = ""
  plain : token.kind ≠ .semicolon → token.text ≠ ";"
  visible : token.kind ≠ .semicolon → token.kind ≠ .eof →
    token.text ≠ "" ∧ token.span.start < token.span.stop

theorem isImplicit_of_kind {token : Token} (other : token.kind ≠ .semicolon) :
    token.isImplicit = false := by
  simp [Token.isImplicit, other]

/-- A list of tokens as the grammar expects it. -/
structure Lawful (tokens : List Token) : Prop where
  ended : ∃ front last, tokens = front ++ [last] ∧ last.kind = .eof ∧
    ∀ token ∈ front, token.kind ≠ .eof
  ordered : tokens.Pairwise fun token next => token.span.stop ≤ next.span.start
  regular : ∀ token ∈ tokens, token.Regular

namespace Lawful

variable {front tokens : List Token} {token : Token}

/-- What follows a token of another kind than `eof` is lawful again. -/
theorem tail (lawful : Lawful (token :: tokens)) (more : token.kind ≠ .eof) : Lawful tokens := by
  obtain ⟨front, last, split, isEnd, inner⟩ := lawful.ended
  cases front with
  | nil =>
    obtain ⟨rfl, -⟩ : token = last ∧ tokens = [] := by simpa using split
    exact absurd isEnd more
  | cons first front =>
    obtain ⟨-, rfl⟩ : token = first ∧ tokens = front ++ [last] := by simpa using split
    refine ⟨⟨front, last, rfl, isEnd, fun token mem => inner token (by simp [mem])⟩,
      lawful.ordered.of_cons, fun token mem => lawful.regular token (by simp [mem])⟩

/-- The `eof` closes the list. -/
theorem eq_nil_of_eof (lawful : Lawful (token :: tokens)) (isEnd : token.kind = .eof) :
    tokens = [] := by
  obtain ⟨front, last, split, -, inner⟩ := lawful.ended
  cases front with
  | nil => simpa using (List.cons.inj split).2
  | cons first front =>
    obtain ⟨rfl, -⟩ := List.cons.inj split
    exact absurd isEnd (inner token (by simp))

/-- What is left of a lawful list is lawful, as long as something is left. -/
theorem of_append (lawful : Lawful (front ++ tokens)) (some : tokens ≠ []) : Lawful tokens := by
  induction front with
  | nil => exact lawful
  | cons token front ih =>
    refine ih (lawful.tail fun isEnd => some ?_)
    exact (List.append_eq_nil_iff.mp (lawful.eq_nil_of_eof isEnd)).2

/-- Tokens in a lawful list come one after the other. -/
theorem le_of_append {first last : Token} (lawful : Lawful (front ++ tokens))
    (begins : front.head? = some first) (ends : front.getLast? = some last) :
    first.span.start ≤ last.span.stop := by
  obtain ⟨rest, rfl⟩ : ∃ rest, front = first :: rest := List.head?_eq_some_iff.mp begins
  have firstOrdered := (lawful.regular first (by simp)).ordered
  have mem := List.mem_of_getLast? ends
  have lastOrdered := (lawful.regular last (List.mem_append_left _ mem)).ordered
  rcases List.mem_cons.mp mem with rfl | behind
  · exact firstOrdered
  · have apart : first.span.stop ≤ last.span.start :=
      List.rel_of_pairwise_cons lawful.ordered (by simp [behind])
    omega

end Lawful

end GoTrivia
