/-!
# Stretches of source text

Offsets count the bytes of a text in UTF-8.  A span is the half-open stretch
between two offsets, and a lexeme is a piece of text together with the span it
was found at.  Tokens and comments of a source file are both lexemes, and a tree
whose positions were made up holds lexemes with empty spans.
-/

set_option autoImplicit false

namespace GoTrivia

/-- The bytes from `start` up to and excluding `stop`. -/
structure Span where
  start : Nat
  stop : Nat
deriving DecidableEq, Repr, Inhabited

namespace Span

/-- The empty span at an offset. -/
def point (offset : Nat) : Span := ⟨offset, offset⟩

/-- Whether the span covers nothing. -/
def isEmpty (span : Span) : Bool := span.start == span.stop

/-- The span of a thing that began at `start` and was finished at `stop`: things
that took nothing end where they began. -/
def closing (start stop : Nat) : Span := ⟨start, max stop start⟩

/-- The two offsets with two dots between them. -/
def text (span : Span) : String := s!"{span.start}..{span.stop}"

@[simp]
theorem start_point (offset : Nat) : (point offset).start = offset := rfl

@[simp]
theorem stop_point (offset : Nat) : (point offset).stop = offset := rfl

theorem start_le_stop_closing (start stop : Nat) :
    (closing start stop).start ≤ (closing start stop).stop :=
  Nat.le_max_right stop start

end Span

/-- A piece of text and where it stands. -/
structure Lexeme where
  text : String
  span : Span
deriving DecidableEq, Repr, Inhabited

/-- The number of bytes a run of characters takes. -/
def byteLength (s : List Char) : Nat :=
  s.foldr (fun c size => c.utf8Size + size) 0

@[simp]
theorem byteLength_nil : byteLength [] = 0 := rfl

@[simp]
theorem byteLength_cons (c : Char) (s : List Char) :
    byteLength (c :: s) = c.utf8Size + byteLength s := rfl

@[simp]
theorem byteLength_append (s t : List Char) :
    byteLength (s ++ t) = byteLength s + byteLength t := by
  induction s with
  | nil => simp
  | cons c s ih => simp [ih, Nat.add_assoc]

/-- The longest beginning of a text that fits a number of bytes. -/
def takeBytes : Nat → List Char → List Char
  | _, [] => []
  | n, c :: cs => if c.utf8Size ≤ n then c :: takeBytes (n - c.utf8Size) cs else []

/-- What fits a number of bytes takes no more. -/
theorem byteLength_takeBytes_le : (n : Nat) → (s : List Char) → byteLength (takeBytes n s) ≤ n
  | _, [] => by simp [takeBytes]
  | n, c :: cs => by
    have ih := byteLength_takeBytes_le (n - c.utf8Size) cs
    simp only [takeBytes]
    split
    · simp only [byteLength_cons]
      omega
    · simp

end GoTrivia
