import GoTrivia.Proofs.Token.Recutting

/-!
# Words

A word is a text that is cut into a single piece which is a name, a keyword or a literal.  Put next
to each other, two words may be cut as one, so something has to keep them apart.  No word is empty,
and none ends with an opening bracket.
-/

set_option autoImplicit false

namespace GoTrivia

variable {first c : Char} {s : List Char} {text : String}

/-- Names, literals and keywords. -/
def TokenKind.isWord (kind : TokenKind) : Bool :=
  kind == .name || kind.isLiteral || keywords.any (·.2 == kind)

/-- Whether a piece is a name, a literal or a keyword. -/
def Piece.isWord (piece : Piece) : Bool :=
  match piece.kind with
  | .token kind => kind.isWord
  | _ => false

/-- Whether a text is one name, one literal or one keyword. -/
def isWord (text : String) : Bool :=
  match pieces text.toList with
  | [piece] => piece.isWord
  | _ => false

/-! ## Words of a text -/

/-- A piece that stands for itself is a word if it is one as a text. -/
theorem Piece.Whole.isWord_text {piece : Piece} (whole : piece.Whole) :
    GoTrivia.isWord piece.text = piece.isWord := by
  have alone : pieces piece.text.toList = [piece] := by
    rw [Piece.text, String.toList_ofList, Piece.chars, pieces]
    simp [whole.measured, pieces]
  rw [GoTrivia.isWord, alone]

theorem pieces_eq_nil : pieces s = [] ↔ s = [] := by
  cases s with
  | nil => simp [pieces]
  | cons first rest => simp [pieces]

/-- A word is a token that takes the whole text. -/
theorem exists_of_isWord (word : isWord text = true) :
    ∃ first rest, text.toList = first :: rest ∧ (Cut.token first rest).1.isWord = true ∧
      rest.length ≤ (Cut.token first rest).2 := by
  unfold isWord at word
  split at word
  · next piece alone =>
    cases split : text.toList with
    | nil => simp [split, pieces] at alone
    | cons first rest =>
      refine ⟨first, rest, rfl, ?_⟩
      rw [split, pieces] at alone
      obtain ⟨rfl, nothing⟩ := List.cons.inj alone
      have all := List.drop_eq_nil_iff.mp (pieces_eq_nil.mp nothing)
      unfold Piece.isWord at word
      dsimp only at word all
      split at word
      · next kind isToken =>
        have measured : Cut.measure first rest = (.token kind, (Cut.measure first rest).2) :=
          Prod.ext isToken rfl
        rw [Cut.token_of_measure measured]
        exact ⟨word, all⟩
      · cases word
  · cases word

/-- Brackets, and what stands between the parts of a construct. -/
def punctuation : List String :=
  ["(", ")", "[", "]", "\x7b", "\x7d", ",", ";", ":", ".", "...", "*", "="]

theorem isWord_punctuation : ∀ text ∈ punctuation, isWord text = false := by decide +kernel

/-! ## The last character of a word -/

/-- The characters that open a bracket. -/
def openings : List Char := ['(', '[', '\x7b']

theorem mem_openings : c ∈ openings ↔ c = '(' ∨ c = '[' ∨ c = '\x7b' := by simp [openings]

namespace Cut

/-- A closed literal ends with a quote. -/
theorem closed_le {quote : Char} (other : c ≠ quote) {n : Nat} {inside back : List Char}
    (split : s ++ [c] = inside ++ quote :: back) (length : n = inside.length + 1) :
    n ≤ s.length := by
  rcases List.eq_nil_or_concat back with rfl | ⟨back, last, rfl⟩
  · obtain ⟨-, same⟩ := List.append_inj' split rfl
    exact (other (List.cons.inj same).1).elim
  · have := congrArg List.length split
    simp at this
    omega

/-- No word goes on with an opening bracket. -/
theorem token_append_opening (opens : c ∈ openings)
    (word : (token first (s ++ [c])).1.isWord = true) :
    (token first (s ++ [c])).2 ≤ s.length := by
  have name : continuesName c = false := by
    rcases mem_openings.mp opens with rfl | rfl | rfl <;> decide +kernel
  have number : numberGoesOn s c = false := by
    have others : c ≠ '.' ∧ c ≠ '+' ∧ c ≠ '-' := by
      rcases mem_openings.mp opens with rfl | rfl | rfl <;> decide
    simp [numberGoesOn, name, others]
  have quotes : c ≠ '\x22' ∧ c ≠ '\x27' ∧ c ≠ '\x60' := by
    rcases mem_openings.mp opens with rfl | rfl | rfl <;> decide
  have known : (token first (s ++ [c])).1 ≠ .unknown := fun unknown => by
    rw [unknown] at word
    cases word
  by_cases double : first = '\x22'
  · subst double
    obtain ⟨inside, back, split, rule⟩ :=
      exists_of_quotedLiteral (by decide : '\x22' ≠ '\\') known
    exact closed_le quotes.1 split (by rw [split]; exact congrArg Prod.snd (rule back))
  by_cases single : first = '\x27'
  · subst single
    obtain ⟨inside, back, split, rule⟩ :=
      exists_of_quotedLiteral (by decide : '\x27' ≠ '\\') known
    exact closed_le quotes.2.1 split (by rw [split]; exact congrArg Prod.snd (rule back))
  by_cases back : first = '\x60'
  · subst back
    obtain ⟨inside, back, split, rule⟩ := exists_of_rawString known
    exact closed_le quotes.2.2 split (by rw [split]; exact congrArg Prod.snd (rule back))
  rw [token, if_neg double, if_neg single, if_neg back] at word ⊢
  split
  · rw [number_append number]
    exact number_le first s
  next digit =>
  rw [if_neg digit] at word
  split
  · rw [word_append name]
    exact (List.takeWhile_sublist continuesName).length_le
  next letter =>
  rw [if_neg letter] at word
  split
  · rw [fraction_append number, imaginary_append name (fraction_le s)]
    exact imaginary_le (fraction_le s)
  next point =>
  rw [if_neg point] at word
  have others : ∀ entry ∈ operators, entry.2.isWord = false := by decide
  split at word
  · next chars kind found =>
    cases word.symm.trans (others _ (List.mem_of_find?_eq_some found))
  · cases word

end Cut

/-- No word ends with an opening bracket. -/
theorem getLast?_of_isWord (word : isWord text = true) :
    ∀ c ∈ text.toList.getLast?, c ∉ openings := by
  obtain ⟨first, rest, split, isWord, all⟩ := exists_of_isWord word
  intro c isLast opens
  rw [split] at isLast
  rcases List.eq_nil_or_concat rest with rfl | ⟨s, last, rfl⟩
  · obtain rfl : first = c := by simpa using isLast
    have other : (Cut.token first []).1.isWord = false := by
      rcases mem_openings.mp opens with rfl | rfl | rfl <;> decide +kernel
    cases isWord.symm.trans other
  · obtain rfl : last = c := by simpa [List.getLast?_cons] using isLast
    rw [List.concat_eq_append] at isWord all
    have less := Cut.token_append_opening opens isWord
    rw [List.length_append, List.length_singleton] at all
    omega

end GoTrivia
