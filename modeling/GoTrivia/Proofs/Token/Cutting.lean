import GoTrivia.Proofs.Token.Lawful

/-!
# The first token of a text

What cutting says about one token: its kind tells its text for operators, punctuation and
keywords, and nothing but a semicolon reads like one.
-/

set_option autoImplicit false

namespace GoTrivia

namespace Cut

variable {first : Char} {rest : List Char}

/-- Kinds of tokens that come in many spellings. -/
def IsOpen (kind : TokenKind) : Prop :=
  kind.isLiteral = true ∨ kind = .unknown ∨ kind = .name

theorem IsOpen.spelling? {kind : TokenKind} (isOpen : IsOpen kind) : kind.spelling? = none := by
  rcases isOpen with literal | rfl | rfl
  · cases kind <;> first | rfl | simp [TokenKind.isLiteral] at literal
  · rfl
  · rfl

theorem isOpen_quotedLiteral {quote : Char} {kind : TokenKind} (isOpen : IsOpen kind) :
    IsOpen (quotedLiteral quote kind rest).1 := by
  simp only [quotedLiteral]
  split
  · exact isOpen
  · exact .inr (.inl rfl)

theorem isOpen_rawString : IsOpen (rawString rest).1 := by
  simp only [rawString]
  split
  · exact .inl rfl
  · exact .inr (.inl rfl)

/-- Kinds of numbers. -/
def IsNumeral (kind : TokenKind) : Prop := kind = .int ∨ kind = .float ∨ kind = .imaginary

theorem IsNumeral.isLiteral {kind : TokenKind} (numeral : IsNumeral kind) :
    kind.isLiteral = true := by
  rcases numeral with rfl | rfl | rfl <;> rfl

theorem isNumeral_imaginary {kind : TokenKind} {n : Nat} (numeral : IsNumeral kind) :
    IsNumeral (imaginary kind n rest).1 := by
  unfold imaginary
  split
  · exact .inr (.inr rfl)
  · exact numeral

theorem isNumeral_decimalNumber : IsNumeral (decimalNumber rest).1 := by
  simp only [decimalNumber]
  split
  · exact isNumeral_imaginary (.inl rfl)
  · exact isNumeral_imaginary (.inr (.inl rfl))
  · split
    · exact isNumeral_imaginary (.inl rfl)
    · exact isNumeral_imaginary (.inr (.inl rfl))

theorem isNumeral_number : IsNumeral (number first rest).1 := by
  unfold number
  split
  · split
    · exact isNumeral_imaginary (.inl rfl)
    · split
      · exact isNumeral_imaginary (.inl rfl)
      · exact isNumeral_decimalNumber
  · exact isNumeral_decimalNumber

/-- A word is a name or a keyword. -/
theorem word_cases (first : Char) (rest : List Char) :
    (word first rest).1 = .name ∨
      (String.ofList (first :: rest.take (word first rest).2), (word first rest).1) ∈
        TokenKind.keywords := by
  simp only [word]
  cases found : TokenKind.ofKeyword? (String.ofList (first :: rest.takeWhile continuesName)) with
  | none => exact .inl rfl
  | some kind =>
    obtain ⟨front, back, keywords, -⟩ := List.lookup_eq_some_iff.mp found
    refine .inr ?_
    rw [← List.prefix_iff_eq_take.mp (List.takeWhile_prefix continuesName), keywords]
    simp

/-- The first token of a text is a keyword, an operator or of a kind with many spellings. -/
theorem token_cases (first : Char) (rest : List Char) :
    IsOpen (token first rest).1 ∨
      (String.ofList (first :: rest.take (token first rest).2), (token first rest).1) ∈
        TokenKind.keywords ∨
      (first :: rest.take (token first rest).2, (token first rest).1) ∈ operators := by
  unfold token
  split
  · exact .inl (isOpen_quotedLiteral (.inl rfl))
  split
  · exact .inl (isOpen_quotedLiteral (.inl rfl))
  split
  · exact .inl isOpen_rawString
  split
  · exact .inl (.inl isNumeral_number.isLiteral)
  split
  · exact (word_cases first rest).imp (fun isName => .inr (.inr isName)) .inl
  split
  · exact .inl (.inl (isNumeral_imaginary (.inr (.inl rfl))).isLiteral)
  split
  · next chars kind found =>
    have mem := List.mem_of_find?_eq_some found
    have filled : ∀ entry ∈ operators, entry.1 ≠ [] := by decide
    obtain ⟨c, cs, rfl⟩ := List.exists_cons_of_ne_nil (filled _ mem)
    have isBegin : c = first ∧ cs <+: rest := by simpa using List.find?_some found
    obtain ⟨rfl, begins⟩ := isBegin
    refine .inr (.inr ?_)
    have same := List.prefix_iff_eq_take.mp begins
    simpa [← same] using mem
  · exact .inl (.inr (.inl rfl))

theorem spelling?_of_mem_operators :
    ∀ entry ∈ operators, entry.2.spelling? = some (String.ofList entry.1) := by decide

theorem spelling?_of_mem_keywords :
    ∀ entry ∈ TokenKind.keywords, entry.2.spelling? = some entry.1 := by decide

/-- The text of the first token of a text is the spelling of its kind, if there is one. -/
theorem text_of_spelling? {text : String} (spelled : (token first rest).1.spelling? = some text) :
    String.ofList (first :: rest.take (token first rest).2) = text := by
  rcases token_cases first rest with isOpen | keyword | operator
  · simp [isOpen.spelling?] at spelled
  · have same := spelling?_of_mem_keywords _ keyword
    exact Option.some.inj (same.symm.trans spelled)
  · have same := spelling?_of_mem_operators _ operator
    exact Option.some.inj (same.symm.trans spelled)

theorem token_semicolon (rest : List Char) : token ';' rest = (.semicolon, 0) := by
  have other : beginsName ';' = false := by decide +kernel
  simp [token, other, operator?, operators]

theorem ne_eof_token : (token first rest).1 ≠ .eof := by
  intro isEnd
  rcases token_cases first rest with isOpen | keyword | operator
  · rw [isEnd] at isOpen
    rcases isOpen with same | same | same <;> cases same
  · have others : ∀ entry ∈ TokenKind.keywords, entry.2 ≠ .eof := by decide
    exact others _ keyword isEnd
  · have others : ∀ entry ∈ operators, entry.2 ≠ .eof := by decide
    exact others _ operator isEnd

/-- What the next piece can be, and what of the text tells. -/
inductive Measured (first : Char) (rest : List Char) : PieceKind → Nat → Prop
  | lineFeed (isFeed : first = '\n') : Measured first rest .lineFeed 0
  | blank (isBlank : first = ' ' ∨ first = '\t' ∨ first = '\r') : Measured first rest .blank 0
  | lineComment {inside : List Char} (isSlash : first = '/') (begins : rest = '/' :: inside) :
      Measured first rest .lineComment ((inside.takeWhile (· ≠ '\n')).length + 1)
  | blockComment {inside : List Char} (isSlash : first = '/') (begins : rest = '*' :: inside) :
      Measured first rest (.blockComment (Cut.blockComment inside).2)
        ((Cut.blockComment inside).1 + 1)
  | token : Measured first rest (.token (Cut.token first rest).1) (Cut.token first rest).2

theorem measured_of_measure {kind : PieceKind} {n : Nat}
    (measured : measure first rest = (kind, n)) : Measured first rest kind n := by
  unfold measure at measured
  split at measured
  · next isFeed =>
    cases measured
    exact .lineFeed isFeed
  split at measured
  · next isBlank =>
    cases measured
    exact .blank isBlank
  split at measured <;> cases measured
  · exact .lineComment rfl rfl
  · exact .blockComment rfl rfl
  · exact .token

theorem token_of_measure {kind : TokenKind} {n : Nat}
    (measured : measure first rest = (.token kind, n)) : token first rest = (kind, n) := by
  cases measured_of_measure measured with
  | token => rfl

end Cut

/-- Every piece was cut off the front of some text. -/
theorem measure_of_mem_pieces {s : List Char} {piece : Piece} (mem : piece ∈ pieces s) :
    ∃ rest n, Cut.measure piece.first rest = (piece.kind, n) ∧ piece.following = rest.take n := by
  fun_induction pieces s with
  | case1 => simp at mem
  | case2 first rest kind n measured ih =>
    rcases List.mem_cons.mp mem with rfl | mem
    · exact ⟨rest, n, measured, rfl⟩
    · exact ih mem

end GoTrivia
