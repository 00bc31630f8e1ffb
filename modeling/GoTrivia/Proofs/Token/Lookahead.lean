import GoTrivia.Proofs.Token.Fusing

/-!
# Numbers in front of signs

Whether a number ends in front of a point or a sign depends on what stands behind that only if it is
a point: a number takes one point, but not the first of several.
-/

set_option autoImplicit false

namespace GoTrivia

namespace Cut

variable {next : Char} (word : continuesName next = false)

/-- Lengths that are the same, or both beyond the end of a text. -/
def Alike (s : List Char) (n m : Nat) : Prop := n = m ∨ (s.length < n ∧ s.length < m)

/-- Cuts that are the same, or both beyond the end of a text. -/
def CutsAlike (s : List Char) (one other : TokenKind × Nat) : Prop :=
  one = other ∨ (s.length < one.2 ∧ s.length < other.2)

theorem Alike.add {s : List Char} {k n m : Nat} (inside : k ≤ s.length)
    (alike : Alike (s.drop k) n m) : Alike s (k + n) (k + m) := by
  rcases alike with rfl | ⟨one, other⟩
  · exact .inl rfl
  · rw [List.length_drop] at one other
    exact .inr ⟨by omega, by omega⟩

theorem not_isNumeral_of_mem_operators : ∀ entry ∈ operators, ¬IsNumeral entry.2 := by
  unfold IsNumeral
  decide

include word

theorem exponent_alike (s d e : List Char) :
    Alike s (exponent (s ++ next :: d)) (exponent (s ++ next :: e)) := by
  cases s with
  | nil =>
    have small : next ≠ 'e' := ne_of_continuesName (by decide) word
    have large : next ≠ 'E' := ne_of_continuesName (by decide) word
    exact .inl (by simp [exponent_cons, small, large])
  | cons c s =>
    rw [List.cons_append, List.cons_append, exponent_cons, exponent_cons, decimals_append word,
      decimals_append word]
    by_cases letter : c = 'e' ∨ c = 'E'
    · cases s with
      | nil =>
        by_cases signed : next = '-' ∨ next = '+'
        · exact .inr (by simp [letter, signed]; omega)
        · exact .inl (by simp [letter, signed])
      | cons sign digits => exact .inl (by simp [decimals_append word])
    · exact .inl (by simp [letter])

theorem fraction_alike (s d e : List Char) :
    Alike s (fraction (s ++ next :: d)) (fraction (s ++ next :: e)) := by
  simp only [fraction]
  rw [decimals_append word, decimals_append word, List.drop_append_of_le_length (decimals_le s),
    List.drop_append_of_le_length (decimals_le s)]
  exact (exponent_alike word (s.drop (decimals s)) d e).add (decimals_le s)

theorem imaginary_alike {s : List Char} {n m : Nat} (alike : Alike s n m) (kind : TokenKind)
    (d e : List Char) :
    CutsAlike s (imaginary kind n (s ++ next :: d)) (imaginary kind m (s ++ next :: e)) := by
  by_cases inside : n ≤ s.length
  · obtain rfl : n = m := alike.resolve_right fun beyond => by omega
    exact .inl (by rw [imaginary_append word inside, imaginary_append word inside])
  · have beyond : s.length < m := by
      rcases alike with rfl | ⟨-, beyond⟩
      · omega
      · exact beyond
    exact .inr ⟨Nat.lt_of_lt_of_le (Nat.lt_of_not_le inside) (le_imaginary kind n _),
      Nat.lt_of_lt_of_le beyond (le_imaginary kind m _)⟩

theorem decimalNumber_alike {d e : List Char} (points : d.head? = some '.' ↔ e.head? = some '.')
    (s : List Char) :
    CutsAlike s (decimalNumber (s ++ next :: d)) (decimalNumber (s ++ next :: e)) := by
  have inside := decimals_le s
  have sameHead (s : List Char) : (s ++ next :: d).head? = (s ++ next :: e).head? := by
    cases s <;> rfl
  rw [decimalNumber_eq, decimalNumber_eq, decimals_append word, decimals_append word,
    List.drop_append_of_le_length inside, List.drop_append_of_le_length inside, sameHead]
  split
  · rcases Nat.lt_or_eq_of_le inside with short | whole
    · rw [List.drop_append_of_le_length short, List.drop_append_of_le_length short, sameHead]
      split
      · exact imaginary_alike word (.inl rfl) ..
      · exact imaginary_alike word ((fraction_alike word _ d e).add short) ..
    · have behind (d : List Char) : (s ++ next :: d).drop (decimals s + 1) = d := by
        rw [whole, List.drop_append]
        simp
      simp only [behind, points]
      split
      · exact imaginary_alike word (.inl rfl) ..
      · exact imaginary_alike word (.inr ⟨by omega, by omega⟩) ..
  · rcases exponent_alike word (s.drop (decimals s)) d e with same | ⟨one, other⟩
    · rw [same]
      split <;> exact imaginary_alike word (.inl rfl) ..
    · rw [List.length_drop] at one other
      rw [if_neg (by omega), if_neg (by omega)]
      exact imaginary_alike word (.inr ⟨by omega, by omega⟩) ..

theorem number_alike {d e : List Char} (points : d.head? = some '.' ↔ e.head? = some '.')
    (first : Char) (s : List Char) :
    CutsAlike s (number first (s ++ next :: d)) (number first (s ++ next :: e)) := by
  have decimal := decimalNumber_alike word points s
  rw [number_eq, number_eq]
  cases s with
  | nil =>
    have letters : (['b', 'B', 'o', 'O', 'x', 'X'].all continuesName) = true := by decide
    have bases : ∀ base ∈ ['b', 'B', 'o', 'O', 'x', 'X'], next ≠ base := fun base mem =>
      ne_of_continuesName (List.all_eq_true.mp letters base mem) word
    simp only [List.mem_cons, List.not_mem_nil, or_false, forall_eq_or_imp, forall_eq] at bases
    simpa [bases] using decimal
  | cons base digits =>
    simp only [List.cons_append, List.drop_one, List.tail_cons, List.head?_cons,
      decimals_append word, takeWhile_append_cons (isHexadecimal_eq_false word)]
    split
    · exact imaginary_alike word (.inl rfl) ..
    split
    · exact imaginary_alike word (.inl rfl) ..
    · exact decimal

theorem token_alike {d e : List Char} (points : d.head? = some '.' ↔ e.head? = some '.')
    {first : Char} {s : List Char} {kind : TokenKind} (whole : token first s = (kind, s.length))
    (numeral : IsNumeral kind) :
    CutsAlike s (token first (s ++ next :: d)) (token first (s ++ next :: e)) := by
  cases rule_of_first first with
  | closed quote sharp rule =>
    have known : (token first s).1 ≠ .unknown := by
      rw [whole]
      rcases numeral with rfl | rfl | rfl <;> simp
    obtain ⟨kind, inside, back, rfl, stable⟩ := rule s known
    exact .inl (by simp [stable])
  | number rule goesOn =>
    rw [rule, rule]
    exact number_alike word points first s
  | word rule goesOn => exact .inl (by rw [rule, rule, word_append word, word_append word])
  | symbol rule goesOn =>
    by_cases pointed : first = '.' ∧ s.head?.any Char.isDigit = true
    · have some (d : List Char) : (s ++ next :: d).head?.any Char.isDigit = true := by
        cases s with
        | nil => cases pointed.2
        | cons c s => exact pointed.2
      rw [rule, rule, if_pos ⟨pointed.1, some d⟩, if_pos ⟨pointed.1, some e⟩]
      exact imaginary_alike word (fraction_alike word s d e) ..
    · rw [rule, if_neg pointed] at whole
      cases found : operator? (first :: s) with
      | none =>
        rw [found] at whole
        obtain rfl : TokenKind.unknown = kind := congrArg Prod.fst whole
        rcases numeral with isKind | isKind | isKind <;> cases isKind
      | some entry =>
        rw [found] at whole
        obtain rfl : entry.2 = kind := congrArg Prod.fst whole
        exact (not_isNumeral_of_mem_operators _ (List.mem_of_find?_eq_some found) numeral).elim

omit word

/-- The characters that blanks and comments begin with. -/
def gapStarts : List Char := ['\n', ' ', '\t', '\r', '/']

/-- A digit or a point, or a letter. -/
def BeginsNumber (c : Char) : Prop := c.isDigit = true ∨ c = '.' ∨ beginsName c = true
deriving Decidable

/-- What begins with another character is a token. -/
theorem measure_eq_token {first : Char} (other : first ∉ gapStarts) (s : List Char) :
    measure first s = (.token (token first s).1, (token first s).2) := by
  simp only [gapStarts, List.mem_cons, List.not_mem_nil, or_false, not_or] at other
  obtain ⟨feed, space, tab, back, slash⟩ := other
  simp [measure_eq, feed, space, tab, back, slash]

/-- A sign is read with the one behind it. -/
theorem length_token_signs {first next : Char}
    (signs : (first, next) ∈ [('+', '+'), ('-', '-'), ('&', '&'), ('&', '^')]) (s : List Char) :
    0 < (token first (next :: s)).2 := by
  have plus : beginsName '+' = false := by decide +kernel
  have minus : beginsName '-' = false := by decide +kernel
  have amp : beginsName '&' = false := by decide +kernel
  simp only [List.mem_cons, Prod.mk.injEq, List.not_mem_nil, or_false] at signs
  rcases signs with ⟨rfl, rfl⟩ | ⟨rfl, rfl⟩ | ⟨rfl, rfl⟩ | ⟨rfl, rfl⟩
  · have found : operator? ('+' :: '+' :: s) = some (['+', '+'], .plusPlus) := rfl
    simp [token, plus, found]
  · have found : operator? ('-' :: '-' :: s) = some (['-', '-'], .minusMinus) := rfl
    simp [token, minus, found]
  · have found : operator? ('&' :: '&' :: s) = some (['&', '&'], .ampAmp) := rfl
    simp [token, amp, found]
  · by_cases eq : s.head? = some '='
    · obtain ⟨s, rfl⟩ := List.head?_eq_some_iff.mp eq
      have found : operator? ('&' :: '^' :: '=' :: s) = some (['&', '^', '='], .ampCaretEq) := rfl
      simp [token, amp, found]
    · have found : operator? ('&' :: '^' :: s) = some (['&', '^'], .ampCaret) := by
        cases s with
        | nil => rfl
        | cons c s =>
          have other : '=' ≠ c := fun same => eq (same ▸ rfl)
          simp [operator?, operators, other]
      simp [token, amp, found]

end Cut

/-- A number begins with a digit, a point or a letter. -/
theorem exists_of_isNumeral {text : String} (isNumeral : isNumeral text = true) :
    ∃ kind first following, tokenKind? text = some kind ∧ Cut.IsNumeral kind ∧
      text.toList = first :: following ∧ Piece.Whole ⟨.token kind, first, following⟩ ∧
      Cut.BeginsNumber first := by
  have isKind : ∃ kind, tokenKind? text = some kind ∧ Cut.IsNumeral kind := by
    simp only [GoTrivia.isNumeral, List.contains_iff_mem, List.mem_cons, List.not_mem_nil,
      or_false] at isNumeral
    rcases isNumeral with isKind | isKind | isKind
    · exact ⟨_, isKind, .inl rfl⟩
    · exact ⟨_, isKind, .inr (.inl rfl)⟩
    · exact ⟨_, isKind, .inr (.inr rfl)⟩
  obtain ⟨kind, isToken, numeral⟩ := isKind
  obtain ⟨first, following, chars, whole⟩ := exists_whole isToken
  refine ⟨kind, first, following, isToken, numeral, chars, whole, ?_⟩
  have ruled := Cut.ruled_of_token (Cut.token_of_measure whole.measured) (by simpa using whole.known)
  cases ruled with
  | literal _ isKind _ =>
    rcases isKind with rfl | rfl <;> rcases numeral with isKind | isKind | isKind <;> cases isKind
  | number begins _ _ => exact begins.imp id .inl
  | word begins _ _ _ => exact .inr (.inr begins)
  | operator mem _ => exact (Cut.not_isNumeral_of_mem_operators _ mem numeral).elim

end GoTrivia
