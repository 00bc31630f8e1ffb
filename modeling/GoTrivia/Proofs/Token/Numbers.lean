import Mathlib.Data.List.TakeWhile
import GoTrivia.Text.Blank
import GoTrivia.Token.Piece

/-!
# How far numbers reach

The rules for numbers have the most look-ahead of all: digits, a point unless a second one
follows, an exponent with its sign, an `i` at the end.  Each rule is restated here by what it asks
of the next characters.

A number is cut alike wherever it stands.  Alone it is read as it was in front of something else
(`number_take`), and in front of a character that it cannot go on with it is read as it is alone
(`number_append`).
-/

set_option autoImplicit false

namespace GoTrivia

namespace Cut

variable {s rest : List Char} {first next c : Char} {n m : Nat}

/-! ## Characters of words -/

theorem continuesName_of_isHexadecimal (digit : isHexadecimal c = true) :
    continuesName c = true := by
  simp only [isHexadecimal, isDecimal, Bool.or_eq_true, Bool.and_eq_true, beq_iff_eq,
    decide_eq_true_eq] at digit
  simp only [continuesName, Text.isAlphabetic, Text.isNumeric, Bool.or_eq_true, beq_iff_eq]
  have letters : 'a' ≤ c ∧ c ≤ 'f' ∨ 'A' ≤ c ∧ c ≤ 'F' → c.isAlpha = true := by
    have codes : 'a'.val.toNat = 97 ∧ 'f'.val.toNat = 102 ∧ 'z'.val.toNat = 122 ∧
        'A'.val.toNat = 65 ∧ 'F'.val.toNat = 70 ∧ 'Z'.val.toNat = 90 := by decide
    intro range
    show (decide ('A'.val ≤ c.val ∧ c.val ≤ 'Z'.val) ||
      decide ('a'.val ≤ c.val) && decide (c.val ≤ 'z'.val)) = true
    simp only [Bool.or_eq_true, Bool.and_eq_true, decide_eq_true_eq, Char.le_def,
      UInt32.le_iff_toNat_le] at range ⊢
    omega
  rcases digit with ((score | digit) | small) | large
  · exact .inl (.inl score)
  · exact .inr (.inl digit)
  · exact .inl (.inr (.inl (letters (.inl small))))
  · exact .inl (.inr (.inl (letters (.inr large))))

theorem isDecimal_eq_false (word : continuesName next = false) : isDecimal next = false := by
  cases digit : isDecimal next with
  | false => rfl
  | true =>
    have hexadecimal : isHexadecimal next = true := by simp [isHexadecimal, digit]
    simp [continuesName_of_isHexadecimal hexadecimal] at word

theorem isHexadecimal_eq_false (word : continuesName next = false) :
    isHexadecimal next = false := by
  cases digit : isHexadecimal next with
  | false => rfl
  | true => simp [continuesName_of_isHexadecimal digit] at word

/-- A character that does not continue a word is no letter. -/
theorem ne_of_continuesName {letter : Char} (isLetter : continuesName letter = true)
    (word : continuesName next = false) : next ≠ letter := by
  rintro rfl
  simp [isLetter] at word

/-- The blank characters. -/
def blanks : List Char :=
  (Text.blankRanges.flatMap fun range => List.range' range.1 (range.2 + 1 - range.1)).map Char.ofNat

theorem mem_blanks (blank : Text.isBlank c = true) : c ∈ blanks := by
  obtain ⟨range, mem, inside⟩ := List.any_eq_true.mp blank
  simp only [Bool.and_eq_true, decide_eq_true_eq] at inside
  refine List.mem_map.mpr ⟨c.toNat, List.mem_flatMap.mpr ⟨range, mem, ?_⟩, Char.ofNat_toNat c⟩
  rw [List.mem_range'_1]
  omega

theorem isDigit_blank (blank : Text.isBlank c = true) : c.isDigit = false := by
  have all : (blanks.all fun c => !c.isDigit) = true := by decide
  simpa using List.all_eq_true.mp all c (mem_blanks blank)

theorem ne_of_isBlank {solid : Char} (blank : Text.isBlank c = true)
    (isSolid : Text.isBlank solid = false) : c ≠ solid := by
  rintro rfl
  simp [isSolid] at blank

/-- A character is in one of two tables whose ranges lie apart at most. -/
theorem contains_eq_false_of_apart {ranges others : Text.CharRanges}
    (apart : (ranges.all fun range => others.all fun other =>
      range.2 < other.1 || other.2 < range.1) = true)
    (inside : ranges.contains c = true) : others.contains c = false := by
  obtain ⟨range, mem, here⟩ := List.any_eq_true.mp inside
  refine List.any_eq_false.mpr fun other mem' => ?_
  have := List.all_eq_true.mp (List.all_eq_true.mp apart range mem) other mem'
  simp only [Bool.and_eq_true, Bool.or_eq_true, decide_eq_true_eq] at here this ⊢
  omega

theorem continuesName_blank (blank : Text.isBlank c = true) : continuesName c = false := by
  have letters : (blanks.all fun c => !c.isAlpha) = true := by decide
  have letter : c.isAlpha = false := by
    simpa using List.all_eq_true.mp letters c (mem_blanks blank)
  have alphabetic : Text.alphabeticRanges.contains c = false :=
    contains_eq_false_of_apart (by decide +kernel) blank
  have numeric : Text.numericRanges.contains c = false :=
    contains_eq_false_of_apart (by decide +kernel) blank
  have underscore : c ≠ '_' := ne_of_isBlank blank (by decide)
  simp [continuesName, Text.isAlphabetic, Text.isNumeric, alphabetic, numeric,
    letter, isDigit_blank blank, underscore]

/-! ## What is asked of the next characters -/

theorem exponent_cons (c : Char) (s : List Char) :
    exponent (c :: s) =
      if c = 'e' ∨ c = 'E' then
        if s.head? = some '-' ∨ s.head? = some '+' then 2 + decimals (s.drop 1)
        else 1 + decimals s
      else 0 := by
  cases s with
  | nil => simp [exponent, decimals]
  | cons sign digits => simp [exponent]

theorem imaginary_eq (kind : TokenKind) (n : Nat) (s : List Char) :
    imaginary kind n s =
      if (s.drop n).head? = some 'i' then (.imaginary, n + 1) else (kind, n) := by
  unfold imaginary
  split
  · next found => simp [found]
  · next other =>
    rw [if_neg]
    intro begins
    obtain ⟨back, found⟩ := List.head?_eq_some_iff.mp begins
    exact other back found

/-- A point belongs to a number unless a second one follows. -/
theorem decimalNumber_eq (s : List Char) :
    decimalNumber s =
      if (s.drop (decimals s)).head? = some '.' then
        if (s.drop (decimals s + 1)).head? = some '.' then imaginary .int (decimals s) s
        else imaginary .float (decimals s + 1 + fraction (s.drop (decimals s + 1))) s
      else if exponent (s.drop (decimals s)) = 0 then imaginary .int (decimals s) s
      else imaginary .float (decimals s + exponent (s.drop (decimals s))) s := by
  simp only [decimalNumber]
  rw [← List.drop_drop]
  split
  · next found => simp [found]
  · next tail other found =>
    rw [found, if_pos (by simp), if_neg]
    · rfl
    · intro begins
      obtain ⟨back, more⟩ := List.head?_eq_some_iff.mp begins
      exact other back (by simpa using more)
  · next other =>
    have none : (s.drop (decimals s)).head? ≠ some '.' := by
      intro begins
      obtain ⟨back, found⟩ := List.head?_eq_some_iff.mp begins
      exact other back found
    rw [if_neg none]

/-- A letter behind a zero chooses the base. -/
theorem number_eq (first : Char) (s : List Char) :
    number first s =
      if first = '0' ∧ s.head?.any ['b', 'B', 'o', 'O'].contains = true then
        imaginary .int (1 + decimals (s.drop 1)) s
      else if first = '0' ∧ s.head?.any ['x', 'X'].contains = true then
        imaginary .int (1 + ((s.drop 1).takeWhile isHexadecimal).length) s
      else decimalNumber s := by
  cases s <;> simp [number]

/-! ## Numbers end inside the text -/

theorem decimals_le (s : List Char) : decimals s ≤ s.length :=
  (List.takeWhile_sublist isDecimal).length_le

theorem exponent_le (s : List Char) : exponent s ≤ s.length := by
  cases s with
  | nil => simp [exponent]
  | cons c s =>
    rw [exponent_cons, List.length_cons]
    have all := decimals_le s
    split
    · split
      · next signed =>
        obtain ⟨sign, digits, rfl⟩ : ∃ sign digits, s = sign :: digits :=
          List.exists_cons_of_ne_nil (by rintro rfl; simp at signed)
        have more := decimals_le digits
        simp only [List.drop_one, List.tail_cons, List.length_cons]
        omega
      · omega
    · omega

theorem fraction_le (s : List Char) : fraction s ≤ s.length := by
  have digits := decimals_le s
  have power := exponent_le (s.drop (decimals s))
  simp only [fraction, List.length_drop] at power ⊢
  omega

theorem imaginary_le {kind : TokenKind} (inside : n ≤ s.length) :
    (imaginary kind n s).2 ≤ s.length := by
  rw [imaginary_eq]
  split
  · next letter =>
    by_contra outside
    rw [List.drop_eq_nil_of_le (by simp only at outside; omega)] at letter
    simp at letter
  · exact inside

theorem lt_of_head?_drop (begins : (s.drop n).head? = some c) : n < s.length := by
  by_contra outside
  rw [List.drop_eq_nil_of_le (by omega)] at begins
  simp at begins

theorem decimalNumber_le (s : List Char) : (decimalNumber s).2 ≤ s.length := by
  have digits := decimals_le s
  rw [decimalNumber_eq]
  split
  · next point =>
    have inside := lt_of_head?_drop point
    have tail := fraction_le (s.drop (decimals s + 1))
    rw [List.length_drop] at tail
    split
    · exact imaginary_le digits
    · exact imaginary_le (by omega)
  · have power := exponent_le (s.drop (decimals s))
    rw [List.length_drop] at power
    split
    · exact imaginary_le digits
    · exact imaginary_le (by omega)

theorem number_le (first : Char) (s : List Char) : (number first s).2 ≤ s.length := by
  have filled : ∀ {bases : List Char}, s.head?.any bases.contains = true → 1 ≤ s.length := by
    intro bases some
    cases s <;> simp at some ⊢
  have digits := decimals_le (s.drop 1)
  have hexadecimal := (List.takeWhile_sublist (l := s.drop 1) isHexadecimal).length_le
  rw [List.length_drop] at digits hexadecimal
  rw [number_eq]
  split
  · next binary =>
    have := filled binary.2
    exact imaginary_le (by omega)
  split
  · next _ isHexadecimal =>
    have := filled isHexadecimal.2
    exact imaginary_le (by omega)
  · exact decimalNumber_le s

/-! ## Numbers in front of something else -/

/-- Whether the part of a number that was read may go on with a character. -/
def numberGoesOn (s : List Char) (next : Char) : Bool :=
  continuesName next || next == '.' ||
    ((next == '+' || next == '-') && s.getLast?.any fun c => c == 'e' || c == 'E')

theorem numberGoesOn_drop (stops : numberGoesOn s next = false) (n : Nat) :
    numberGoesOn (s.drop n) next = false := by
  unfold numberGoesOn at stops ⊢
  rw [List.getLast?_drop]
  split
  · simp only [Bool.or_eq_false_iff] at stops ⊢
    simp [stops]
  · exact stops

theorem word_of_numberGoesOn (stops : numberGoesOn s next = false) :
    continuesName next = false := by
  simp only [numberGoesOn, Bool.or_eq_false_iff] at stops
  exact stops.1.1

theorem numberGoesOn_blank (blank : Text.isBlank next = true) (s : List Char) :
    numberGoesOn s next = false := by
  have point : next ≠ '.' := ne_of_isBlank blank (by decide)
  have plus : next ≠ '+' := ne_of_isBlank blank (by decide)
  have minus : next ≠ '-' := ne_of_isBlank blank (by decide)
  simp [numberGoesOn, continuesName_blank blank, point, plus, minus]

theorem takeWhile_append_cons {p : Char → Bool} (stops : p next = false) (s rest : List Char) :
    (s ++ next :: rest).takeWhile p = s.takeWhile p := by
  rw [List.takeWhile_append, List.takeWhile_cons_of_neg (by simp [stops]), List.append_nil]
  split
  · next whole => exact (List.takeWhile_prefix p).eq_of_length whole |>.symm
  · rfl

theorem decimals_append (word : continuesName next = false) (s rest : List Char) :
    decimals (s ++ next :: rest) = decimals s := by
  rw [decimals, takeWhile_append_cons (isDecimal_eq_false word), decimals]

theorem exponent_append (stops : numberGoesOn s next = false) (rest : List Char) :
    exponent (s ++ next :: rest) = exponent s := by
  have word := word_of_numberGoesOn stops
  cases s with
  | nil =>
    have small : next ≠ 'e' := ne_of_continuesName (by decide) word
    have large : next ≠ 'E' := ne_of_continuesName (by decide) word
    simp [exponent, small, large]
  | cons c s =>
    rw [List.cons_append, exponent_cons, exponent_cons, decimals_append word]
    by_cases letter : c = 'e' ∨ c = 'E'
    · cases s with
      | nil =>
        have unsigned : ¬(next = '-' ∨ next = '+') := by
          have : (c == 'e' || c == 'E') = true := by simpa using letter
          simp [numberGoesOn, this] at stops
          exact fun signed => signed.elim stops.2.2 stops.2.1
        simp [unsigned]
      | cons sign digits => simp [decimals_append word]
    · simp [letter]

theorem fraction_append (stops : numberGoesOn s next = false) (rest : List Char) :
    fraction (s ++ next :: rest) = fraction s := by
  simp only [fraction]
  rw [decimals_append (word_of_numberGoesOn stops), List.drop_append_of_le_length (decimals_le s),
    exponent_append (numberGoesOn_drop stops _)]

theorem imaginary_append {kind : TokenKind} (word : continuesName next = false)
    (inside : n ≤ s.length) (rest : List Char) :
    imaginary kind n (s ++ next :: rest) = imaginary kind n s := by
  have letter : next ≠ 'i' := ne_of_continuesName (by decide) word
  rw [imaginary_eq, imaginary_eq, List.drop_append_of_le_length inside]
  cases s.drop n with
  | nil => simp [letter]
  | cons c back => simp

theorem decimalNumber_append (stops : numberGoesOn s next = false) (rest : List Char) :
    decimalNumber (s ++ next :: rest) = decimalNumber s := by
  have word := word_of_numberGoesOn stops
  have point : next ≠ '.' := by
    simp only [numberGoesOn, Bool.or_eq_false_iff, beq_eq_false_iff_ne] at stops
    exact stops.1.2
  have head : ∀ n, n ≤ s.length →
      (((s ++ next :: rest).drop n).head? = some '.' ↔ (s.drop n).head? = some '.') := by
    intro n inside
    rw [List.drop_append_of_le_length inside]
    cases s.drop n <;> simp [point]
  have digits := decimals_le s
  have power := exponent_le (s.drop (decimals s))
  have tail := fraction_le (s.drop (decimals s + 1))
  rw [List.length_drop] at power tail
  rw [decimalNumber_eq, decimalNumber_eq, decimals_append word]
  simp only [head _ digits]
  by_cases pointed : (s.drop (decimals s)).head? = some '.'
  · have inside : decimals s + 1 ≤ s.length := by
      by_contra outside
      rw [List.drop_eq_nil_of_le (by omega)] at pointed
      simp at pointed
    simp only [pointed, head _ inside, if_true]
    rw [List.drop_append_of_le_length inside, fraction_append (numberGoesOn_drop stops _),
      imaginary_append word digits, imaginary_append word (by omega)]
  · simp only [pointed, if_false]
    rw [List.drop_append_of_le_length digits, exponent_append (numberGoesOn_drop stops _),
      imaginary_append word digits, imaginary_append word (by omega)]

theorem number_append (stops : numberGoesOn s next = false) (rest : List Char) :
    number first (s ++ next :: rest) = number first s := by
  have word := word_of_numberGoesOn stops
  rw [number_eq, number_eq, decimalNumber_append stops]
  cases s with
  | nil =>
    have letters : (['b', 'B', 'o', 'O', 'x', 'X'].all continuesName) = true := by decide
    have bases : ∀ base ∈ ['b', 'B', 'o', 'O', 'x', 'X'], next ≠ base := fun base mem =>
      ne_of_continuesName (List.all_eq_true.mp letters base mem) word
    simp only [List.mem_cons, List.not_mem_nil, or_false, forall_eq_or_imp, forall_eq] at bases
    simp [bases]
  | cons base digits =>
    have short : 1 + decimals digits ≤ (base :: digits).length := by
      have := decimals_le digits
      simp only [List.length_cons]
      omega
    have long : 1 + (digits.takeWhile isHexadecimal).length ≤ (base :: digits).length := by
      have := (List.takeWhile_sublist (l := digits) isHexadecimal).length_le
      simp only [List.length_cons]
      omega
    simp only [List.cons_append, List.drop_one, List.tail_cons, List.head?_cons,
      decimals_append word, takeWhile_append_cons (isHexadecimal_eq_false word)]
    rw [← List.cons_append, imaginary_append word short, imaginary_append word long]

/-! ## Numbers alone -/

theorem decimals_take (inside : decimals s ≤ m) : decimals (s.take m) = decimals s := by
  rw [decimals, ← List.take_takeWhile, List.length_take]
  exact Nat.min_eq_right inside

theorem exponent_take (inside : exponent s ≤ m) : exponent (s.take m) = exponent s := by
  cases s with
  | nil => simp
  | cons c s =>
    cases m with
    | zero => simpa [exponent, eq_comm] using inside
    | succ m =>
      rw [List.take_succ_cons]
      rw [exponent_cons] at inside ⊢
      rw [exponent_cons]
      by_cases letter : c = 'e' ∨ c = 'E'
      · simp only [letter, if_true] at inside ⊢
        by_cases signed : s.head? = some '-' ∨ s.head? = some '+'
        · simp only [signed, if_true] at inside
          have more : decimals ((s.drop 1).take (m - 1)) = decimals (s.drop 1) :=
            decimals_take (by omega)
          rw [List.head?_take, if_neg (show m ≠ 0 by omega), List.drop_take, more]
          simp only [signed, if_true]
        · simp only [signed, if_false] at inside
          rw [List.head?_take, decimals_take (by omega)]
          split <;> simp
      · simp [letter]

theorem fraction_take (inside : fraction s ≤ m) : fraction (s.take m) = fraction s := by
  simp only [fraction] at inside ⊢
  rw [decimals_take (by omega), List.drop_take, exponent_take (by omega)]

theorem imaginary_take (kind : TokenKind) (n : Nat) (s : List Char) :
    imaginary kind n (s.take (imaginary kind n s).2) = imaginary kind n s := by
  rw [imaginary_eq, imaginary_eq, List.drop_take]
  split
  · next found => simp [List.head?_take, found]
  · simp

theorem le_imaginary (kind : TokenKind) (n : Nat) (s : List Char) :
    n ≤ (imaginary kind n s).2 := by
  rw [imaginary_eq]
  split <;> simp

theorem decimalNumber_take (s : List Char) :
    decimalNumber (s.take (decimalNumber s).2) = decimalNumber s := by
  -- each branch reads `imaginary kind n s`, and takes the same branch in what was read
  have reads : ∀ kind n, decimals s ≤ n →
      decimalNumber (s.take (imaginary kind n s).2) =
        imaginary kind n (s.take (imaginary kind n s).2) →
      decimalNumber (s.take (imaginary kind n s).2) = imaginary kind n s :=
    fun kind n _ same => same.trans (imaginary_take kind n s)
  have digits : ∀ {m}, decimals s ≤ m → decimals (s.take m) = decimals s := decimals_take
  rw [decimalNumber_eq s]
  split
  · next point =>
    split
    · next second =>
      have short : (imaginary .int (decimals s) s).2 = decimals s := by simp [imaginary_eq, point]
      refine reads _ _ le_rfl ?_
      rw [short, decimalNumber_eq, digits le_rfl]
      simp [exponent]
    · next single =>
      have long := le_imaginary .float (decimals s + 1 + fraction (s.drop (decimals s + 1))) s
      refine reads _ _ (by omega) ?_
      generalize (imaginary _ _ s).2 = m at long ⊢
      have tail : ((s.drop (decimals s + 1)).take (m - (decimals s + 1))).head? ≠ some '.' := by
        rw [List.head?_take]
        split
        · simp
        · exact single
      rw [decimalNumber_eq, digits (by omega), List.drop_take, List.drop_take, List.head?_take,
        if_neg (show m - decimals s ≠ 0 by omega), if_pos point, if_neg tail,
        fraction_take (by omega)]
  · next other =>
    have head : ∀ m, ((s.drop (decimals s)).take (m - decimals s)).head? ≠ some '.' := by
      intro m
      rw [List.head?_take]
      split
      · simp
      · exact other
    split
    · next none =>
      have long := le_imaginary .int (decimals s) s
      refine reads _ _ le_rfl ?_
      rw [decimalNumber_eq, digits long, List.drop_take, if_neg (head _),
        exponent_take (by omega), if_pos none]
    · next some =>
      have long := le_imaginary .float (decimals s + exponent (s.drop (decimals s))) s
      refine reads _ _ (by omega) ?_
      rw [decimalNumber_eq, digits (by omega), List.drop_take, if_neg (head _),
        exponent_take (by omega), if_neg some]

theorem number_take (first : Char) (s : List Char) :
    number first (s.take (number first s).2) = number first s := by
  have head : ∀ m, 1 ≤ m → (s.take m).head? = s.head? := by
    intro m some
    rw [List.head?_take, if_neg (by omega)]
  have others : ∀ m (bases : List Char), s.head?.any bases.contains = false →
      (s.take m).head?.any bases.contains = false := by
    intro m bases none
    rw [List.head?_take]
    split
    · rfl
    · exact none
  rw [number_eq first s]
  split
  · next binary =>
    have long := le_imaginary .int (1 + decimals (s.drop 1)) s
    have same := imaginary_take .int (1 + decimals (s.drop 1)) s
    generalize (imaginary _ _ s).2 = m at long same ⊢
    rw [number_eq, head m (by omega), if_pos binary, List.drop_take, decimals_take (by omega), same]
  split
  · next hexadecimal =>
    have long := le_imaginary .int (1 + ((s.drop 1).takeWhile isHexadecimal).length) s
    have same := imaginary_take .int (1 + ((s.drop 1).takeWhile isHexadecimal).length) s
    generalize (imaginary _ _ s).2 = m at long same ⊢
    rw [number_eq, head m (by omega), if_neg ‹_›, if_pos hexadecimal, List.drop_take,
      ← List.take_takeWhile, List.length_take, Nat.min_eq_right (by omega), same]
  · next binary hexadecimal =>
    have plain : ∀ m, number first (s.take m) = decimalNumber (s.take m) := by
      intro m
      by_cases zero : first = '0'
      · simp only [zero, true_and, Bool.not_eq_true] at binary hexadecimal
        rw [number_eq, others m _ binary, others m _ hexadecimal]
        simp
      · simp [number_eq, zero]
    rw [plain, decimalNumber_take]

end Cut

end GoTrivia
