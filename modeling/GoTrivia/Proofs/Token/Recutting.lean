import Mathlib.Data.List.Chain
import Mathlib.Data.List.Find
import GoTrivia.Proofs.Token.Cutting
import GoTrivia.Proofs.Token.Escapes
import GoTrivia.Proofs.Token.Numbers

/-!
# Cutting a piece again

A piece of one text that is written into another text should be cut off there as well.  Two
facts say when it is.  A piece that stands alone is cut as one piece of the same kind
(`measure_take`), whatever followed it where it was cut first.  And a piece that stands alone is
still cut off in front of a character that it cannot go on with (`measure_append`), whatever
follows that character.

**Going on.** Longest match makes the end of a token depend on what follows it.  `mayGoOn` names
the characters that a token may go on with: those of words for words, points and the sign of an
exponent for numbers as well, and whatever begins a longer operator for operators.  No token goes
on with a blank.
-/

set_option autoImplicit false

namespace GoTrivia

namespace Cut

variable {s t rest : List Char} {first next c : Char} {n m : Nat}

/-! ## Literals and comments -/

/-- A literal is closed by the first quote that is not escaped. -/
theorem exists_of_quoted {quote : Char} (plain : quote ≠ '\\') (closed : (quoted quote s).2 = true) :
    ∃ inside back, s = inside ++ quote :: back ∧
      ∀ t, quoted quote (inside ++ quote :: t) = (inside.length + 1, true) := by
  obtain ⟨inside, back, rfl, ends, read⟩ := exists_literalEnds plain s
  rw [read] at closed
  split at closed
  · next closes =>
    obtain ⟨behind, rfl⟩ := List.head?_eq_some_iff.mp closes
    refine ⟨inside, behind, rfl, fun t => ?_⟩
    rw [quoted_eq plain (ends.behind t), if_pos (List.head?_cons)]
  · cases closed

/-- A literal that is known is closed, so nothing behind its last quote matters. -/
theorem exists_of_quotedLiteral {quote : Char} {kind : TokenKind} (plain : quote ≠ '\\')
    (known : (quotedLiteral quote kind s).1 ≠ .unknown) :
    ∃ inside back, s = inside ++ quote :: back ∧
      ∀ t, quotedLiteral quote kind (inside ++ quote :: t) = (kind, inside.length + 1) := by
  have closed : (quoted quote s).2 = true := by
    simp only [quotedLiteral] at known
    split at known
    · assumption
    · exact absurd rfl known
  obtain ⟨inside, back, split, stable⟩ := exists_of_quoted plain closed
  exact ⟨inside, back, split, fun t => by simp [quotedLiteral, stable]⟩

/-- A raw string that is known is closed by the first back quote. -/
theorem exists_of_rawString (known : (rawString s).1 ≠ .unknown) :
    ∃ inside back, s = inside ++ '\x60' :: back ∧
      ∀ t, rawString (inside ++ '\x60' :: t) = (.string, inside.length + 1) := by
  have whole : ∀ inside : List Char, '\x60' ∉ inside →
      inside.takeWhile (· ≠ '\x60') = inside := fun inside none =>
    List.takeWhile_eq_self_iff.mpr fun c mem => by simpa using ne_of_mem_of_not_mem mem none
  simp only [rawString] at known
  split at known
  · next short =>
    have mem : '\x60' ∈ s := by
      by_contra none
      rw [whole s none] at short
      exact absurd short (lt_irrefl _)
    obtain ⟨inside, back, rfl, none⟩ := List.eq_append_cons_of_mem mem
    refine ⟨inside, back, rfl, fun t => ?_⟩
    have all : (inside ++ '\x60' :: t).takeWhile (· ≠ '\x60') = inside := by
      rw [takeWhile_append_cons (by simp), whole inside none]
    simp only [rawString, all]
    simp
  · exact absurd rfl known

/-- A block comment is closed by the first star with a slash behind it. -/
theorem exists_of_blockComment (closed : (blockComment s).2 = true) :
    ∃ inside back, s = inside ++ '*' :: '/' :: back ∧
      ∀ t, blockComment (inside ++ '*' :: '/' :: t) = (inside.length + 2, true) := by
  fun_induction blockComment s with
  | case1 => simp at closed
  | case2 back => exact ⟨[], back, rfl, fun t => by simp [blockComment]⟩
  | case3 c rest other n isClosed read ih =>
    obtain ⟨inside, back, rfl, stable⟩ := ih (by rw [read]; exact closed)
    refine ⟨c :: inside, back, rfl, fun t => ?_⟩
    have open' : ∀ tail, c = '*' → inside ++ '*' :: '/' :: t = '/' :: tail → False := by
      intro tail isStar begins
      cases inside with
      | nil => simp at begins
      | cons head inside =>
        obtain rfl : head = '/' := by simpa using (List.cons.inj begins).1
        exact other _ isStar rfl
    rw [List.cons_append, blockComment.eq_3 _ _ open', stable]
    simp

/-! ## Words and operators -/

theorem word_append (word : continuesName next = false) (s rest : List Char) :
    Cut.word first (s ++ next :: rest) = Cut.word first s := by
  rw [Cut.word, takeWhile_append_cons word, Cut.word]

/-- A word alone is the same word. -/
theorem word_take (first : Char) (s : List Char) :
    Cut.word first (s.take (Cut.word first s).2) = Cut.word first s := by
  have same : (s.take (s.takeWhile continuesName).length).takeWhile continuesName =
      s.takeWhile continuesName := by
    rw [← List.take_takeWhile, List.take_length]
  simp only [Cut.word, same]

/-- Whether an operator may go on with a character: it begins a longer operator, a number or a
comment. -/
def operatorGoesOn (s : List Char) (next : Char) : Bool :=
  (operators.any fun entry => (s ++ [next]).isPrefixOf entry.1) ||
    (s == ['.'] && next.isDigit) || (s == ['/'] && (next == '/' || next == '*'))

theorem operator?_append (stops : operatorGoesOn s next = false) (rest : List Char) :
    operator? (s ++ next :: rest) = operator? s := by
  have longer : ∀ entry ∈ operators, ¬(s ++ [next] <+: entry.1) := by
    simp only [operatorGoesOn, Bool.or_eq_false_iff, List.any_eq_false,
      List.isPrefixOf_iff_prefix] at stops
    exact stops.1.1
  refine List.find?_congr fun entry mem => ?_
  rw [Bool.eq_iff_iff, List.isPrefixOf_iff_prefix, List.isPrefixOf_iff_prefix]
  refine ⟨fun begins => ?_, fun begins => begins.trans (List.prefix_append _ _)⟩
  have here : s ++ [next] <+: s ++ next :: rest := ⟨rest, by simp⟩
  rcases List.prefix_or_prefix_of_prefix begins here with shorter | longer'
  · rcases List.prefix_concat_iff.mp shorter with same | shorter
    · exact absurd (same ▸ List.prefix_rfl) (longer entry mem)
    · exact shorter
  · exact absurd longer' (longer entry mem)

/-- An operator alone is found as in front of anything else. -/
theorem operator?_take {entry : List Char × TokenKind} (found : operator? s = some entry) :
    operator? entry.1 = some entry := by
  obtain ⟨begins, front, back, split, others⟩ := List.find?_eq_some_iff_append.mp found
  refine List.find?_eq_some_iff_append.mpr ⟨by simp, front, back, split, fun other mem => ?_⟩
  have none := others other mem
  simp only [Bool.not_eq_true', ← Bool.not_eq_true, List.isPrefixOf_iff_prefix] at none begins ⊢
  exact fun shorter => none (shorter.trans begins)

/-- No operator holds a blank. -/
theorem sharp_of_mem_operators {c : Char} (blank : Text.isBlank c = true)
    {entry : List Char × TokenKind} (mem : entry ∈ operators) : c ∉ entry.1 := by
  have all : (operators.all fun entry => entry.1.all fun c => !Text.isBlank c) = true := by
    decide
  intro inside
  have := List.all_eq_true.mp (List.all_eq_true.mp all entry mem) c inside
  simp [blank] at this

theorem operatorGoesOn_blank (blank : Text.isBlank next = true) (s : List Char) :
    operatorGoesOn s next = false := by
  have slash : next ≠ '/' := ne_of_isBlank blank (by decide)
  have star : next ≠ '*' := ne_of_isBlank blank (by decide)
  have none : (operators.any fun entry => (s ++ [next]).isPrefixOf entry.1) = false := by
    simp only [List.any_eq_false, List.isPrefixOf_iff_prefix]
    exact fun entry mem begins =>
      sharp_of_mem_operators blank mem (begins.subset (by simp))
  simp [operatorGoesOn, none, isDigit_blank blank, slash, star]

/-! ## Tokens -/

/-- Whether a token may go on with a character. -/
def mayGoOn (first : Char) (following : List Char) (next : Char) : Bool :=
  if first = '\x22' ∨ first = '\x27' ∨ first = '\x60' then false
  else if first.isDigit then numberGoesOn following next
  else if beginsName first then continuesName next
  else if first = '.' ∧ (following.head?.any Char.isDigit) then numberGoesOn following next
  else operatorGoesOn (first :: following) next

/-- No token goes on with a blank. -/
theorem mayGoOn_blank (blank : Text.isBlank next = true) (first : Char) (s : List Char) :
    mayGoOn first s next = false := by
  unfold mayGoOn
  rw [numberGoesOn_blank blank, continuesName_blank blank, operatorGoesOn_blank blank]
  simp

/-- The rules for tokens, told apart by the first character. -/
inductive Rule (first : Char) : Prop
  | closed (quote : Char) (sharp : Text.isBlank quote = false)
      (rule : ∀ s, (token first s).1 ≠ .unknown →
      ∃ kind inside back, s = inside ++ quote :: back ∧
        ∀ t, token first (inside ++ quote :: t) = (kind, inside.length + 1))
  | number (rule : ∀ s, token first s = Cut.number first s)
      (goesOn : ∀ s next, mayGoOn first s next = numberGoesOn s next)
  | word (rule : ∀ s, token first s = Cut.word first s)
      (goesOn : ∀ s next, mayGoOn first s next = continuesName next)
  | symbol (rule : ∀ s, token first s =
        if first = '.' ∧ s.head?.any Char.isDigit then imaginary .float (fraction s) s
        else ((operator? (first :: s)).map fun entry => (entry.2, entry.1.length - 1)).getD
          (.unknown, 0))
      (goesOn : ∀ s next, mayGoOn first s next =
        if first = '.' ∧ s.head?.any Char.isDigit then numberGoesOn s next
        else operatorGoesOn (first :: s) next)

theorem Rule.quoted {kind : TokenKind} (plain : first ≠ '\\') (sharp : Text.isBlank first = false)
    (rule : ∀ s, token first s = quotedLiteral first kind s) : Rule first := by
  refine .closed first sharp fun s known => ?_
  rw [rule] at known
  obtain ⟨inside, back, split, stable⟩ := exists_of_quotedLiteral plain known
  exact ⟨kind, inside, back, split, fun t => by rw [rule, stable]⟩

theorem rule_of_first (first : Char) : Rule first := by
  by_cases double : first = '\x22'
  · subst double
    exact .quoted (by decide) (by decide) fun s => by simp [token]; rfl
  by_cases single : first = '\x27'
  · subst single
    exact .quoted (by decide) (by decide) fun s => by simp [token]; rfl
  by_cases back : first = '\x60'
  · subst back
    have rule : ∀ s, token '\x60' s = rawString s := fun s => by simp [token]
    refine .closed '\x60' (by decide) fun s known => ?_
    rw [rule] at known
    obtain ⟨inside, back, split, stable⟩ := exists_of_rawString known
    exact ⟨.string, inside, back, split, fun t => by rw [rule, stable]⟩
  by_cases digit : first.isDigit = true
  · exact .number (fun s => by simp [token, double, single, back, digit])
      fun s next => by simp [mayGoOn, double, single, back, digit]
  by_cases letter : beginsName first = true
  · exact .word (fun s => by simp [token, double, single, back, digit, letter])
      fun s next => by simp [mayGoOn, double, single, back, digit, letter]
  · refine .symbol (fun s => ?_) fun s next => by
      simp [mayGoOn, double, single, back, digit, letter]
    simp only [token, double, single, back, digit, letter]
    cases operator? (first :: s) <;> simp

/-- A token ends inside the text. -/
theorem token_le (known : (token first s).1 ≠ .unknown) : (token first s).2 ≤ s.length := by
  cases rule_of_first first with
  | closed quote sharp rule =>
    obtain ⟨kind, inside, back, rfl, stable⟩ := rule s known
    rw [stable]
    simp
  | number rule =>
    rw [rule]
    exact number_le first s
  | word rule =>
    rw [rule]
    exact (List.takeWhile_sublist continuesName).length_le
  | symbol rule =>
    rw [rule] at known ⊢
    split
    · exact imaginary_le (fraction_le s)
    · next other =>
      rw [if_neg other] at known
      cases found : operator? (first :: s) with
      | none => simp [found] at known
      | some entry =>
        have begins : entry.1 <+: first :: s := by simpa using List.find?_some found
        have := begins.length_le
        simp only [List.length_cons] at this
        simp only [Option.map_some, Option.getD_some]
        omega

/-- A token alone is cut as in front of anything else. -/
theorem token_take (known : (token first s).1 ≠ .unknown) :
    token first (s.take (token first s).2) = token first s := by
  cases rule_of_first first with
  | closed quote sharp rule =>
    obtain ⟨kind, inside, back, rfl, stable⟩ := rule s known
    have alone : (inside ++ quote :: back).take (inside.length + 1) = inside ++ quote :: [] := by
      rw [List.take_length_add_append]
      rfl
    rw [stable, alone, stable]
  | number rule => rw [rule, rule, number_take]
  | word rule => rw [rule, rule, word_take]
  | symbol rule =>
    rw [rule] at known
    rw [rule, rule s]
    by_cases point : first = '.' ∧ s.head?.any Char.isDigit = true
    · have some : 0 < fraction s := by
        cases s with
        | nil => simp at point
        | cons digit digits =>
          have isDecimal : isDecimal digit = true := by simpa [isDecimal] using .inr point.2
          simp only [fraction, decimals, List.takeWhile_cons_of_pos isDecimal, List.length_cons]
          omega
      have long := le_imaginary .float (fraction s) s
      have same := imaginary_take .float (fraction s) s
      rw [if_pos point]
      generalize (imaginary _ _ s).2 = m at long same ⊢
      rw [List.head?_take, if_neg (show m ≠ 0 by omega), if_pos point, fraction_take long, same]
    · simp only [point, if_false] at known ⊢
      cases found : operator? (first :: s) with
      | none => simp [found] at known
      | some entry =>
        have alone := operator?_take found
        have filled : ∀ entry ∈ operators, entry.1 ≠ [] := by decide
        obtain ⟨c, cs, split⟩ := List.exists_cons_of_ne_nil
          (filled entry (List.mem_of_find?_eq_some found))
        have begins : c :: cs <+: first :: s := by
          simpa [split] using List.find?_some found
        obtain ⟨rfl, short⟩ := List.cons_prefix_cons.mp begins
        have cut : s.take cs.length = cs := (List.prefix_iff_eq_take.mp short).symm
        have other : ¬(c = '.' ∧ cs.head?.any Char.isDigit = true) := by
          rw [← cut, List.head?_take]
          split
          · simp
          · exact point
        simp only [split, Option.map_some, Option.getD_some, List.length_cons, Nat.add_sub_cancel]
        rw [cut, if_neg other, ← split, alone]
        simp [split]

/-- A token is cut off in front of a character that it cannot go on with. -/
theorem token_append (whole : (token first s).2 = s.length) (known : (token first s).1 ≠ .unknown)
    (stops : mayGoOn first s next = false) (rest : List Char) :
    token first (s ++ next :: rest) = token first s := by
  cases rule_of_first first with
  | closed quote sharp rule =>
    obtain ⟨kind, inside, back, rfl, stable⟩ := rule s known
    rw [stable] at whole
    obtain rfl : back = [] := by simpa using whole
    rw [stable, List.append_assoc]
    exact stable _
  | number rule goesOn => rw [rule, rule, number_append (goesOn s next ▸ stops)]
  | word rule goesOn => rw [rule, rule, word_append (goesOn s next ▸ stops)]
  | symbol rule goesOn =>
    rw [goesOn] at stops
    rw [rule, rule]
    by_cases point : first = '.' ∧ s.head?.any Char.isDigit = true
    · have begins : first = '.' ∧ (s ++ next :: rest).head?.any Char.isDigit = true := by
        cases s with
        | nil => simp at point
        | cons digit digits => simpa using point
      simp only [point, and_self, if_true] at stops
      rw [if_pos begins, if_pos point, fraction_append stops,
        imaginary_append (word_of_numberGoesOn stops) (fraction_le s)]
    · simp only [point, if_false] at stops
      have other : ¬(first = '.' ∧ (s ++ next :: rest).head?.any Char.isDigit = true) := by
        cases s with
        | nil =>
          rintro ⟨rfl, digit⟩
          simp [operatorGoesOn] at stops
          simp_all
        | cons c s => simpa using point
      rw [if_neg other, if_neg point, ← List.cons_append, operator?_append stops]

/-- No token ends with a blank. -/
theorem token_append_blank (blank : Text.isBlank next = true)
    (known : (token first (s ++ [next])).1 ≠ .unknown) :
    (token first (s ++ [next])).2 ≤ s.length := by
  cases rule_of_first first with
  | closed quote sharp rule =>
    obtain ⟨kind, inside, back, split, stable⟩ := rule _ known
    rw [split, stable]
    rcases List.eq_nil_or_concat back with rfl | ⟨back, last, rfl⟩
    · obtain ⟨-, same⟩ := List.append_inj' split rfl
      obtain rfl := (List.cons.inj same).1
      simp [sharp] at blank
    · have := congrArg List.length split
      simp at this ⊢
      omega
  | number rule =>
    rw [rule, number_append (numberGoesOn_blank blank s)]
    exact number_le first s
  | word rule =>
    rw [rule, word_append (continuesName_blank blank)]
    exact (List.takeWhile_sublist continuesName).length_le
  | symbol rule =>
    have stops := numberGoesOn_blank blank s
    rw [rule] at known ⊢
    split
    · rw [fraction_append stops, imaginary_append (continuesName_blank blank) (fraction_le s)]
      exact imaginary_le (fraction_le s)
    · next other =>
      rw [if_neg other] at known
      cases found : operator? (first :: (s ++ [next])) with
      | none => simp [found] at known
      | some entry =>
        have begins : entry.1 <+: (first :: s) ++ [next] := by
          simpa using List.find?_some found
        have sharp := sharp_of_mem_operators blank (List.mem_of_find?_eq_some found)
        rcases List.prefix_concat_iff.mp begins with whole | shorter
        · simp [whole] at sharp
        · have := shorter.length_le
          simp only [List.length_cons] at this
          simp only [Option.map_some, Option.getD_some]
          omega

/-- No token begins with a blank. -/
theorem token_blank (blank : Text.isBlank first = true) (s : List Char) :
    (token first s).1 = .unknown := by
  have double : first ≠ '\x22' := ne_of_isBlank blank (by decide)
  have single : first ≠ '\x27' := ne_of_isBlank blank (by decide)
  have back : first ≠ '\x60' := ne_of_isBlank blank (by decide)
  have point : first ≠ '.' := ne_of_isBlank blank (by decide)
  have name : beginsName first = false := by
    have := continuesName_blank blank
    simp only [continuesName, Bool.or_eq_false_iff] at this
    simp [beginsName, this]
  have none : operator? (first :: s) = none := by
    refine List.find?_eq_none.mpr fun entry mem begins => ?_
    have filled : ∀ entry ∈ operators, entry.1 ≠ [] := by decide
    obtain ⟨c, cs, split⟩ := List.exists_cons_of_ne_nil (filled entry mem)
    have sharp := sharp_of_mem_operators blank mem
    simp [split] at begins sharp
    exact sharp.1 begins.1.symm
  simp [token, double, single, back, point, isDigit_blank blank, name, none]

/-! ## Pieces -/

theorem measure_eq (first : Char) (s : List Char) :
    measure first s =
      if first = '\n' then (.lineFeed, 0)
      else if first = ' ' ∨ first = '\t' ∨ first = '\r' then (.blank, 0)
      else if first = '/' ∧ s.head? = some '/' then
        (.lineComment, (s.takeWhile (· ≠ '\n')).length)
      else if first = '/' ∧ s.head? = some '*' then
        (.blockComment (blockComment (s.drop 1)).2, (blockComment (s.drop 1)).1 + 1)
      else (.token (token first s).1, (token first s).2) := by
  unfold measure
  split
  · rfl
  split
  · rfl
  split
  · simp
  · simp
  · next line block =>
    have noLine : ¬(first = '/' ∧ s.head? = some '/') := by
      rintro ⟨rfl, begins⟩
      obtain ⟨back, rfl⟩ := List.head?_eq_some_iff.mp begins
      exact line back rfl rfl
    have noBlock : ¬(first = '/' ∧ s.head? = some '*') := by
      rintro ⟨rfl, begins⟩
      obtain ⟨back, rfl⟩ := List.head?_eq_some_iff.mp begins
      exact block back rfl rfl
    rw [if_neg noLine, if_neg noBlock]

theorem measure_line (s : List Char) :
    measure '/' ('/' :: s) = (.lineComment, (s.takeWhile (· ≠ '\n')).length + 1) := by
  simp [measure_eq]

theorem measure_block (s : List Char) :
    measure '/' ('*' :: s) = (.blockComment (blockComment s).2, (blockComment s).1 + 1) := by
  simp [measure_eq]

/-- What a piece is by its first two characters. -/
inductive Opening (first : Char) : List Char → Prop
  | blank {s : List Char} (kind : PieceKind) (rule : ∀ t, measure first t = (kind, 0)) : Opening first s
  | line {s : List Char} (isSlash : first = '/') : Opening first ('/' :: s)
  | block {s : List Char} (isSlash : first = '/') : Opening first ('*' :: s)
  | token {s : List Char} (rule : ∀ t, (first = '/' → t.head? ≠ some '/' ∧ t.head? ≠ some '*') →
      measure first t = (.token (token first t).1, (token first t).2))
      (other : first = '/' → s.head? ≠ some '/' ∧ s.head? ≠ some '*') : Opening first s

theorem opening (first : Char) (s : List Char) : Opening first s := by
  by_cases line : first = '\n'
  · exact .blank .lineFeed fun t => by simp [measure_eq, line]
  by_cases blank : first = ' ' ∨ first = '\t' ∨ first = '\r'
  · exact .blank .blank fun t => by simp [measure_eq, line, blank]
  by_cases comment : first = '/' ∧ s.head? = some '/'
  · obtain ⟨isSlash, begins⟩ := comment
    obtain ⟨back, rfl⟩ := List.head?_eq_some_iff.mp begins
    exact .line isSlash
  by_cases block : first = '/' ∧ s.head? = some '*'
  · obtain ⟨isSlash, begins⟩ := block
    obtain ⟨back, rfl⟩ := List.head?_eq_some_iff.mp begins
    exact .block isSlash
  refine .token (fun t other => ?_) fun isSlash =>
    ⟨fun begins => comment ⟨isSlash, begins⟩, fun begins => block ⟨isSlash, begins⟩⟩
  rw [measure_eq, if_neg line, if_neg blank, if_neg fun found => (other found.1).1 found.2,
    if_neg fun found => (other found.1).2 found.2]

theorem measure_le {kind : PieceKind} (measured : measure first s = (kind, n))
    (known : kind ≠ .token .unknown) (closed : kind ≠ .blockComment false) : n ≤ s.length := by
  cases opening first s with
  | blank kind rule =>
    rw [rule] at measured
    cases measured
    exact Nat.zero_le _
  | @line s isSlash =>
    subst isSlash
    rw [measure_line] at measured
    obtain ⟨-, rfl⟩ := Prod.mk.inj measured
    exact Nat.succ_le_succ (List.takeWhile_sublist _).length_le
  | @block s isSlash =>
    subst isSlash
    rw [measure_block] at measured
    obtain ⟨rfl, rfl⟩ := Prod.mk.inj measured
    have isClosed : (blockComment s).2 = true := by simpa using closed
    obtain ⟨inside, back, rfl, stable⟩ := exists_of_blockComment isClosed
    rw [stable]
    simp
  | token rule other =>
    rw [rule s other] at measured
    obtain ⟨rfl, rfl⟩ := Prod.mk.inj measured
    exact token_le (by simpa using known)

/-- A piece alone is cut as in front of anything else. -/
theorem measure_take {kind : PieceKind} (measured : measure first s = (kind, n))
    (known : kind ≠ .token .unknown) (closed : kind ≠ .blockComment false) :
    measure first (s.take n) = (kind, n) := by
  cases opening first s with
  | blank kind rule => rw [rule, ← measured, rule]
  | @line s isSlash =>
    subst isSlash
    rw [measure_line] at measured
    obtain ⟨rfl, rfl⟩ := Prod.mk.inj measured
    rw [List.take_succ_cons, measure_line, ← List.take_takeWhile, List.take_length]
  | @block s isSlash =>
    subst isSlash
    rw [measure_block] at measured
    obtain ⟨rfl, rfl⟩ := Prod.mk.inj measured
    have isClosed : (blockComment s).2 = true := by simpa using closed
    obtain ⟨inside, back, rfl, stable⟩ := exists_of_blockComment isClosed
    have alone : (inside ++ '*' :: '/' :: back).take (inside.length + 2) =
        inside ++ '*' :: '/' :: [] := by
      rw [List.take_length_add_append]
      rfl
    rw [stable, List.take_succ_cons, measure_block, alone, stable]
  | token rule other =>
    rw [rule s other] at measured
    obtain ⟨rfl, rfl⟩ := Prod.mk.inj measured
    rw [rule, token_take (by simpa using known)]
    intro isSlash
    rw [List.head?_take]
    split
    · simp
    · exact other isSlash

/-- A piece is cut off in front of a character that it cannot go on with. -/
theorem measure_append {kind : PieceKind} (measured : measure first s = (kind, s.length))
    (known : kind ≠ .token .unknown) (closed : kind ≠ .blockComment false)
    (line : kind = .lineComment → next = '\n')
    (stops : ∀ tokenKind, kind = .token tokenKind → mayGoOn first s next = false)
    (rest : List Char) : measure first (s ++ next :: rest) = (kind, s.length) := by
  cases opening first s with
  | blank kind rule => rw [rule, ← measured, rule]
  | @line s isSlash =>
    subst isSlash
    rw [measure_line] at measured
    obtain ⟨rfl, whole⟩ := Prod.mk.inj measured
    rw [List.cons_append, measure_line, takeWhile_append_cons (by simp [line rfl]), whole]
  | @block s isSlash =>
    subst isSlash
    rw [measure_block] at measured
    obtain ⟨rfl, whole⟩ := Prod.mk.inj measured
    have isClosed : (blockComment s).2 = true := by simpa using closed
    obtain ⟨inside, back, rfl, stable⟩ := exists_of_blockComment isClosed
    rw [stable] at whole
    obtain rfl : back = [] := by simpa using whole
    rw [stable, List.cons_append, measure_block, List.append_assoc]
    simp [stable]
  | token rule other =>
    rw [rule s other] at measured
    obtain ⟨rfl, whole⟩ := Prod.mk.inj measured
    have stops := stops _ rfl
    have same := token_append whole (by simpa using known) stops rest
    rw [rule, same, whole]
    intro isSlash
    cases s with
    | nil =>
      subst isSlash
      have word : beginsName '/' = false := by decide +kernel
      simp [mayGoOn, word, operatorGoesOn] at stops
      simp [stops]
    | cons c s => exact other isSlash

end Cut

/-! ## Pieces put together -/

namespace Piece

/-- A piece that stands for itself: alone it is cut as one piece, and neither the end of the text
nor the end of a line cut it short. -/
structure Whole (piece : Piece) : Prop where
  measured : Cut.measure piece.first piece.following = (piece.kind, piece.following.length)
  known : piece.kind ≠ .token .unknown
  closed : piece.kind ≠ .blockComment false

/-- Whether a piece is cut off in front of another one. -/
def endsBefore (piece next : Piece) : Bool :=
  match piece.kind with
  | .lineComment => next.first == '\n'
  | .token _ => !Cut.mayGoOn piece.first piece.following next.first
  | _ => true

end Piece

theorem whole_of_mem_pieces {s : List Char} {piece : Piece} (mem : piece ∈ pieces s)
    (known : piece.kind ≠ .token .unknown) (closed : piece.kind ≠ .blockComment false) :
    piece.Whole := by
  obtain ⟨rest, n, measured, following⟩ := measure_of_mem_pieces mem
  have inside := Cut.measure_le measured known closed
  refine ⟨?_, known, closed⟩
  rw [following, Cut.measure_take measured known closed, List.length_take, Nat.min_eq_left inside]

/-- Pieces put together are cut apart again, if each of them ends before the next. -/
theorem pieces_flatMap_chars {ps : List Piece} (whole : ∀ piece ∈ ps, piece.Whole)
    (apart : ps.IsChain fun piece next => piece.endsBefore next = true) :
    pieces (ps.flatMap Piece.chars) = ps := by
  induction ps with
  | nil => simp [pieces]
  | cons piece ps ih =>
    obtain ⟨here, others⟩ := List.forall_mem_cons.mp whole
    have later := ih others apart.tail
    have measured : Cut.measure piece.first (piece.following ++ ps.flatMap Piece.chars) =
        (piece.kind, piece.following.length) := by
      cases ps with
      | nil => simpa using here.measured
      | cons next ps =>
        have ends := (List.isChain_cons_cons.mp apart).1
        rw [List.flatMap_cons, Piece.chars, List.cons_append]
        refine Cut.measure_append here.measured here.known here.closed ?_ ?_ _
        · intro isLine
          simpa [Piece.endsBefore, isLine] using ends
        · intro kind isToken
          simpa [Piece.endsBefore, isToken] using ends
    rw [List.flatMap_cons, Piece.chars, List.cons_append, pieces]
    simp [measured, later]

end GoTrivia
