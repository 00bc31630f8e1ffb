import Mathlib.Data.Bool.AllAny
import GoTrivia.Proofs.Token.Words

/-!
# Tokens that fuse

Put next to each other, two tokens may be cut as one.  Where the first of them cannot go on with
what the second begins with they are cut apart (`CutOff`).  Of the texts that a canonical layout puts
side by side, all are cut off from each other but two signs that make an operator, and a number in
front of a point or a step (`Fuses`).
-/

set_option autoImplicit false

namespace GoTrivia

/-! ## Texts of one token -/

/-- The kind of token that a text is, if it is one. -/
def tokenKind? (text : String) : Option TokenKind :=
  match pieces text.toList with
  | [⟨.token kind, _, _⟩] => if kind = .unknown then none else some kind
  | _ => none

/-- Whether a text is one number. -/
def isNumeral (text : String) : Bool :=
  [some .int, some .float, some .imaginary].contains (tokenKind? text)

/-- Whether a text may go on with a character, if it is one token. -/
def goesOn (text : String) (next : Char) : Bool :=
  match text.toList with
  | [] => false
  | first :: following => Cut.mayGoOn first following next

/-- A text that cannot go on with what another one begins with. -/
def CutOff (text next : String) : Prop := ∀ c ∈ next.toList.head?, goesOn text c = false

/-- Texts side by side that may be read as one token. -/
def Fuses (text next : String) : Prop :=
  (text, next) ∈ [("+", "+"), ("-", "-"), ("&", "&"), ("&", "^")] ∨
    (isNumeral text = true ∧ next ∈ [".", "...", "++", "--"])

/-- If the first of two texts is a token, they are cut off from each other or one of the pairs that
may be read as one token. -/
def MayTouch (text next : String) : Prop :=
  (tokenKind? text).isSome = true → CutOff text next ∨ Fuses text next

namespace Piece

/-- A piece that stands for itself is the token its text is. -/
theorem Whole.tokenKind?_text {piece : Piece} {kind : TokenKind} (whole : piece.Whole)
    (isToken : piece.kind = .token kind) : tokenKind? piece.text = some kind := by
  have known : kind ≠ .unknown := by
    rintro rfl
    exact whole.known isToken
  have alone : pieces piece.text.toList = [piece] := by
    rw [Piece.text, String.toList_ofList, Piece.chars, pieces]
    simp [whole.measured, pieces]
  obtain ⟨_, first, following⟩ := piece
  cases isToken
  simp [tokenKind?, alone, known]

end Piece

variable {text next : String} {kind : TokenKind}

/-- A text that is a token is one piece that stands for itself. -/
theorem exists_whole (isToken : tokenKind? text = some kind) :
    ∃ first following, text.toList = first :: following ∧
      Piece.Whole ⟨.token kind, first, following⟩ := by
  unfold tokenKind? at isToken
  split at isToken
  · next kind' first following alone =>
    split at isToken
    · cases isToken
    · next known =>
      obtain rfl := Option.some.inj isToken
      have mem : ⟨.token kind', first, following⟩ ∈ pieces text.toList := by
        rw [alone]
        exact List.mem_cons_self
      refine ⟨first, following, ?_, whole_of_mem_pieces mem (by simpa using known) (by simp)⟩
      have chars := flatMap_chars_pieces text.toList
      rw [alone] at chars
      simpa [Piece.chars] using chars.symm
  · cases isToken

/-! ## What tokens go on with -/

/-- What a check has found holds of the value, if there is one. -/
theorem forall_mem_of_all {α : Type} {p : α → Prop} [DecidablePred p] {value : Option α}
    (checked : (value.all fun a => decide (p a)) = true) : ∀ a ∈ value, p a :=
  fun a mem => of_decide_eq_true ((Option.all_eq_true _ _).mp checked a mem)

namespace Cut

variable {first : Char} {following : List Char}

/-- The characters that make a longer operator of the beginning of one. -/
def operatorFollows (s : List Char) : List Char :=
  operators.filterMap fun entry => if s.isPrefixOf entry.1 then entry.1[s.length]? else none

theorem mem_operatorFollows {s : List Char} {c : Char} (goesOn : operatorGoesOn s c = true) :
    c ∈ operatorFollows s ∨ (s = ['.'] ∧ c.isDigit = true) ∨ (s = ['/'] ∧ (c = '/' ∨ c = '*')) := by
  simp only [operatorGoesOn, Bool.or_eq_true, Bool.and_eq_true, beq_iff_eq] at goesOn
  rcases goesOn with (longer | point) | slash
  · obtain ⟨entry, mem, begins⟩ := List.any_eq_true.mp longer
    obtain ⟨back, split⟩ := List.isPrefixOf_iff_prefix.mp begins
    refine .inl (List.mem_filterMap.mpr ⟨entry, mem, ?_⟩)
    rw [← split, if_pos (List.isPrefixOf_iff_prefix.mpr ⟨[c] ++ back, by simp⟩)]
    simp
  · exact .inr (.inl point)
  · exact .inr (.inr slash)

/-- A known token that takes the whole text, by the rule it is cut by. -/
inductive Ruled (first : Char) (following : List Char) (kind : TokenKind) : Prop
  | literal (quote : first ∈ ['\x22', '\x27', '\x60']) (isKind : kind = .string ∨ kind = .rune)
      (closed : ∀ c, mayGoOn first following c = false)
  | number (begins : first.isDigit = true ∨ first = '.') (numeral : IsNumeral kind)
      (goesOn : ∀ c, mayGoOn first following c = numberGoesOn following c)
  | word (begins : beginsName first = true) (digit : first.isDigit = false)
      (isKind : kind.isWord = true) (goesOn : ∀ c, mayGoOn first following c = continuesName c)
  | operator (mem : (first :: following, kind) ∈ operators)
      (goesOn : ∀ c, mayGoOn first following c = operatorGoesOn (first :: following) c)

theorem kind_quotedLiteral {quote : Char} {kind known : TokenKind} {s : List Char}
    (isKind : (quotedLiteral quote kind s).1 = known) (other : known ≠ .unknown) : known = kind := by
  simp only [quotedLiteral] at isKind
  split at isKind
  · exact isKind.symm
  · exact (other isKind.symm).elim

theorem ruled_of_token {kind : TokenKind} (whole : token first following = (kind, following.length))
    (known : kind ≠ .unknown) : Ruled first following kind := by
  by_cases double : first = '\x22'
  · subst double
    have rule : token '\x22' following = quotedLiteral '\x22' .string following := by simp [token]
    rw [rule] at whole
    exact .literal (by simp) (.inl (kind_quotedLiteral (congrArg Prod.fst whole) known))
      fun c => by simp [mayGoOn]
  by_cases single : first = '\x27'
  · subst single
    have rule : token '\x27' following = quotedLiteral '\x27' .rune following := by simp [token]
    rw [rule] at whole
    exact .literal (by simp) (.inr (kind_quotedLiteral (congrArg Prod.fst whole) known))
      fun c => by simp [mayGoOn]
  by_cases back : first = '\x60'
  · subst back
    have rule : token '\x60' following = rawString following := by simp [token]
    rw [rule] at whole
    refine .literal (by simp) (.inl ?_) fun c => by simp [mayGoOn]
    simp only [rawString] at whole
    split at whole
    · exact (congrArg Prod.fst whole).symm
    · exact (known (congrArg Prod.fst whole).symm).elim
  by_cases digit : first.isDigit = true
  · refine .number (.inl digit) ?_ fun c => by simp [mayGoOn, double, single, back, digit]
    rw [token, if_neg double, if_neg single, if_neg back, if_pos digit] at whole
    have numeral := @isNumeral_number first following
    rwa [whole] at numeral
  by_cases letter : beginsName first = true
  · refine .word letter (Bool.not_eq_true _ ▸ digit) ?_ fun c => by
      simp [mayGoOn, double, single, back, digit, letter]
    rw [token, if_neg double, if_neg single, if_neg back, if_neg digit, if_pos letter] at whole
    have isKind := word_cases first following
    rw [whole] at isKind
    rcases isKind with rfl | keyword
    · rfl
    · have words : ∀ entry ∈ TokenKind.keywords, entry.2.isWord = true := by decide
      exact words _ keyword
  by_cases point : first = '.' ∧ following.head?.any Char.isDigit = true
  · refine .number (.inr point.1) ?_ fun c => by
      rw [mayGoOn, if_neg (by simp [double, single, back]), if_neg digit, if_neg letter,
        if_pos point]
    rw [token, if_neg double, if_neg single, if_neg back, if_neg digit, if_neg letter,
      if_pos point] at whole
    have numeral := @isNumeral_imaginary following .float (fraction following) (.inr (.inl rfl))
    rwa [whole] at numeral
  · rcases token_cases first following with isOpen | keyword | operator
    · rw [token, if_neg double, if_neg single, if_neg back, if_neg digit, if_neg letter,
        if_neg point] at whole isOpen
      cases found : operator? (first :: following) with
      | none =>
        rw [found] at whole
        exact (known (congrArg Prod.fst whole).symm).elim
      | some entry =>
        rw [found] at isOpen
        have others : ∀ entry ∈ operators, ¬IsOpen entry.2 := by
          unfold IsOpen
          decide
        exact (others entry (List.mem_of_find?_eq_some found) isOpen).elim
    · have begins : ∀ entry ∈ TokenKind.keywords, entry.1.toList.head?.all beginsName = true := by
        decide +kernel
      exact (letter ((Option.all_eq_true _ _).mp (begins _ keyword) first (by simp))).elim
    · refine .operator ?_ fun c => by
        simp [mayGoOn, double, single, back, digit, letter, point]
      rw [whole] at operator
      simpa using operator

end Cut

/-- A text that is a token goes on as its rule says. -/
theorem exists_ruled (isToken : tokenKind? text = some kind) :
    ∃ first following, text.toList = first :: following ∧ Cut.Ruled first following kind ∧
      ∀ c, goesOn text c = Cut.mayGoOn first following c := by
  obtain ⟨first, following, chars, whole⟩ := exists_whole isToken
  refine ⟨first, following, chars, ?_, fun c => by simp [goesOn, chars]⟩
  exact Cut.ruled_of_token (Cut.token_of_measure whole.measured) (by simpa using whole.known)

/-! ## Texts that are cut off from each other -/

/-- The characters other than those of words that some token may go on with. -/
def continuations : List Char := ['.', '+', '-', '=', '&', '^', '<', '>', '|', '/', '*']

/-- A token goes on with a character of words or with a continuation. -/
theorem mem_continuations {c : Char} (isToken : tokenKind? text = some kind)
    (goes : goesOn text c = true) : Cut.continuesName c = true ∨ c ∈ continuations := by
  obtain ⟨first, following, -, ruled, same⟩ := exists_ruled isToken
  rw [same] at goes
  cases ruled with
  | literal quote isKind closed =>
    rw [closed] at goes
    cases goes
  | number begins numeral goesOn =>
    rw [goesOn, Cut.numberGoesOn, Bool.or_eq_true, Bool.or_eq_true, Bool.and_eq_true,
      Bool.or_eq_true, beq_iff_eq, beq_iff_eq, beq_iff_eq] at goes
    rcases goes with (word | rfl) | ⟨rfl | rfl, -⟩
    · exact .inl word
    all_goals exact .inr (by decide)
  | word begins digit isKind goesOn =>
    rw [goesOn] at goes
    exact .inl goes
  | operator mem goesOn =>
    rw [goesOn] at goes
    rcases Cut.mem_operatorFollows goes with follows | ⟨-, digit⟩ | ⟨-, rfl | rfl⟩
    · have all : ∀ entry ∈ Cut.operators, Cut.operatorFollows entry.1 ⊆ continuations := by decide
      exact .inr (all _ mem follows)
    · exact .inl (Cut.continuesName_of_isHexadecimal (by simp [Cut.isHexadecimal, Cut.isDecimal, digit]))
    all_goals exact .inr (by decide)

/-- Texts that no token goes on with. -/
def closers : List String := ["(", ")", "[", "]", "\x7b", "\x7d", ",", ";", ":"]

theorem cutOff_closers (isToken : tokenKind? text = some kind) (mem : next ∈ closers) :
    CutOff text next := by
  intro c first
  by_contra goes
  have others : ∀ next ∈ closers, (next.toList.head?.all fun c =>
      decide (Cut.continuesName c = false ∧ c ∉ continuations)) = true := by decide +kernel
  obtain ⟨word, other⟩ := forall_mem_of_all (others next mem) c first
  rcases mem_continuations isToken (Bool.not_eq_false _ ▸ goes) with isWord | continues
  · cases isWord.symm.trans word
  · exact other continues

/-- An operator goes on with what makes a longer one, or another token, of it. -/
theorem goesOn_operator (mem : (text.toList, kind) ∈ Cut.operators) (c : Char) :
    goesOn text c = Cut.operatorGoesOn text.toList c := by
  have plain : ∀ entry ∈ Cut.operators, (entry.1.head?.all fun first =>
      decide (¬(first = '\x22' ∨ first = '\x27' ∨ first = '\x60') ∧ first.isDigit = false ∧
        Cut.beginsName first = false ∧
          ¬(first = '.' ∧ entry.1.tail.head?.any Char.isDigit = true))) = true := by decide +kernel
  unfold goesOn
  cases chars : text.toList with
  | nil =>
    have filled : ∀ entry ∈ Cut.operators, entry.1 ≠ [] := by decide
    exact (filled _ mem chars).elim
  | cons first following =>
    obtain ⟨quote, digit, word, point⟩ := forall_mem_of_all (plain _ mem) first (by simp [chars])
    simp only [chars, List.tail_cons] at point
    simp [Cut.mayGoOn, quote, digit, word, point]

/-- Texts that go on with nothing. -/
def calmTexts : List String := ["(", ")", "[", "]", "\x7b", "\x7d", ",", ";", "..."]

theorem cutOff_of_calm (mem : text ∈ calmTexts) (next : String) : CutOff text next := by
  have all : ∀ text ∈ calmTexts, (∃ entry ∈ Cut.operators, entry.1 = text.toList) ∧
      Cut.operatorFollows text.toList = [] ∧ text.toList ≠ ['.'] ∧ text.toList ≠ ['/'] := by decide
  obtain ⟨⟨⟨chars, kind⟩, mem, rfl⟩, none, point, slash⟩ := all text mem
  intro c _
  by_contra goes
  rw [goesOn_operator mem, Bool.not_eq_false] at goes
  rcases Cut.mem_operatorFollows goes with follows | ⟨same, -⟩ | ⟨same, -⟩
  · rw [none] at follows
    cases follows
  · exact point same
  · exact slash same

/-! ## Texts that may touch -/

/-- The only tokens that end with an opening bracket are the brackets. -/
theorem mem_calmTexts_of_openings (isToken : tokenKind? text = some kind) {c : Char}
    (last : text.toList.getLast? = some c) (opens : c ∈ openings) : text ∈ calmTexts := by
  have noWord : kind.isWord = false := by
    by_contra word
    have isWord : isWord text = true := by
      obtain ⟨first, following, chars, whole⟩ := exists_whole isToken
      have text_eq : text = Piece.text ⟨.token kind, first, following⟩ :=
        String.toList_inj.mp (chars.trans String.toList_ofList.symm)
      rw [text_eq, whole.isWord_text]
      exact Bool.not_eq_false _ ▸ word
    exact getLast?_of_isWord isWord c last opens
  obtain ⟨first, following, chars, ruled, -⟩ := exists_ruled isToken
  cases ruled with
  | literal quote isKind closed => rcases isKind with rfl | rfl <;> cases noWord
  | number begins numeral goesOn => rcases numeral with rfl | rfl | rfl <;> cases noWord
  | word begins digit isKind goesOn => cases isKind.symm.trans noWord
  | operator mem goesOn =>
    have brackets : ∀ entry ∈ Cut.operators, (entry.1.getLast?.all fun c =>
        decide (c ∈ openings → String.ofList entry.1 ∈ calmTexts)) = true := by decide
    rw [chars] at last
    have found := forall_mem_of_all (brackets _ mem) c last opens
    rwa [← chars, String.ofList_toList] at found

/-- Behind a token that ends a statement, a point or a step fuses with a number alone. -/
theorem mayTouch_of_endsStatement (isToken : tokenKind? text = some kind)
    (ends : kind.endsStatement = true) (mem : next ∈ [".", "...", "++", "--"]) :
    MayTouch text next := by
  intro _
  obtain ⟨first, following, chars, ruled, same⟩ := exists_ruled isToken
  have signs : ∀ next ∈ [".", "...", "++", "--"], (next.toList.head?.all fun c =>
      decide (Cut.continuesName c = false)) = true := by decide +kernel
  cases ruled with
  | literal quote isKind closed => exact .inl fun c _ => by rw [same, closed]
  | number begins numeral goesOn =>
    refine .inr (.inr ⟨?_, mem⟩)
    rw [isNumeral, isToken]
    rcases numeral with rfl | rfl | rfl <;> rfl
  | word begins digit isKind goesOn =>
    refine .inl fun c first => ?_
    rw [same, goesOn]
    exact forall_mem_of_all (signs next mem) c first
  | operator mem' goesOn =>
    refine .inl fun c head => ?_
    have follows : ∀ entry ∈ Cut.operators, entry.2.endsStatement = true →
        Cut.operatorFollows entry.1 = [] ∧ entry.1 ≠ ['.'] ∧ entry.1 ≠ ['/'] := by decide
    obtain ⟨none, point, slash⟩ := follows _ mem' ends
    rw [same, goesOn]
    by_contra goes
    rcases Cut.mem_operatorFollows (Bool.not_eq_false _ ▸ goes) with found | ⟨found, -⟩ | ⟨found, -⟩
    · rw [none] at found
      cases found
    · exact point found
    · exact slash found

/-- A point does not go on with a name. -/
theorem cutOff_point (isName : tokenKind? next = some .name) : CutOff "." next := by
  obtain ⟨first, following, chars, ruled, -⟩ := exists_ruled isName
  intro c head
  obtain rfl : first = c := by simpa [chars] using head
  have isPoint : (".".toList, TokenKind.dot) ∈ Cut.operators := by decide
  rw [goesOn_operator isPoint]
  by_contra goes
  have begins : Cut.beginsName first = true ∧ first.isDigit = false := by
    cases ruled with
    | literal quote isKind closed => rcases isKind with isKind | isKind <;> cases isKind
    | number begins numeral goesOn => rcases numeral with kind | kind | kind <;> cases kind
    | word begins digit isKind goesOn => exact ⟨begins, digit⟩
    | operator mem goesOn =>
      have others : ∀ entry ∈ Cut.operators, entry.2 ≠ .name := by decide
      exact (others _ mem rfl).elim
  rcases Cut.mem_operatorFollows (Bool.not_eq_false _ ▸ goes) with follows | ⟨-, digit⟩ | ⟨found, -⟩
  · have point : ∀ c ∈ Cut.operatorFollows ['.'], Cut.beginsName c = false :=
      List.all_iff_forall_prop.mp (by decide +kernel)
    cases begins.1.symm.trans (point first follows)
  · cases digit.symm.trans begins.2
  · cases found

end GoTrivia
