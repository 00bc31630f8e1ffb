import Mathlib.Data.List.Chain
import GoTrivia.Proofs.Decorating.Threading
import GoTrivia.Proofs.Grammar.Openings
import GoTrivia.Proofs.Token.Lexing

/-!
# Commas between tokens

In a text without diagnostics a comma stands between two things, or between the last element of a
list and the bracket that closes the list.  So a comma has a token behind it that is neither another
comma nor a semicolon (`CommasInside`), and a separator behind the last element of a list stands
right in front of a closing bracket.
-/

set_option autoImplicit false

namespace GoTrivia

/-! ## Shapes with commas -/

/-- Whether the first slot that is filled is one for a comma. -/
def leadsComma : List AnchorShape → List Bool → Bool
  | shape :: shapes, filled :: present =>
    if filled then shape.slot == .token (.fixed ",") else leadsComma shapes present
  | _, _ => false

/-- Whether each anchor for a comma has others behind it that begin neither with a semicolon nor
with a comma, and the last of them is filled. -/
def coversCommas : List AnchorShape → List Bool → Bool
  | shape :: shapes, _ :: present =>
    (shape.slot != .token (.fixed ",") ||
      (shapes.all AnchorShape.isSolid && !leadsComma shapes present &&
        present.getLast? == some true)) &&
      coversCommas shapes present
  | _, _ => true

theorem leadsComma_of_forall {shapes : List AnchorShape}
    (plain : ∀ shape ∈ shapes, shape.slot ≠ .token (.fixed ",")) (present : List Bool) :
    leadsComma shapes present = false := by
  induction shapes generalizing present with
  | nil => rfl
  | cons shape shapes ih =>
    obtain ⟨here, later⟩ := List.forall_mem_cons.mp plain
    cases present with
    | nil => rfl
    | cons filled present =>
      rw [leadsComma, ih later]
      simp [here]

theorem coversCommas_of_forall {shapes : List AnchorShape}
    (plain : ∀ shape ∈ shapes, shape.slot ≠ .token (.fixed ",")) (present : List Bool) :
    coversCommas shapes present = true := by
  induction shapes generalizing present with
  | nil => rfl
  | cons shape shapes ih =>
    obtain ⟨here, later⟩ := List.forall_mem_cons.mp plain
    cases present with
    | nil => rfl
    | cons filled present =>
      rw [coversCommas, ih later]
      simp [here]

/-- The one shape with a comma has something in front of it, and behind it, that has to be there. -/
theorem commas_of_mayFill {kind : NodeKind} {present : List Bool}
    (lengths : (standardShape kind).anchors.length = present.length)
    (may : mayFill kind present = true) :
    leadsComma (standardShape kind).anchors present = false ∧
      coversCommas (standardShape kind).anchors present = true := by
  by_cases isRange : kind = .rangeStmt
  · subst isRange
    have covered : ∀ a b c d e f g h : Bool, mayFill .rangeStmt [a, b, c, d, e, f, g, h] = true →
        leadsComma (standardShape .rangeStmt).anchors [a, b, c, d, e, f, g, h] = false ∧
          coversCommas (standardShape .rangeStmt).anchors [a, b, c, d, e, f, g, h] = true := by
      decide
    match present, lengths with
    | [a, b, c, d, e, f, g, h], _ => exact covered a b c d e f g h may
  · have plain : ∀ shape ∈ (standardShape kind).anchors, shape.slot ≠ .token (.fixed ",") := by
      revert isRange
      cases kind <;> decide
    exact ⟨leadsComma_of_forall plain present, coversCommas_of_forall plain present⟩

/-! ## Tokens with commas in between -/

/-- Known tokens in which each comma has a token behind it that is neither a comma nor a semicolon,
unless it is the last one. -/
structure CommasApart (tokens : List Token) : Prop where
  known : ∀ token ∈ tokens, token.kind ≠ .unknown
  behind : tokens.IsChain fun token next =>
    token.kind = .comma → next.kind ≠ .comma ∧ next.kind ≠ .semicolon

/-- Such tokens that do not end with a comma. -/
structure CommasInside (tokens : List Token) : Prop extends CommasApart tokens where
  last : ∀ token ∈ tokens.getLast?, token.kind ≠ .comma

section Tokens

variable {front tokens : List Token} {token : Token}

theorem CommasApart.append (apart : CommasApart front) (more : CommasApart tokens)
    (joins : ∀ last ∈ front.getLast?, last.kind = .comma → ∀ next ∈ tokens.head?,
      next.kind ≠ .comma ∧ next.kind ≠ .semicolon) : CommasApart (front ++ tokens) where
  known := List.forall_mem_append.mpr ⟨apart.known, more.known⟩
  behind := List.isChain_append.mpr ⟨apart.behind, more.behind,
    fun last isLast next isNext isComma => joins last isLast isComma next isNext⟩

theorem commasApart_single (known : token.kind ≠ .unknown) : CommasApart [token] :=
  ⟨List.forall_mem_singleton.mpr known, .singleton token⟩

theorem commasInside_nil : CommasInside [] :=
  ⟨⟨List.forall_mem_nil _, .nil⟩, fun _ found => by cases found⟩

theorem commasInside_single (known : token.kind ≠ .unknown) (other : token.kind ≠ .comma) :
    CommasInside [token] :=
  ⟨commasApart_single known, fun _ found => Option.some.inj found ▸ other⟩

theorem CommasApart.inside (apart : CommasApart front) (more : CommasInside tokens)
    (joins : ∀ last ∈ front.getLast?, last.kind = .comma →
      ∃ next rest, tokens = next :: rest ∧ next.kind ≠ .comma ∧ next.kind ≠ .semicolon) :
    CommasInside (front ++ tokens) where
  toCommasApart := apart.append more.toCommasApart fun last isLast isComma next isNext => by
    obtain ⟨first, rest, rfl, other⟩ := joins last isLast isComma
    exact Option.some.inj isNext ▸ other
  last token isLast := by
    rw [List.getLast?_append] at isLast
    rcases Option.or_eq_some_iff.mp isLast with behind | ⟨none, here⟩
    · exact more.last token behind
    · intro isComma
      obtain ⟨first, rest, rfl, -⟩ := joins token here isComma
      simp at none

theorem CommasInside.append (inside : CommasInside front) (more : CommasInside tokens) :
    CommasInside (front ++ tokens) :=
  inside.toCommasApart.inside more fun last isLast isComma =>
    (inside.last last isLast isComma).elim

end Tokens

/-! ## Parsed trees -/

theorem TokenFits.known {text : TokenText} {kind : TokenKind} (fits : TokenFits text kind) :
    kind ≠ .unknown := by
  cases text with
  | free => exact fits.2.2.1
  | fixed text =>
    rintro rfl
    cases fits

theorem TokenFits.eq_comma {text : TokenText} (fits : TokenFits text .comma) :
    text = .fixed "," := by
  cases text with
  | free => exact (fits.2.2.2 rfl).elim
  | fixed text => exact congrArg TokenText.fixed (Option.some.inj fits).symm

theorem SpellsTerminated.ne_nil : ∀ {nodes : List Positional} {tokens : List Token},
    SpellsTerminated nodes tokens → nodes ≠ [] → tokens ≠ []
  | _, _, .nil, filled => (filled rfl).elim
  | _, _, .skip _ _, _ => List.cons_ne_nil _ _
  | _, _, .cons content _, _ => List.append_ne_nil_of_left_ne_nil content.ne_nil _

/-- What fills a slot has tokens. -/
theorem SpellsSlots.ne_nil : ∀ {kind : NodeKind} {shapes : List AnchorShape}
    {slots : List PositionalSlot} {tokens : List Token}, SpellsSlots kind shapes slots tokens →
    true ∈ slots.map Slot.isPresent → tokens ≠ []
  | _, _, _, _, .nil, filled => by cases filled
  | _, shape :: _, _, _, .vacant empty rest, filled => by
      have absent : (Slot.vacant shape.slot : PositionalSlot).isPresent = false := by
        cases shape.slot <;> rfl
      rw [empty, List.map_cons, absent] at filled
      exact rest.ne_nil (by simpa using filled)
  | _, _, _, _, .token _ _ _ _, _ => List.cons_ne_nil _ _
  | _, _, _, _, .child _ content _ _, _ => List.append_ne_nil_of_left_ne_nil content.ne_nil _
  | _, _, _, _, .separated _ _ content _ rest, filled => by
      rcases content.opensSolid with ⟨rfl, -⟩ | ⟨-, some⟩
      · exact List.append_ne_nil_of_right_ne_nil _ (rest.ne_nil (by simpa using filled))
      · exact List.append_ne_nil_of_left_ne_nil some _
  | _, _, _, _, @SpellsSlots.terminated _ _ _ _ nodes _ _ _ _ _ content rest, filled => by
      cases nodes with
      | nil => exact List.append_ne_nil_of_right_ne_nil _ (rest.ne_nil (by simpa using filled))
      | cons node nodes =>
        exact List.append_ne_nil_of_left_ne_nil (content.ne_nil (List.cons_ne_nil _ _)) _

/-- Tokens that do not begin with a comma. -/
def OpensPlain (tokens : List Token) : Prop := ∀ first ∈ tokens.head?, first.kind ≠ .comma

theorem OpensPlain.append {front tokens : List Token} (opens : OpensPlain front)
    (empty : front = [] → OpensPlain tokens) : OpensPlain (front ++ tokens) := by
  cases front with
  | nil => exact empty rfl
  | cons first front => exact opens

mutual
/-- No tree begins with a comma. -/
theorem Spells.opensPlain : ∀ {tree : Positional} {tokens : List Token}, Spells tree tokens →
    OpensPlain tokens
  | _, _, .node content filled _ _ _ _ =>
      content.opensPlain (commas_of_mayFill (by simpa using content.fits.1) filled).1

theorem SpellsSlots.opensPlain : ∀ {kind : NodeKind} {shapes : List AnchorShape}
    {slots : List PositionalSlot} {tokens : List Token}, SpellsSlots kind shapes slots tokens →
    leadsComma shapes (slots.map Slot.isPresent) = false → OpensPlain tokens
  | _, _, _, _, .nil, _ => fun _ found => by cases found
  | _, shape :: _, _, _, .vacant empty rest, plain => by
      have absent : (Slot.vacant shape.slot : PositionalSlot).isPresent = false := by
        cases shape.slot <;> rfl
      rw [empty, List.map_cons, absent] at plain
      exact rest.opensPlain plain
  | _, _, _, _, .token isToken fits _ _, plain => by
      rintro _ ⟨⟩ isComma
      rw [isComma] at fits
      simp [leadsComma, isToken, fits.eq_comma] at plain
  | _, _, _, _, .child _ content _ _, _ =>
      content.opensPlain.append fun none => (content.ne_nil none).elim
  | _, _, _, _, .separated _ _ content _ rest, plain => by
      rcases content.opensPlain with ⟨rfl, rfl⟩ | ⟨opens, some⟩
      · exact rest.opensPlain plain
      · exact opens.append fun none => (some none).elim
  | _, _, _, _, @SpellsSlots.terminated _ _ _ _ nodes _ _ _ _ _ content rest, plain => by
      refine content.opensPlain.append fun none => rest.opensPlain ?_
      cases nodes with
      | nil => exact plain
      | cons node nodes => exact (content.ne_nil (List.cons_ne_nil _ _) none).elim

theorem SpellsSeparated.opensPlain : ∀ {nodes : List Positional} {separators : List Span}
    {tokens : List Token}, SpellsSeparated nodes separators tokens →
    (nodes = [] ∧ tokens = []) ∨ (OpensPlain tokens ∧ tokens ≠ [])
  | _, _, _, .nil => .inl ⟨rfl, rfl⟩
  | _, _, _, .last content _ => .inr ⟨content.opensPlain, content.ne_nil⟩
  | _, _, _, .cons content _ _ _ =>
      .inr ⟨content.opensPlain.append fun none => (content.ne_nil none).elim, by simp⟩

theorem SpellsTerminated.opensPlain : ∀ {nodes : List Positional} {tokens : List Token},
    SpellsTerminated nodes tokens → OpensPlain tokens
  | _, _, .nil => fun _ found => by cases found
  | _, _, .skip isSemicolon _ => by
      rintro _ ⟨⟩ isComma
      cases isSemicolon.symm.trans isComma
  | _, _, .cons content _ => content.opensPlain.append fun none => (content.ne_nil none).elim
end

/-- The elements of a list do not begin with a comma or a semicolon. -/
theorem SpellsSeparated.head_ne {nodes : List Positional} {separators : List Span}
    {tokens : List Token} (content : SpellsSeparated nodes separators tokens) :
    ∀ next ∈ tokens.head?, next.kind ≠ .comma ∧ next.kind ≠ .semicolon := by
  intro next found
  rcases content.opensPlain with ⟨-, rfl⟩ | ⟨plain, -⟩
  · cases found
  rcases content.opensSolid with ⟨-, rfl⟩ | ⟨solid, -⟩
  · cases found
  exact ⟨plain next found, solid next found⟩

/-- A closing bracket is neither a comma nor a semicolon. -/
theorem Closing.exists_head {tokens : List Token} (closing : Closing tokens) :
    ∃ next rest, tokens = next :: rest ∧ next.kind ≠ .comma ∧ next.kind ≠ .semicolon := by
  obtain ⟨first, rest, rfl, closes⟩ := closing
  refine ⟨first, rest, rfl, ?_, ?_⟩ <;> (intro same; rw [same] at closes; cases closes)

mutual
/-- The commas of a tree stand inside. -/
theorem Spells.commasInside : ∀ {tree : Positional} {tokens : List Token}, Spells tree tokens →
    CommasInside tokens
  | _, _, .node content filled _ _ _ _ =>
      content.commasInside (commas_of_mayFill (by simpa using content.fits.1) filled).2

theorem SpellsSlots.commasInside : ∀ {kind : NodeKind} {shapes : List AnchorShape}
    {slots : List PositionalSlot} {tokens : List Token}, SpellsSlots kind shapes slots tokens →
    coversCommas shapes (slots.map Slot.isPresent) = true → CommasInside tokens
  | _, _, _, _, .nil, _ => commasInside_nil
  | _, _, _, _, .vacant _ rest, covers => rest.commasInside (Bool.and_eq_true_iff.mp covers).2
  | _, _, _, _, @SpellsSlots.token _ _ _ _ token _ tokens isToken fits _ rest, covers => by
      obtain ⟨here, covers⟩ := Bool.and_eq_true_iff.mp covers
      have own : CommasApart [token] := commasApart_single fits.known
      refine own.inside (rest.commasInside covers) fun last isLast isComma => ?_
      obtain rfl : token = last := Option.some.inj isLast
      rw [isComma] at fits
      simp only [isToken, fits.eq_comma, bne_self_eq_false, Bool.false_or, Bool.and_eq_true,
        Bool.not_eq_true', beq_iff_eq] at here
      obtain ⟨⟨solid, plain⟩, filled⟩ := here
      obtain ⟨next, others, rfl⟩ :=
        List.exists_cons_of_ne_nil (rest.ne_nil (List.mem_of_getLast? filled))
      exact ⟨next, others, rfl, rest.opensPlain plain next rfl,
        rest.opensSolid (opensSolid_of_forall solid _) next rfl⟩
  | _, _, _, _, .child _ content _ rest, covers =>
      content.commasInside.append (rest.commasInside (Bool.and_eq_true_iff.mp covers).2)
  | _, _, _, _, .separated _ _ content closed rest, covers => by
      obtain ⟨apart, trailing⟩ := content.commasApart
      refine apart.inside (rest.commasInside (Bool.and_eq_true_iff.mp covers).2)
        fun last isLast isComma => ?_
      obtain ⟨same, some⟩ := trailing last isLast isComma
      exact (closed same some).exists_head
  | _, _, _, _, .terminated _ _ content rest, covers =>
      content.commasInside.append (rest.commasInside (Bool.and_eq_true_iff.mp covers).2)

/-- The commas of a list stand between its elements, and perhaps behind the last one. -/
theorem SpellsSeparated.commasApart : ∀ {nodes : List Positional} {separators : List Span}
    {tokens : List Token}, SpellsSeparated nodes separators tokens →
    CommasApart tokens ∧ ∀ last ∈ tokens.getLast?, last.kind = .comma →
      nodes.length = separators.length ∧ nodes ≠ []
  | _, _, _, .nil => ⟨commasInside_nil.toCommasApart, fun _ found => by cases found⟩
  | _, _, _, .last content _ =>
      ⟨content.commasInside.toCommasApart, fun last isLast isComma =>
        (content.commasInside.last last isLast isComma).elim⟩
  | _, _, _, @SpellsSeparated.cons _ _ comma _ front tokens content _ isComma rest => by
      obtain ⟨apart, trailing⟩ := rest.commasApart
      have inside := content.commasInside
      have comma' : CommasApart [comma] := commasApart_single (by simp [isComma])
      have behind : CommasApart ([comma] ++ tokens) :=
        comma'.append apart fun _ _ _ => rest.head_ne
      refine ⟨inside.toCommasApart.append behind fun last isLast isComma =>
        (inside.last last isLast isComma).elim, fun last isLast isComma => ?_⟩
      refine ⟨?_, List.cons_ne_nil _ _⟩
      rw [List.getLast?_append_of_ne_nil _ (List.cons_ne_nil _ _)] at isLast
      rcases rest.opensSolid with ⟨rfl, rfl⟩ | ⟨-, some⟩
      · cases rest
        rfl
      · rw [List.getLast?_cons_of_ne_nil some] at isLast
        exact congrArg (· + 1) (trailing last isLast isComma).1

theorem SpellsTerminated.commasInside : ∀ {nodes : List Positional} {tokens : List Token},
    SpellsTerminated nodes tokens → CommasInside tokens
  | _, _, .nil => commasInside_nil
  | _, _, @SpellsTerminated.skip _ semicolon _ isSemicolon rest => by
      have own : CommasInside [semicolon] :=
        commasInside_single (by simp [isSemicolon]) (by simp [isSemicolon])
      exact own.append rest.commasInside
  | _, _, .cons content rest => content.commasInside.append rest.commasInside
end

/-- In a text without diagnostics the commas stand inside of the tokens in front of its end. -/
theorem exists_commasInside {text : String} (clean : (parse text).diagnostics = []) :
    ∃ front last, (lex text).tokens = front ++ [last] ∧ last.kind = .eof ∧ CommasInside front := by
  have spells := spellsFile_parse (lawful_lex text) clean
  generalize (parse text).tree.root = root at spells
  generalize (lex text).tokens = tokens at spells
  cases spells with
  | @file slots front first last content filled begins isEnd =>
    exact ⟨front, last, rfl, isEnd,
      content.commasInside (commas_of_mayFill (by simpa using content.fits.1) filled).2⟩

/-- The tokens of a text without diagnostics are known. -/
theorem known_of_clean {text : String} (clean : (parse text).diagnostics = []) :
    ∀ token ∈ (lex text).tokens, token.kind ≠ .unknown := by
  obtain ⟨front, last, split, isEnd, inside⟩ := exists_commasInside clean
  rw [split]
  exact List.forall_mem_append.mpr ⟨inside.known, List.forall_mem_singleton.mpr (by simp [isEnd])⟩

/-- **Commas.** In a text without diagnostics a comma has a token behind it that is not another
comma, no semicolon and not the end of the text. -/
theorem exists_behind_comma {text : String} (clean : (parse text).diagnostics = []) {comma : Token}
    {tokens : List Token} (suffix : comma :: tokens <:+ (lex text).tokens)
    (isComma : comma.kind = .comma) :
    ∃ next rest, tokens = next :: rest ∧ next.kind ≠ .comma ∧ next.isSolid = true := by
  obtain ⟨front, last, split, isEnd, inside⟩ := exists_commasInside clean
  have noEnd : ∀ token ∈ front, token.kind ≠ .eof := by
    obtain ⟨front', ended, others⟩ := ended_lex text
    obtain ⟨rfl, -⟩ := List.append_inj' (split.symm.trans ended) rfl
    exact others
  rw [split] at suffix
  rcases List.eq_nil_or_concat tokens with rfl | ⟨middle, final, rfl⟩
  · obtain ⟨before, same⟩ := suffix
    obtain ⟨-, same⟩ := List.append_inj' same rfl
    obtain rfl := (List.cons.inj same).1
    cases isComma.symm.trans isEnd
  · rw [List.concat_eq_append, ← List.cons_append] at suffix
    obtain ⟨before, same⟩ := suffix
    rw [← List.append_assoc] at same
    obtain ⟨rfl, -⟩ := List.append_inj' same rfl
    cases middle with
    | nil => exact (inside.last comma (by simp) isComma).elim
    | cons next middle =>
      obtain ⟨other, noSemicolon⟩ :=
        (List.isChain_cons_cons.mp (List.isChain_append.mp inside.behind).2.1).1 isComma
      refine ⟨next, middle ++ [final], by simp, other, ?_⟩
      simp [Token.isSolid, noSemicolon, noEnd next (by simp)]

/-! ## Separators behind the last element -/

/-- Among tokens there is a comma at a place that has a closing bracket behind it. -/
def TrailingIn (tokens : List Token) (separator : Span) : Prop :=
  ∃ comma next, [comma, next] <:+: tokens ∧ comma.kind = .comma ∧ comma.span = separator ∧
    next.kind.isClosing = true

theorem TrailingIn.mono {tokens whole : List Token} {separator : Span}
    (closes : TrailingIn tokens separator) (inside : tokens <:+: whole) :
    TrailingIn whole separator := by
  obtain ⟨comma, next, within, isComma⟩ := closes
  exact ⟨comma, next, within.trans inside, isComma⟩

/-- A list that has a separator behind each element ends with one. -/
theorem SpellsSeparated.exists_comma {separator : Span} : ∀ {nodes : List Positional}
    {separators : List Span} {tokens : List Token}, SpellsSeparated nodes separators tokens →
    separators[nodes.length - 1]? = some separator →
      nodes.length = separators.length ∧ nodes ≠ [] ∧ ∃ front comma, tokens = front ++ [comma] ∧
        comma.kind = .comma ∧ comma.span = separator
  | _, _, _, .nil, found => by simp at found
  | _, _, _, .last _ _, found => by simp at found
  | _, _, _, @SpellsSeparated.cons _ _ comma _ front _ _ _ isComma .nil, found => by
      obtain rfl : comma.span = separator := by simpa using found
      exact ⟨rfl, by simp, front, comma, rfl, isComma, rfl⟩
  | _, _, _, .cons _ _ _ (.last _ _), found => by simp at found
  | _, _, _, @SpellsSeparated.cons _ _ comma _ front _ _ _ _ (.cons content ends isComma rest),
      found => by
      obtain ⟨same, some, inside, last, split, isLast⟩ :=
        (SpellsSeparated.cons content ends isComma rest).exists_comma (by simpa using found)
      refine ⟨congrArg (· + 1) same, by simp, front ++ comma :: inside, last, ?_, isLast⟩
      rw [split, List.append_assoc, List.cons_append]

theorem SpellsSlots.trailingIn {separator : Span} {slot : PositionalSlot}
    (trailing : trailingSeparator? slot = some separator) : ∀ {kind : NodeKind}
    {shapes : List AnchorShape} {slots : List PositionalSlot} {tokens : List Token},
    SpellsSlots kind shapes slots tokens → slot ∈ slots → TrailingIn tokens separator
  | _, _, _, _, .nil, mem => by cases mem
  | _, shape :: _, _, _, .vacant empty rest, mem => by
      rcases List.mem_cons.mp mem with rfl | behind
      · rw [empty] at trailing
        cases isSlot : shape.slot <;> rw [isSlot] at trailing <;> cases trailing
      · exact rest.trailingIn trailing behind
  | _, _, _, _, .token _ _ _ rest, mem => by
      rcases List.mem_cons.mp mem with rfl | behind
      · cases trailing
      · exact (rest.trailingIn trailing behind).mono (List.suffix_cons _ _).isInfix
  | _, _, _, _, .child _ _ _ rest, mem => by
      rcases List.mem_cons.mp mem with rfl | behind
      · cases trailing
      · exact (rest.trailingIn trailing behind).mono (List.suffix_append _ _).isInfix
  | _, _, _, _, .separated _ _ content closed rest, mem => by
      rcases List.mem_cons.mp mem with rfl | behind
      · obtain ⟨same, some, front, comma, rfl, isComma, spans⟩ := content.exists_comma trailing
        obtain ⟨next, others, rfl, closes⟩ := closed same some
        exact ⟨comma, next, ⟨front, others, by simp⟩, isComma, spans, closes⟩
      · exact (rest.trailingIn trailing behind).mono (List.suffix_append _ _).isInfix
  | _, _, _, _, .terminated _ _ _ rest, mem => by
      rcases List.mem_cons.mp mem with rfl | behind
      · simp [trailingSeparator?] at trailing
      · exact (rest.trailingIn trailing behind).mono (List.suffix_append _ _).isInfix

/-- A list that is put in order by a relation is cut in one way at values that it does not relate. -/
theorem eq_of_cut {α : Type} {before : α → α → Prop} {x y : α} {front back front' back' : List α}
    (ordered : (front ++ x :: back).Pairwise before)
    (same : front ++ x :: back = front' ++ y :: back') (forth : ¬before x y)
    (turned : ¬before y x) : front = front' ∧ x = y ∧ back = back' := by
  rcases List.append_eq_append_iff.mp same with ⟨more, rfl, split⟩ | ⟨more, rfl, split⟩
  · cases more with
    | nil => simpa using split
    | cons other more =>
      obtain ⟨rfl, rfl⟩ := List.cons.inj split
      have behind := (List.pairwise_append.mp ordered).2.1
      exact (forth (List.rel_of_pairwise_cons behind (by simp))).elim
  · cases more with
    | nil => simpa using split.symm
    | cons other more =>
      obtain ⟨rfl, rfl⟩ := List.cons.inj split
      rw [List.append_assoc, List.cons_append] at ordered
      have behind := (List.pairwise_append.mp ordered).2.1
      exact (turned (List.rel_of_pairwise_cons behind (by simp))).elim

/-- **Separators behind a last element.** In a text without diagnostics a token with the place of
such a separator is a comma, and the token behind it closes a bracket. -/
theorem closing_of_trailing {text : String} (clean : (parse text).diagnostics = [])
    {token : Token} {tokens : List Token} (suffix : token :: tokens <:+ (lex text).tokens)
    (trailing : token.span ∈ trailingSeparators (parse text).tree.root) :
    token.kind = .comma ∧ ∃ next rest, tokens = next :: rest ∧ next.kind.isClosing = true := by
  have lawful := lawful_lex text
  have spells := spellsFile_parse lawful clean
  generalize (parse text).tree.root = root at spells trailing
  obtain ⟨front, split⟩ := suffix
  obtain ⟨node, mem, found⟩ := List.mem_flatMap.mp trailing
  obtain ⟨slot, inSlots, isTrailing⟩ := List.mem_filterMap.mp found
  obtain ⟨inner, inside, -, content, -⟩ := spells.readIn node mem
  obtain ⟨comma, next, ⟨front', back, split'⟩, isComma, spans, closes⟩ :=
    (content.trailingIn isTrailing inSlots).mono inside
  rw [List.append_assoc, List.cons_append, List.cons_append, List.nil_append] at split'
  have wide := ((lawful.regular comma (by rw [← split']; simp)).visible (by simp [isComma])
    (by simp [isComma])).2
  rw [spans] at wide
  obtain ⟨-, rfl, rfl⟩ := eq_of_cut (split ▸ lawful.ordered) (split.trans split'.symm)
    (by rw [spans]; omega) (by rw [spans]; omega)
  exact ⟨isComma, next, back, rfl, closes⟩

end GoTrivia
