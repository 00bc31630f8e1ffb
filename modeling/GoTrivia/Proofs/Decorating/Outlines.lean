import GoTrivia.Proofs.Decorating.AnyText
import GoTrivia.Proofs.Token.Outline

/-!
# The outline decides

Two texts with the same outline have the same decorated tree.  The places of their items, one
by one, are what reading and decorating the two texts is compared by: the places stand in the
same order in either text, and the lines between them are as many where they count.
-/

set_option autoImplicit false

namespace GoTrivia

open Grammar

variable {text text' : String}

/-! ## Places side by side -/

/-- Offsets stand for each other if the same items begin or end there. -/
def Grammar.Pairing.outlined (same : outline text = outline text') : Pairing where
  offset a a' := (a, a') ∈ places text text'
  max := by
    rintro a b c d first second
    rcases paced_or_paced same first second with ⟨left, right, -⟩ | ⟨left, right, -⟩
    · rwa [show Nat.max a c = c from Nat.max_eq_right left,
        show Nat.max b d = d from Nat.max_eq_right right]
    · rwa [show Nat.max a c = a from Nat.max_eq_left left,
        show Nat.max b d = b from Nat.max_eq_left right]
  beyond := []
  beyond' := []

theorem forall₂_items (same : outline text = outline text') :
    List.Forall₂ (fun item item' => item.sign = item'.sign ∧
      (item, item') ∈ (items text).zip (items text')) (items text) (items text') := by
  obtain ⟨lengths, signs⟩ := List.forall₂_iff_zip.mp (pairwise_places same).1
  exact List.forall₂_iff_zip.mpr ⟨lengths, fun mem => ⟨signs mem, mem⟩⟩

theorem spans_outlined (same : outline text = outline text') {item item' : Item}
    (mem : (item, item') ∈ (items text).zip (items text')) :
    (Pairing.outlined same).Spans item.span item'.span := mem_places mem

/-- A token covers nothing exactly if it says nothing. -/
theorem isEmpty_span_eq {token : Token} (mem : token ∈ (lex text).tokens) :
    token.span.isEmpty = (token.text == "") := by
  have cites := Lex.cites_of_mem (mem_items_of_token mem)
  rw [Item.lexeme] at cites
  rw [Span.isEmpty, Bool.eq_iff_iff, beq_iff_eq, beq_iff_eq, cites.empty_iff]

theorem forall₂_tokens (same : outline text = outline text') :
    List.Forall₂ (Pairing.outlined same).Tokens (lex text).tokens (lex text').tokens := by
  refine List.rel_filterMap ?_ (forall₂_items same)
  rintro item item' ⟨sign, mem⟩
  have spans := spans_outlined same mem
  obtain ⟨left, right⟩ := List.of_mem_zip mem
  cases item with
  | comment comment closed =>
    cases item' with
    | comment comment' closed' => exact .none
    | token token' => cases sign
  | token token =>
    cases item' with
    | comment comment' closed' => cases sign
    | token token' =>
      obtain ⟨kind, text⟩ : token.kind = token'.kind ∧ token.text = token'.text := by
        simpa [Item.sign] using sign
      refine .some ⟨⟨text, spans⟩, kind, ?_⟩
      have empty := isEmpty_span_eq (List.mem_filterMap.mpr ⟨_, left, rfl⟩)
      have empty' := isEmpty_span_eq (List.mem_filterMap.mpr ⟨_, right, rfl⟩)
      rw [Token.isImplicit, Token.isImplicit, kind, empty, empty', text]

theorem forall₂_comments (same : outline text = outline text') :
    List.Forall₂ (Pairing.outlined same).Comments (lex text).comments (lex text').comments := by
  refine List.rel_filterMap ?_ (forall₂_items same)
  rintro item item' ⟨sign, mem⟩
  have spans := spans_outlined same mem
  obtain ⟨left, right⟩ := List.of_mem_zip mem
  cases item with
  | token token =>
    cases item' with
    | token token' => exact .none
    | comment comment' closed' => cases sign
  | comment comment closed =>
    cases item' with
    | token token' => cases sign
    | comment comment' closed' =>
      have inFront : ∀ {a a'}, (Pairing.outlined same).offset a a' → _ :=
        inFront_iff same mem (lt_of_mem_items left) (lt_of_mem_items right)
      exact .some ⟨⟨by simpa [Item.sign] using sign, spans⟩, fun place => (inFront place).1,
        fun place => (inFront place).2⟩

theorem lined_outlined (same : outline text = outline text') :
    (Pairing.outlined same).Lined (.ofText text) (.ofText text') (lineAt text) (lineAt text') where
  placed := by
    intro a a' isPlace
    obtain ⟨⟨item, item'⟩, mem, isSeam⟩ := List.mem_flatMap.mp isPlace
    obtain ⟨left, right⟩ := List.of_mem_zip mem
    have here := lineOf?_eq_lineAt (indexes_ofText text) left
    have here' := lineOf?_eq_lineAt (indexes_ofText text') right
    simp only [List.mem_cons, List.not_mem_nil, or_false, Prod.mk.injEq] at isSeam
    rcases isSeam with ⟨rfl, rfl⟩ | ⟨rfl, rfl⟩
    · exact ⟨here.1, here'.1⟩
    · exact ⟨here.2, here'.2⟩
  apart := feeds_eq same

theorem lengths_outlined (same : outline text = outline text') :
    (Pairing.outlined same).offset (byteLength text.toList) (byteLength text'.toList) := by
  have tokens := forall₂_tokens same
  obtain ⟨front, split, -⟩ := ended_lex text
  obtain ⟨front', split', -⟩ := ended_lex text'
  rw [split, split', ← List.forall₂_reverse_iff, List.reverse_append, List.reverse_append] at tokens
  exact (List.forall₂_cons.mp tokens).1.lexemes.spans.1

/-! ## Reading and decorating -/

/-- A text without diagnostics has no comment that is not terminated. -/
theorem unterminated_of_clean (clean : (parse text).diagnostics = []) :
    (lex text).unterminated = [] := by
  obtain ⟨state, run, diagnostics, -⟩ := run_parse text
  rw [diagnostics] at clean
  have begun := clean_of_run run clean
  obtain ⟨front, split, -⟩ := ended_lex text
  cases front with
  | nil =>
    rw [split] at begun
    exact List.map_eq_nil_iff.mp begun
  | cons token rest =>
    rw [split] at begun
    exact List.map_eq_nil_iff.mp begun

/-- **Decorating looks at outlines.** Texts of the same outline that fit the grammar have the
same decorated tree, and so the same print, whatever blanks stand between their items. -/
theorem decorate_congr {resolver resolver' : LineResolver} (indexes : resolver.Indexes text)
    (indexes' : resolver'.Indexes text') (clean : (parse text).diagnostics = [])
    (clean' : (parse text').diagnostics = []) (same : outline text = outline text') :
    (∃ tree, decorateWith resolver text = .ok tree ∧ decorateWith resolver' text' = .ok tree) ∧
      (decorateWith resolver text >>= print) = (decorateWith resolver' text' >>= print) := by
  have unterminated : List.Forall₂ (Pairing.outlined same).Reports
      ((lex text).unterminated.map unterminatedComment)
      ((lex text').unterminated.map unterminatedComment) := by
    rw [unterminated_of_clean clean, unterminated_of_clean clean']
    exact .nil
  have roots := (goes_parse rfl rfl (forall₂_tokens same) (lengths_outlined same) unterminated).1
  have comments := forall₂_comments same
  have kinded := kinded_parse clean'
  have metadata : (parse text).tree.metadata = (parse text').tree.metadata := by
    rw [metadata_parse, metadata_parse]
    exact roots.fileMetadata_eq comments
  rw [decorateWith_eq indexes, decorateWith_eq indexes', decorate_of_clean clean,
    decorate_of_clean clean']
  rw [← comments_parse, ← comments_parse] at comments
  generalize (parse text).tree = source at roots comments metadata
  generalize (parse text').tree = source' at roots comments kinded metadata
  obtain ⟨tree, decorated, decorated'⟩ :=
    decorate_abreast rfl rfl (lined_outlined same) roots kinded comments metadata
  rw [decorated, decorated']
  exact ⟨⟨tree, rfl, rfl⟩, rfl⟩

/-- A program with as few blanks as it gets. -/
def tightProgram : String := "//go:build go1.21\npackage p\n\nvar x=f(a/* b */,\nc)// d\n"

/-- The same program with blanks all over it. -/
def looseProgram : String :=
  " \n\t//go:build go1.21\npackage\tp \n\r\n \n\t var x = f ( a\t/* b */ ,\r\n  c ) // d\n "

/-- The two are decorated the same. -/
theorem decorate_looseProgram :
    (parse tightProgram).diagnostics = [] ∧ (parse looseProgram).diagnostics = [] ∧
      outline tightProgram = outline looseProgram ∧ tightProgram ≠ looseProgram ∧
      (∃ tree, decorate tightProgram = .ok tree ∧ decorate looseProgram = .ok tree) ∧
        (decorate tightProgram >>= print) = (decorate looseProgram >>= print) := by
  have clean : (parse tightProgram).diagnostics = [] := by decide +kernel
  have clean' : (parse looseProgram).diagnostics = [] := by decide +kernel
  have same : outline tightProgram = outline looseProgram := by decide +kernel
  exact ⟨clean, clean', same, by decide +kernel,
    decorate_congr (indexes_ofText _) (indexes_ofText _) clean clean' same⟩

end GoTrivia
