import GoTrivia.Proofs.Decorating.Abreast
import GoTrivia.Proofs.Decorating.Parsed
import GoTrivia.Proofs.Grammar.Total
import GoTrivia.Proofs.Token.LineFeeds

/-!
# Any text is decorated

Whatever the grammar makes of a text, each offset in its tree was taken from a token, a
comment or the end of the text, and so lies between two characters.  Reading the text abreast
with itself shows this, comparing offsets that are the same and lie there.  With slots of the
right kinds besides, nothing keeps the tree from being decorated, and it is decorated the same
by all resolvers that number the lines of the text.
-/

set_option autoImplicit false

namespace GoTrivia

open CommentGap (Resolves)
open Grammar

variable {text : String}

/-! ## Offsets between characters -/

/-- An offset between two characters of a text or at either end. -/
def IsBoundary (text : String) (offset : Nat) : Prop :=
  ∃ front back, text.toList = front ++ back ∧ offset = byteLength front

/-- Every such offset is placed on a line, and nodes are found where they stand. -/
structure LineResolver.PlacesAll (resolver : LineResolver) (text : String) : Prop where
  stands : resolver.resolve = Positional.span
  places : ∀ offset, IsBoundary text offset → ∃ line, resolver.lineOf? offset = some line

theorem LineResolver.Indexes.placesAll {resolver : LineResolver}
    (indexes : resolver.Indexes text) : resolver.PlacesAll text where
  stands := indexes.stands
  places := by
    rintro offset ⟨front, back, split, rfl⟩
    exact ⟨_, indexes.counts split⟩

theorem isBoundary_byteLength (text : String) : IsBoundary text (byteLength text.toList) :=
  ⟨text.toList, [], (List.append_nil _).symm, rfl⟩

theorem isBoundary_of_mem_items {item : Item} (mem : item ∈ items text) :
    IsBoundary text item.span.start ∧ IsBoundary text item.span.stop := by
  obtain ⟨front, inside, back, split, spans⟩ := Lex.covers_of_mem mem
  rw [flatMap_chars_pieces] at split
  rw [spans, Nat.zero_add, Nat.zero_add]
  exact ⟨⟨front, inside ++ back, split, rfl⟩,
    ⟨front ++ inside, back, split.trans (List.append_assoc _ _ _).symm, rfl⟩⟩

/-! ## The tree of a text -/

/-- Offsets stand for themselves if they lie between characters. -/
def Grammar.Pairing.between (text : String) : Pairing where
  offset a b := a = b ∧ IsBoundary text a
  max := by
    rintro a _ c _ ⟨rfl, first⟩ ⟨rfl, second⟩
    refine ⟨rfl, ?_⟩
    rcases Nat.le_total a c with le | le
    · rwa [show Nat.max a c = c from Nat.max_eq_right le]
    · rwa [show Nat.max a c = a from Nat.max_eq_left le]
  beyond := []
  beyond' := []

theorem spans_of_mem_items {item : Item} (mem : item ∈ items text) :
    (Pairing.between text).Spans item.span item.span :=
  ⟨⟨rfl, (isBoundary_of_mem_items mem).1⟩, ⟨rfl, (isBoundary_of_mem_items mem).2⟩⟩

/-- The tree of a text agrees with itself over offsets between characters. -/
theorem trees_parse (text : String) :
    (Pairing.between text).Trees (parse text).tree.root (parse text).tree.root := by
  have tokens : List.Forall₂ (Pairing.between text).Tokens (lex text).tokens (lex text).tokens :=
    List.forall₂_same.mpr fun token mem =>
      ⟨⟨rfl, spans_of_mem_items (mem_items_of_token mem)⟩, rfl, rfl⟩
  have reports : List.Forall₂ (Pairing.between text).Reports
      ((lex text).unterminated.map unterminatedComment)
      ((lex text).unterminated.map unterminatedComment) := by
    refine List.forall₂_same.mpr fun diagnostic reported => ⟨rfl, ?_⟩
    obtain ⟨span, isOpen, rfl⟩ := List.mem_map.mp reported
    obtain ⟨item, mem, found⟩ := List.mem_filterMap.mp isOpen
    obtain rfl : item.span = span := by
      cases item with
      | token token => cases found
      | comment comment closed =>
        cases closed
        · cases found
          rfl
        · cases found
    exact spans_of_mem_items mem
  exact (goes_parse rfl rfl tokens ⟨rfl, isBoundary_byteLength text⟩ reports).1

/-! ## Decorating -/

variable {resolver : LineResolver}

/-- Whatever lies between characters lies on lines. -/
theorem LineResolver.PlacesAll.resolves {span span' : Span} (places : resolver.PlacesAll text)
    (spans : (Pairing.between text).Spans span span') : Resolves resolver span :=
  ⟨places.places _ spans.1.2, places.places _ spans.2.2⟩

/-- **Decorating never fails.** The tree of any text, with syntax errors or without, is
decorated. -/
theorem exists_decorate_parse (text : String) {resolver : LineResolver}
    (places : resolver.PlacesAll text) :
    ∃ tree, ((parse text).tree.decorate .standard resolver).result = .ok tree := by
  have trees := trees_parse text
  have fragments : ∀ fragment ∈ (parse text).tree.root.fragments,
      Resolves resolver fragment.span := fun fragment mem =>
    places.resolves (List.forall₂_same.mp trees.fragments fragment mem).spans
  have comments : ∀ comment ∈ (parse text).tree.comments, Resolves resolver comment.span := by
    intro comment mem
    obtain ⟨closed, mem⟩ := mem_items_of_comment mem
    exact places.resolves (spans_of_mem_items mem)
  have kinded := kinded_root text
  generalize (parse text).tree = source at fragments comments kinded
  obtain ⟨assignments, assigned⟩ := @CommentGap.exists_assignAll resolver source.root.fragments
    none source.comments fragments comments
  exact ⟨_, (decorate_eq_ok_of_eq places.stands).mpr ⟨kinded, assignments, assigned, rfl⟩⟩

/-- A text that is all errors is decorated on its own lines. -/
theorem exists_decorate_parse_closers :
    (LineResolver.ofText "\x7d )\n/* open").PlacesAll "\x7d )\n/* open" ∧
      ∃ tree, ((parse "\x7d )\n/* open").tree.decorate .standard
        (.ofText "\x7d )\n/* open")).result = .ok tree :=
  ⟨(indexes_ofText _).placesAll, exists_decorate_parse _ (indexes_ofText _).placesAll⟩

/-! ## The same lines -/

variable {resolver' : LineResolver}

/-- Resolvers that number the lines of a text place what lies between characters on the same
lines. -/
theorem LineResolver.Indexes.lined (indexes : resolver.Indexes text)
    (indexes' : resolver'.Indexes text) :
    (Pairing.between text).Lined resolver resolver' (lineAt text) (lineAt text) where
  placed := by
    rintro offset _ ⟨rfl, front, back, split, rfl⟩
    rw [lineAt_byteLength split]
    exact ⟨indexes.counts split, indexes'.counts split⟩
  apart := by
    rintro start _ stop _ ⟨rfl, -⟩ ⟨rfl, -⟩
    rfl

/-- The tree of a text is decorated the same whichever resolver numbers its lines. -/
theorem decorate_parse_congr (indexes : resolver.Indexes text) (indexes' : resolver'.Indexes text) :
    ((parse text).tree.decorate .standard resolver).result =
      ((parse text).tree.decorate .standard resolver').result := by
  have comments : List.Forall₂ (Pairing.between text).Comments (parse text).tree.comments
      (parse text).tree.comments := by
    refine List.forall₂_same.mpr fun comment mem => ?_
    obtain ⟨closed, mem⟩ := mem_items_of_comment mem
    refine ⟨⟨rfl, spans_of_mem_items mem⟩, ?_, ?_⟩
    · rintro offset _ ⟨rfl, -⟩
      rfl
    · rintro offset _ ⟨rfl, -⟩
      rfl
  obtain ⟨tree, decorated, decorated'⟩ := decorate_abreast indexes.stands indexes'.stands
    (indexes.lined indexes') (trees_parse text) (kinded_root text) comments rfl
  rw [decorated, decorated']

theorem decorateWith_eq (indexes : resolver.Indexes text) :
    decorateWith resolver text = decorate text := by
  have same := decorate_parse_congr indexes (indexes_ofText text)
  simp only [decorate, decorateWith, sourceTree]
  generalize parse text = parsed at same ⊢
  cases parsed.diagnostics.isEmpty with
  | true => exact same
  | false => rfl

end GoTrivia
