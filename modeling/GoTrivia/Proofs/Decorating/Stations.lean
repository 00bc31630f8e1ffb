import GoTrivia.Proofs.Decorating.Meeting
import GoTrivia.Proofs.Decorating.Placing

/-!
# The stations of a text

The stations of a tree without diagnostics stand one behind the other, and its comments in
between.  They write the tokens and comments of the text, and none is missing but semicolons and
separators behind last elements.  So the items of the text are met on the way past them.

**Going down.** On the way the lines only go down, and a separator stands on the line where what
precedes it ends.
-/

set_option autoImplicit false

namespace GoTrivia

open Print (Mark)
open Positional (stops)

/-! ## Stations of stops -/

section Stops

variable {all : List Stop} {marks : List (List Mark)}

/-- The places of stations are those of the fragments. -/
theorem map_span_stationsOf (lengths : all.length = marks.length) :
    (stationsOf all marks).map Station.span = (all.flatMap Stop.fragments).map Fragment.span := by
  induction all generalizing marks with
  | nil => rfl
  | cons stop all ih =>
    cases marks with
    | nil => simp at lengths
    | cons mark marks =>
      have rest := ih (by simpa using lengths)
      simp only [stationsOf, List.zip_cons_cons, List.flatMap_cons, List.map_append] at rest ⊢
      rw [rest]
      cases stop <;> rfl

theorem sublist_stationsOf {stop : Stop} {here : List Mark} (mem : (stop, here) ∈ all.zip marks) :
    (stop.stations (stepsOf here)).Sublist (stationsOf all marks) := by
  obtain ⟨front, back, split⟩ := List.append_of_mem mem
  rw [stationsOf, split, List.flatMap_append, List.flatMap_cons]
  exact (List.sublist_append_left _ _).trans (List.sublist_append_right _ _)

variable (shows : List.Forall₂ Shows all marks)
include shows

/-- Every station belongs to a stop. -/
theorem exists_of_mem_stationsOf {station : Station} (mem : station ∈ stationsOf all marks) :
    ∃ stop ∈ all, ∃ here, Shows stop here ∧ station ∈ stop.stations (stepsOf here) ∧
      (stop.stations (stepsOf here)).Sublist (stationsOf all marks) := by
  obtain ⟨⟨stop, here⟩, inside, mem⟩ := List.mem_flatMap.mp mem
  exact ⟨stop, (List.of_mem_zip inside).1, here, List.forall₂_zip shows inside, mem,
    sublist_stationsOf inside⟩

/-- Every stop has its stations. -/
theorem exists_shows {stop : Stop} (mem : stop ∈ all) :
    ∃ here, Shows stop here ∧ (stop.stations (stepsOf here)).Sublist (stationsOf all marks) := by
  rw [← List.map_fst_zip (Nat.le_of_eq shows.length_eq)] at mem
  obtain ⟨⟨stop, here⟩, inside, rfl⟩ := List.mem_map.mp mem
  exact ⟨here, List.forall₂_zip shows inside, sublist_stationsOf inside⟩

end Stops

/-! ## Stations of a text -/

section Texts

variable {text : String}

/-- The solid tokens of a text are those it holds that are no semicolons. -/
theorem isSolid_iff {token : Token} (shown : .token token ∈ shownItems text) :
    token.isSolid = true ↔ token.text ≠ ";" := by
  obtain ⟨isItem, isShown⟩ := mem_shownItems.mp shown
  have mem : token ∈ (lex text).tokens := List.mem_filterMap.mpr ⟨_, isItem, rfl⟩
  have some : token.text ≠ "" := bne_iff_ne.mp isShown
  have regular := (lawful_lex text).regular token mem
  have other : token.kind ≠ .eof := by
    obtain ⟨front, ended, others⟩ := ended_lex text
    rw [ended] at mem
    rcases List.mem_append.mp mem with mem | mem
    · exact others token mem
    · exact absurd (congrArg (·.text) (List.mem_singleton.mp mem)) some
  by_cases isSemicolon : token.kind = .semicolon
  · have written := (regular.semicolon isSemicolon).resolve_right some
    simp [Token.isSolid, isSemicolon, written]
  · have plain := regular.plain isSemicolon
    simp [Token.isSolid, isSemicolon, other, plain]

/-- What a text does not hold is no solid token. -/
theorem exists_token_of_hidden {item : Item} (mem : item ∈ items text)
    (hidden : item.isShown = false) : ∃ token, item = .token token ∧ token.isSolid = false := by
  cases item with
  | token token =>
    refine ⟨token, rfl, Bool.eq_false_iff.mpr fun solid => ?_⟩
    have regular := (lawful_lex text).regular token (List.mem_filterMap.mpr ⟨_, mem, rfl⟩)
    obtain ⟨kind, other⟩ := Bool.and_eq_true_iff.mp solid
    have visible := (regular.visible (bne_iff_ne.mp kind) (bne_iff_ne.mp other)).1
    exact visible (by simpa [Item.isShown, Item.lexeme] using hidden)
  | comment comment closed =>
    have shown := (isShown_iff mem).mpr (lt_of_mem_items mem)
    rw [hidden] at shown
    cases shown

variable (clean : (parse text).diagnostics = [])
include clean

/-- The fragments of a text begin and end with its tokens, and no comment reaches into them. -/
theorem ranged_seams :
    Ranged (fun span => IsSeam text span.start ∧ IsClear (lex text).comments span) 0
      (parse text).tree.root.fragments (byteLength text.toList) := by
  refine ranged_parse clean fun token mem => ?_
  obtain ⟨whole, start, stop⟩ := clear_tokens text token mem
  exact ⟨⟨⟨token, mem, .inl rfl⟩, whole⟩, ⟨⟨token, mem, .inl rfl⟩, start⟩,
    ⟨⟨token, mem, .inr rfl⟩, stop⟩⟩

theorem fragments_stops_parse :
    (stops .place (parse text).tree.root).flatMap Stop.fragments =
      (parse text).tree.root.fragments := by
  have spelled := spelledNode_of_mem clean
  generalize (parse text).tree.root = root at spelled ⊢
  simpa using Positional.fragments_stops root .place [] spelled fun _ => rfl

/-- The solid tokens of a text are those that its tree stops at. -/
theorem solidLexemes_parse :
    solidLexemes (stops .place (parse text).tree.root) = solidTokens (lex text).tokens := by
  have spells := spellsFile_parse (lawful_lex text) clean
  generalize (parse text).tree.root = root at spells ⊢
  exact spells.solidLexemes (lawful_lex text).regular

/-- A separator that the tree of a text stops at is a token of the text. -/
theorem exists_separator {offset : Nat} {separator : Span} {isLast : Bool}
    (mem : .element offset separator isLast ∈ stops .place (parse text).tree.root) :
    ∃ token, .token token ∈ shownItems text ∧ token.toLexeme = ⟨",", separator⟩ := by
  have solid : ⟨",", separator⟩ ∈ solidLexemes (stops .place (parse text).tree.root) :=
    List.mem_filter.mpr ⟨List.mem_flatMap.mpr ⟨_, mem, List.mem_singleton.mpr rfl⟩, rfl⟩
  rw [solidLexemes_parse clean] at solid
  obtain ⟨token, inside, same⟩ := List.mem_map.mp solid
  refine ⟨token, mem_shownItems.mpr ⟨mem_items_of_token (List.mem_filter.mp inside).1, ?_⟩, same⟩
  rw [Item.isShown, Item.lexeme, same]
  rfl

/-- A token of a text that is no semicolon is stopped at. -/
theorem exists_stop_of_token {token : Token} (shown : .token token ∈ shownItems text) :
    token.text = ";" ∨
      ∃ stop ∈ stops .place (parse text).tree.root, token.toLexeme ∈ stop.lexemes := by
  by_cases isSemicolon : token.text = ";"
  · exact .inl isSemicolon
  · have mem : token ∈ (lex text).tokens :=
      List.mem_filterMap.mpr ⟨_, (mem_shownItems.mp shown).1, rfl⟩
    have solid : token.toLexeme ∈ solidTokens (lex text).tokens :=
      List.mem_map.mpr ⟨token, List.mem_filter.mpr ⟨mem, (isSolid_iff shown).mpr isSemicolon⟩, rfl⟩
    rw [← solidLexemes_parse clean] at solid
    exact .inr (List.mem_flatMap.mp (List.mem_filter.mp solid).1)

variable {marks : List (List Mark)}
  (shows : List.Forall₂ Shows (stops .place (parse text).tree.root) marks)
include shows

/-- The spans of stations are those of the fragments. -/
theorem exists_fragment {station : Station}
    (mem : station ∈ stationsOf (stops .place (parse text).tree.root) marks) :
    ∃ fragment ∈ (parse text).tree.root.fragments, fragment.span = station.span := by
  have inside := List.mem_map_of_mem (f := Station.span) mem
  rw [map_span_stationsOf shows.length_eq, fragments_stops_parse clean] at inside
  exact List.mem_map.mp inside

theorem inFile_stationsOf : InFile (stationsOf (stops .place (parse text).tree.root) marks) := by
  have ranged := ranged_seams clean
  constructor
  case ordered =>
    intro station mem
    obtain ⟨fragment, inside, same⟩ := exists_fragment clean shows mem
    rw [← same]
    exact (ranged.bounds fragment inside).2.1
  case apart =>
    have apart : (((parse text).tree.root.fragments).map Fragment.span).Pairwise
        fun span next => span.stop ≤ next.start := List.pairwise_map.mpr ranged.pairwise
    rw [← fragments_stops_parse clean, ← map_span_stationsOf shows.length_eq] at apart
    exact List.pairwise_map.mp apart

/-- What is written at a station of a tree is an item of the text. -/
theorem writes_or_isBare
    (visible : ∀ lexeme, .token lexeme ∈ stops .place (parse text).tree.root → lexeme.text ≠ "")
    {station : Station} (mem : station ∈ stationsOf (stops .place (parse text).tree.root) marks) :
    (∃ item ∈ shownItems text, station.Writes item) ∨ station.IsBare text := by
  obtain ⟨fragment, inside, same⟩ := exists_fragment clean shows mem
  have seam : IsSeam text station.span.start :=
    same ▸ ((ranged_seams clean).places fragment inside).1
  obtain ⟨stop, known, here, shown, mem, -⟩ := exists_of_mem_stationsOf shows mem
  cases shown with
  | token lexeme =>
    obtain rfl := List.mem_singleton.mp mem
    obtain ⟨token, known', rfl⟩ := agrees_parse clean _ known
    have shown : .token token ∈ shownItems text :=
      mem_shownItems.mpr ⟨mem_items_of_token known', bne_iff_ne.mpr (visible _ known)⟩
    exact .inl ⟨.token token, shown, rfl, rfl⟩
  | place offset =>
    obtain rfl := List.mem_singleton.mp mem
    exact .inr ⟨rfl, seam, .inl rfl⟩
  | last offset =>
    obtain rfl := List.mem_singleton.mp mem
    exact .inr ⟨rfl, seam, .inl rfl⟩
  | kept offset separator isLast =>
    rcases List.mem_cons.mp mem with rfl | mem
    · exact .inr ⟨rfl, seam, .inl rfl⟩
    · obtain rfl := List.mem_singleton.mp mem
      obtain ⟨token, shown, lexeme⟩ := exists_separator clean known
      refine .inl ⟨.token token, shown, congrArg Lexeme.span lexeme.symm, ?_⟩
      exact congrArg (fun lexeme : Lexeme => [Step.token lexeme.text]) lexeme.symm
  | dropped offset separator =>
    rcases List.mem_cons.mp mem with rfl | mem
    · exact .inr ⟨rfl, seam, .inl rfl⟩
    · obtain rfl := List.mem_singleton.mp mem
      obtain ⟨token, shown, lexeme⟩ := exists_separator clean known
      exact .inr ⟨rfl, seam, .inr ⟨.token token, shown, congrArg Lexeme.span lexeme⟩⟩

/-- A token of a text is written at a station of the tree, or it may be left out. -/
theorem written_or_mayPass {token : Token} (shown : .token token ∈ shownItems text) :
    (∃ station ∈ stationsOf (stops .place (parse text).tree.root) marks,
        station.Writes (.token token)) ∨
      (Item.token token).MayPass (trailingSeparators (parse text).tree.root) := by
  rcases exists_stop_of_token clean shown with isSemicolon | ⟨stop, known, inside⟩
  · exact .inr (.inl isSemicolon)
  · obtain ⟨here, shows, sublist⟩ := exists_shows shows known
    cases shows with
    | token lexeme =>
      obtain rfl := List.mem_singleton.mp inside
      exact .inl ⟨_, sublist.subset List.mem_cons_self, rfl, rfl⟩
    | place offset => cases inside
    | last offset => cases inside
    | kept offset separator isLast =>
      have lexeme := List.mem_singleton.mp inside
      refine .inl ⟨⟨separator, false, _⟩, sublist.subset (by simp [Stop.stations]; rfl), ?_, ?_⟩
      · exact congrArg Lexeme.span lexeme.symm
      · exact congrArg (fun lexeme : Lexeme => [Step.token lexeme.text]) lexeme.symm
    | dropped offset separator =>
      have lexeme := List.mem_singleton.mp inside
      have trailing := mem_trailingSeparators (stemsFrom_stops _ _ known)
      exact .inr (.inr (congrArg Lexeme.span lexeme ▸ trailing))

/-- The stations of a text, its comments among them, write its items. -/
theorem faces_parse
    (visible : ∀ lexeme, .token lexeme ∈ stops .place (parse text).tree.root → lexeme.text ≠ "") :
    Faces text (trailingSeparators (parse text).tree.root)
      (interleave (stationsOf (stops .place (parse text).tree.root) marks) (lex text).comments)
      (shownItems text) := by
  have filled : ∀ comment ∈ (lex text).comments, comment.span.start < comment.span.stop := by
    intro comment mem
    obtain ⟨closed, mem⟩ := mem_items_of_comment mem
    exact lt_of_mem_items mem
  constructor
  case inFile =>
    refine (inFile_stationsOf clean shows).interleave (pairwise_comments text) filled ?_
    intro station mem
    obtain ⟨fragment, inside, same⟩ := exists_fragment clean shows mem
    exact same ▸ ((ranged_seams clean).places fragment inside).2
  case filled => exact fun item mem => lt_of_mem_shownItems mem
  case behind => exact pairwise_shownItems text
  case station =>
    intro station mem
    rcases mem_interleave.mp mem with known | ⟨comment, known, rfl⟩
    · exact writes_or_isBare clean shows visible known
    · obtain ⟨closed, isItem⟩ := mem_items_of_comment known
      refine .inl ⟨.comment comment closed, mem_shownItems.mpr ⟨isItem, ?_⟩, rfl, rfl⟩
      exact (isShown_iff isItem).mpr (filled comment known)
  case item =>
    intro item mem
    cases item with
    | token token =>
      rcases written_or_mayPass clean shows mem with ⟨station, known, writes⟩ | may
      · exact .inl ⟨station, mem_interleave.mpr (.inl known), writes⟩
      · exact .inr may
    | comment comment closed =>
      have known : comment ∈ (lex text).comments :=
        List.mem_filterMap.mpr ⟨_, (mem_shownItems.mp mem).1, rfl⟩
      exact .inl ⟨.comment comment, mem_interleave.mpr (.inr ⟨comment, known, rfl⟩), rfl, rfl⟩

/-- On the way past the stations of a text, its comments among them, the lines only go down. -/
theorem descends_parse
    (visible : ∀ lexeme, .token lexeme ∈ stops .place (parse text).tree.root → lexeme.text ≠ "") :
    Descends (lineAt text) none
      (interleave (stationsOf (stops .place (parse text).tree.root) marks) (lex text).comments) := by
  refine (faces_parse clean shows visible).inFile.descends (lineAt_mono text) ?_
  intro station mem close
  rcases mem_interleave.mp mem with known | ⟨comment, known, rfl⟩
  · obtain ⟨stop, inside, here, -, mem, sublist⟩ := exists_of_mem_stationsOf shows known
    cases stop with
    | token lexeme =>
      obtain rfl := List.mem_singleton.mp mem
      cases close
    | place offset =>
      obtain rfl := List.mem_singleton.mp mem
      cases close
    | last offset =>
      obtain rfl := List.mem_singleton.mp mem
      cases close
    | element offset separator isLast =>
      rcases List.mem_cons.mp mem with rfl | mem
      · cases close
      · obtain rfl := List.mem_singleton.mp mem
        obtain ⟨token, shown, lexeme⟩ := exists_separator clean inside
        have filled : token.span.start < token.span.stop := lt_of_mem_shownItems shown
        obtain rfl : token.span = separator := congrArg Lexeme.span lexeme
        have apart := (inFile_stationsOf clean shows).apart.sublist sublist
        exact ⟨filled, ⟨.point offset, true, []⟩,
          mem_interleave.mpr (.inl (sublist.subset List.mem_cons_self)),
          (List.pairwise_cons.mp apart).1 _ (List.mem_singleton.mpr rfl), agrees_parse clean _ inside⟩
  · cases close

end Texts

end GoTrivia
