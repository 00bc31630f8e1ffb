import GoTrivia.Proofs.Decorating.Neighbours

/-!
# The tokens of a tree

The stops of a parsed tree pass through its tokens in order and miss none but semicolons:
those between statements and declarations have no place in the tree.

**Where stops come from.** Every token that is stopped at fills a slot of some node, and every
separator behind a last element is the last one of some list.
-/

set_option autoImplicit false

namespace GoTrivia

open Positional (stops stopsSlots stopsSlot stopsElements)

/-! ## Lexemes at stops -/

/-- The lexemes of the source at a stop. -/
def Stop.lexemes : Stop → List Lexeme
  | token lexeme => [lexeme]
  | place _ => []
  | last _ => []
  | element _ separator _ => [⟨",", separator⟩]

/-- Whether a lexeme is written in the source and no semicolon. -/
def Lexeme.isSolid (lexeme : Lexeme) : Bool := lexeme.text != "" && lexeme.text != ";"

/-- The lexemes at stops, without semicolons. -/
def solidLexemes (stops : List Stop) : List Lexeme :=
  (stops.flatMap Stop.lexemes).filter Lexeme.isSolid

/-- Whether a token is neither a semicolon nor the end of the text. -/
def Token.isSolid (token : Token) : Bool := token.kind != .semicolon && token.kind != .eof

/-- The lexemes of tokens, without semicolons and the end of the text. -/
def solidTokens (tokens : List Token) : List Lexeme :=
  (tokens.filter Token.isSolid).map Token.toLexeme

section Lists

variable (stops more : List Stop) (tokens others : List Token)

@[simp]
theorem solidLexemes_append :
    solidLexemes (stops ++ more) = solidLexemes stops ++ solidLexemes more := by
  simp [solidLexemes]

@[simp]
theorem solidLexemes_nil : solidLexemes [] = [] := rfl

@[simp]
theorem solidLexemes_place (offset : Nat) :
    solidLexemes (.place offset :: stops) = solidLexemes stops := rfl

@[simp]
theorem solidTokens_append :
    solidTokens (tokens ++ others) = solidTokens tokens ++ solidTokens others := by
  simp [solidTokens]

@[simp]
theorem solidTokens_nil : solidTokens [] = [] := rfl

theorem solidTokens_semicolon {token : Token} (isSemicolon : token.kind = .semicolon) :
    solidTokens (token :: tokens) = solidTokens tokens := by
  simp [solidTokens, Token.isSolid, isSemicolon]

end Lists

theorem Token.Regular.isSolid {token : Token} (regular : token.Regular)
    (other : token.kind ≠ .eof) : token.toLexeme.isSolid = token.isSolid := by
  by_cases isSemicolon : token.kind = .semicolon
  · rcases regular.semicolon isSemicolon with written | inserted
    · simp [Lexeme.isSolid, Token.isSolid, written, isSemicolon]
    · simp [Lexeme.isSolid, Token.isSolid, inserted, isSemicolon]
  · rw [Bool.eq_iff_iff]
    simp only [Lexeme.isSolid, Token.isSolid, Bool.and_eq_true, bne_iff_ne]
    exact iff_of_true ⟨(regular.visible isSemicolon other).1, regular.plain isSemicolon⟩
      ⟨isSemicolon, other⟩

theorem solidLexemes_token {token : Token} {stops : List Stop} {tokens : List Token}
    (regular : token.Regular) (other : token.kind ≠ .eof)
    (rest : solidLexemes stops = solidTokens tokens) :
    solidLexemes (.token token.toLexeme :: stops) = solidTokens (token :: tokens) := by
  have here := regular.isSolid other
  simp only [solidLexemes, solidTokens, List.flatMap_cons, Stop.lexemes, List.cons_append,
    List.nil_append, List.filter_cons, here] at rest ⊢
  split <;> simp [rest]

theorem solidLexemes_element {comma : Token} {stops : List Stop} {tokens : List Token}
    (regular : comma.Regular) (isComma : comma.kind = .comma) (offset : Nat) (isLast : Bool)
    (rest : solidLexemes stops = solidTokens tokens) :
    solidLexemes (.element offset comma.span isLast :: stops) = solidTokens (comma :: tokens) := by
  have written := regular.spelled (by simp [isComma]) "," (by rw [isComma]; rfl)
  rw [← solidLexemes_token regular (by simp [isComma]) rest]
  simp only [solidLexemes, List.flatMap_cons, Stop.lexemes, ← written]

mutual
/-- The tokens of a tree are those it was read from, but for semicolons. -/
theorem Spells.solidLexemes : ∀ {tree : Positional} {tokens : List Token}, Spells tree tokens →
    (∀ token ∈ tokens, token.Regular) → GoTrivia.solidLexemes (inner tree) = solidTokens tokens
  | _, _, .node content _ _ _ _ _, regular => by
      rw [inner, solidLexemes_place]
      exact content.solidLexemes regular

theorem SpellsSlots.solidLexemes : ∀ {kind : NodeKind} {shapes : List AnchorShape}
    {slots : List PositionalSlot} {tokens : List Token}, SpellsSlots kind shapes slots tokens →
    (∀ token ∈ tokens, token.Regular) →
    GoTrivia.solidLexemes (stopsSlots shapes slots) = solidTokens tokens
  | _, _, _, _, .nil, _ => by simp [stopsSlots]
  | _, shape :: _, _, _, .vacant empty rest, regular => by
      have none : stopsSlot shape.slot (.vacant shape.slot) = [] := by
        refine stopsSlot_eq_nil ?_
        cases shape.slot <;> rfl
      rw [stopsSlots, empty, none]
      exact rest.solidLexemes regular
  | _, _, _, _, .token _ fits _ rest, regular => by
      obtain ⟨here, behind⟩ := List.forall_mem_cons.mp regular
      rw [stopsSlots, stopsSlot]
      exact solidLexemes_token here fits.ne_eof (rest.solidLexemes behind)
  | _, _, _, _, .child _ content _ rest, regular => by
      obtain ⟨here, behind⟩ := List.forall_mem_append.mp regular
      rw [stopsSlots, stopsSlot, stops_eq_inner]
      simp [content.solidLexemes here, rest.solidLexemes behind]
  | _, shape :: _, _, _, .separated isList separator content _ rest, regular => by
      obtain ⟨here, behind⟩ := List.forall_mem_append.mp regular
      have isSeparated : shape.slot.separator? = some "," := by
        rw [isList]
        exact separator
      rw [stopsSlots, stopsSlot, isSeparated, solidLexemes_append, solidTokens_append,
        rest.solidLexemes behind]
      exact congrArg (· ++ _) (content.solidLexemes here)
  | _, shape :: _, _, _, .terminated isList separator content rest, regular => by
      obtain ⟨here, behind⟩ := List.forall_mem_append.mp regular
      have isTerminated : shape.slot.separator? = none := by
        rw [isList]
        exact separator
      rw [stopsSlots, stopsSlot, isTerminated, solidLexemes_append, solidTokens_append,
        rest.solidLexemes behind]
      exact congrArg (· ++ _) (content.solidLexemes here)

theorem SpellsSeparated.solidLexemes : ∀ {nodes : List Positional} {separators : List Span}
    {tokens : List Token}, SpellsSeparated nodes separators tokens →
    (∀ token ∈ tokens, token.Regular) →
    GoTrivia.solidLexemes (stopsElements true separators nodes) = solidTokens tokens
  | _, _, _, .nil, _ => by simp [stopsElements]
  | _, _, _, .last content _, regular => by
      simp only [stopsElements, stops_eq_inner, Stop.behind, solidLexemes_append,
        content.solidLexemes regular]
      simp [GoTrivia.solidLexemes, Stop.lexemes]
  | _, _, _, @SpellsSeparated.cons node nodes comma _ _ _ content _ isComma rest, regular => by
      obtain ⟨here, behind⟩ := List.forall_mem_append.mp regular
      obtain ⟨isRegular, behind⟩ := List.forall_mem_cons.mp behind
      have later := solidLexemes_element isRegular isComma (SlotTree.info node).stop nodes.isEmpty
        (rest.solidLexemes behind)
      rw [stopsElements, stops_eq_inner, List.append_assoc, solidLexemes_append, solidTokens_append,
        content.solidLexemes here]
      exact congrArg (_ ++ ·) later

theorem SpellsTerminated.solidLexemes : ∀ {nodes : List Positional} {tokens : List Token},
    SpellsTerminated nodes tokens → (∀ token ∈ tokens, token.Regular) →
    GoTrivia.solidLexemes (stopsElements false [] nodes) = solidTokens tokens
  | _, _, .nil, _ => by simp [stopsElements]
  | _, _, .skip isSemicolon rest, regular => by
      rw [solidTokens_semicolon _ isSemicolon]
      exact rest.solidLexemes (List.forall_mem_cons.mp regular).2
  | _, _, .cons content rest, regular => by
      obtain ⟨here, behind⟩ := List.forall_mem_append.mp regular
      simp [stopsElements, stops_eq_inner, Stop.behind, content.solidLexemes here,
        rest.solidLexemes behind]
end

/-- The tokens of a file are those of its text, but for semicolons. -/
theorem Grammar.SpellsFile.solidLexemes {length : Nat} {tree : Positional} {tokens : List Token}
    (spells : SpellsFile length tree tokens) (regular : ∀ token ∈ tokens, token.Regular) :
    GoTrivia.solidLexemes (stops .place tree) = solidTokens tokens := by
  cases spells with
  | @file slots front first last content filled begins isEnd =>
    have inside := content.solidLexemes fun token mem => regular token (List.mem_append_left _ mem)
    have ended : solidTokens [last] = [] := by simp [solidTokens, Token.isSolid, isEnd]
    rw [stops, solidLexemes_place, solidLexemes_append, inside, solidTokens_append, ended]
    rfl

/-! ## Where stops come from -/

/-- The separator behind the last element of a list. -/
def trailingSeparator? : PositionalSlot → Option Span
  | .list elements separators => separators[elements.length - 1]?
  | _ => none

/-- The separators behind the last elements of the lists of a tree. -/
def trailingSeparators (root : Positional) : List Span :=
  root.preorder.flatMap fun node => node.slots.filterMap trailingSeparator?

/-- A stop at something that one of these nodes has. -/
def Stop.StemsFrom (nodes : List Positional) : Stop → Prop
  | token lexeme => ∃ node ∈ nodes, Slot.token (some lexeme) ∈ node.slots
  | element _ separator true => ∃ node ∈ nodes, ∃ slot ∈ node.slots,
      trailingSeparator? slot = some separator
  | _ => True

theorem Stop.StemsFrom.mono {nodes others : List Positional} {stop : Stop}
    (stems : stop.StemsFrom nodes) (more : nodes ⊆ others) : stop.StemsFrom others := by
  match stop, stems with
  | .token _, ⟨node, mem, found⟩ => exact ⟨node, more mem, found⟩
  | .element _ _ true, ⟨node, mem, found⟩ => exact ⟨node, more mem, found⟩
  | .element _ _ false, _ => trivial
  | .place _, _ => trivial
  | .last _, _ => trivial

theorem mem_trailingSeparators {root : Positional} {offset : Nat} {separator : Span}
    (stems : (Stop.element offset separator true).StemsFrom root.preorder) :
    separator ∈ trailingSeparators root := by
  obtain ⟨node, mem, slot, found, isTrailing⟩ := stems
  exact List.mem_flatMap.mpr ⟨node, mem, List.mem_filterMap.mpr ⟨slot, found, isTrailing⟩⟩

/-- The finish of an element of a list that one of the nodes has. -/
theorem stemsFrom_behind {nodes : List Positional} {separated : Bool} {separators : List Span}
    {isLast : Bool} {offset : Nat} (fine : ∀ separator, separators.head? = some separator →
      isLast = true → (Stop.element offset separator true).StemsFrom nodes) :
    (Stop.behind separated separators.head? isLast offset).StemsFrom nodes := by
  unfold Stop.behind
  cases found : separators.head? with
  | none => simp only; split <;> trivial
  | some separator =>
    cases isLast with
    | false => trivial
    | true => exact fine separator found rfl

mutual
theorem stemsFrom_inner : ∀ (tree : Positional), ∀ stop ∈ inner tree, stop.StemsFrom tree.preorder
  | .node kind span slots => by
      rw [inner, SlotTree.preorder]
      exact List.forall_mem_cons.mpr ⟨trivial, stemsFrom_stopsSlots (.node kind span slots)
        (standardShape kind).anchors slots fun slot mem => mem⟩

theorem stemsFrom_stopsSlots (owner : Positional) :
    ∀ (shapes : List AnchorShape) (slots : List PositionalSlot),
      (∀ slot ∈ slots, slot ∈ owner.slots) → ∀ stop ∈ stopsSlots shapes slots,
        stop.StemsFrom (owner :: SlotTree.preorderSlots slots)
  | _, [], _ => by simp [stopsSlots]
  | [], _ :: _, _ => by simp [stopsSlots]
  | shape :: shapes, .token none :: slots, owned => by
      rw [stopsSlots, stopsSlot]
      exact stemsFrom_stopsSlots owner shapes slots (List.forall_mem_cons.mp owned).2
  | shape :: shapes, .token (some lexeme) :: slots, owned => by
      obtain ⟨here, later⟩ := List.forall_mem_cons.mp owned
      rw [stopsSlots, stopsSlot]
      exact List.forall_mem_cons.mpr ⟨⟨owner, by simp, here⟩,
        stemsFrom_stopsSlots owner shapes slots later⟩
  | shape :: shapes, .child none :: slots, owned => by
      rw [stopsSlots, stopsSlot]
      exact stemsFrom_stopsSlots owner shapes slots (List.forall_mem_cons.mp owned).2
  | shape :: shapes, .child (some child) :: slots, owned => by
      have rest := stemsFrom_stopsSlots owner shapes slots (List.forall_mem_cons.mp owned).2
      have inside := stemsFrom_inner child
      rw [stopsSlots, stopsSlot, stops_eq_inner, SlotTree.preorderSlots]
      intro stop mem
      simp only [List.mem_append, List.mem_singleton] at mem
      rcases mem with ((mem | rfl) | rfl) | mem
      · exact (inside stop mem).mono fun node mem => by simp [mem]
      · trivial
      · trivial
      · exact (rest stop mem).mono fun node mem => by
          rcases List.mem_cons.mp mem with rfl | mem <;> simp [*]
  | shape :: shapes, .list elements separators :: slots, owned => by
      obtain ⟨here, later⟩ := List.forall_mem_cons.mp owned
      have rest := stemsFrom_stopsSlots owner shapes slots later
      rw [stopsSlots, stopsSlot, SlotTree.preorderSlots]
      refine List.forall_mem_append.mpr ⟨?_, fun stop mem => (rest stop mem).mono ?_⟩
      · refine stemsFrom_stopsElements _ _ separators elements (fun separator _ _ found => ?_) ?_
        · exact ⟨owner, by simp, _, here, found⟩
        · exact fun node mem => by simp [mem]
      · exact fun node mem => by rcases List.mem_cons.mp mem with rfl | mem <;> simp [*]

theorem stemsFrom_stopsElements (nodes : List Positional) (separated : Bool) :
    ∀ (separators : List Span) (trees : List Positional),
      (∀ separator offset, trees ≠ [] → separators[trees.length - 1]? = some separator →
        (Stop.element offset separator true).StemsFrom nodes) →
      (SlotTree.preorderElements trees ⊆ nodes) →
      ∀ stop ∈ stopsElements separated separators trees, stop.StemsFrom nodes
  | _, [], _, _ => by simp [stopsElements]
  | separators, tree :: trees, trailing, inside => by
      obtain ⟨first, others⟩ := List.append_subset.mp inside
      have rest := stemsFrom_stopsElements nodes separated (separators.drop 1) trees (by
        intro separator offset some found
        obtain ⟨next, trees, rfl⟩ := List.exists_cons_of_ne_nil some
        exact trailing separator offset (by simp) (by simpa [Nat.add_comm] using found)) others
      rw [stopsElements, stops_eq_inner]
      intro stop mem
      simp only [List.mem_append, List.mem_singleton] at mem
      rcases mem with (mem | rfl) | mem
      · exact (stemsFrom_inner tree stop mem).mono first
      · refine stemsFrom_behind fun separator found isLast => trailing separator _ (by simp) ?_
        obtain rfl := List.isEmpty_iff.mp isLast
        simpa [List.head?_eq_getElem?] using found
      · exact rest stop mem
end

theorem stemsFrom_stops (root : Positional) :
    ∀ stop ∈ stops .place root, stop.StemsFrom root.preorder := by
  rw [stops_eq_inner]
  exact List.forall_mem_append.mpr ⟨stemsFrom_inner root, List.forall_mem_singleton.mpr trivial⟩

end GoTrivia
