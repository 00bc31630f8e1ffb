import GoTrivia.Proofs.Decorating.Threading
import GoTrivia.Proofs.Decorating.Parsed

/-!
# Reading a tree aloud

A tree read in the order of its shapes gives back the tokens it was parsed from: each slot its
token or its child, each list its elements with the separator behind each of them.

**What is left out.** The semicolons that end statements and declarations are not in the tree,
and those in the headers of statements may have been inserted.  So semicolons are compared on
neither side; a few anchors hold nothing else (`Anchor.isSemicolon`).

**What is kept.** Every other token, in order and at its place, says what the text says there.
-/

set_option autoImplicit false

namespace GoTrivia

open Positional

/-! ## Transcripts -/

/-- Whether an anchor holds a semicolon. -/
def Anchor.isSemicolon : Anchor → Bool
  | semicolon | initSemicolon | condSemicolon => true
  | _ => false

/-- A token of a tree and the anchor it belongs to.  A separator belongs to its list. -/
structure Entry where
  anchor : Anchor
  lexeme : Lexeme
deriving DecidableEq, Repr

namespace Positional

mutual
/-- The tokens of a tree in the order of its shapes. -/
def transcript : Positional → List Entry
  | .node kind _ slots => transcriptSlots (standardShape kind).anchors slots

/-- The tokens of a list of slots. -/
def transcriptSlots : List AnchorShape → List PositionalSlot → List Entry
  | _, [] => []
  | [], _ :: _ => []
  | shape :: shapes, slot :: slots => transcriptSlot shape slot ++ transcriptSlots shapes slots

/-- The tokens of one slot. -/
def transcriptSlot (shape : AnchorShape) : PositionalSlot → List Entry
  | .token none => []
  | .token (some lexeme) => [⟨shape.anchor, lexeme⟩]
  | .child none => []
  | .child (some child) => transcript child
  | .list elements separators =>
    transcriptElements shape.anchor (shape.slot.separator?.getD "") separators elements

/-- The tokens of list elements, each with the separator behind it. -/
def transcriptElements (anchor : Anchor) (separator : String) (separators : List Span) :
    List Positional → List Entry
  | [] => []
  | tree :: trees =>
    transcript tree ++ (separators.head?.map fun span => ⟨anchor, ⟨separator, span⟩⟩).toList ++
      transcriptElements anchor separator (separators.drop 1) trees
end

end Positional

/-- What a transcript says where it holds no semicolons. -/
def spoken (entries : List Entry) : List Lexeme :=
  (entries.filter fun entry => !entry.anchor.isSemicolon).map Entry.lexeme

/-! ## Transcripts of tokens -/

/-- A transcript of tokens: it says the tokens other than semicolons, and nothing that is not
one of them. -/
structure Transcribes (entries : List Entry) (tokens : List Token) : Prop where
  spoken : spoken entries = solidTokens tokens
  found : ∀ entry ∈ entries, ∃ token ∈ tokens, token.toLexeme = entry.lexeme

namespace Transcribes

variable {entries more : List Entry} {tokens others : List Token} {token : Token}
  {anchor : Anchor}

theorem nil : Transcribes [] [] := ⟨rfl, by simp⟩

theorem append (first : Transcribes entries tokens) (second : Transcribes more others) :
    Transcribes (entries ++ more) (tokens ++ others) := by
  constructor
  · simpa [GoTrivia.spoken] using congrArg₂ (· ++ ·) first.spoken second.spoken
  · intro entry mem
    rcases List.mem_append.mp mem with mem | mem
    · obtain ⟨token, mem, same⟩ := first.found entry mem
      exact ⟨token, List.mem_append_left _ mem, same⟩
    · obtain ⟨token, mem, same⟩ := second.found entry mem
      exact ⟨token, List.mem_append_right _ mem, same⟩

/-- A token at an anchor for semicolons, or another one elsewhere. -/
theorem single (fits : anchor.isSemicolon = true ↔ token.kind = .semicolon)
    (other : token.kind ≠ .eof) : Transcribes [⟨anchor, token.toLexeme⟩] [token] := by
  refine ⟨?_, by simp⟩
  by_cases isSemicolon : token.kind = .semicolon
  · simp [GoTrivia.spoken, solidTokens, Token.isSolid, fits.mpr isSemicolon, isSemicolon]
  · have silent : anchor.isSemicolon = false := by
      rw [← Bool.not_eq_true, fits]
      exact isSemicolon
    have solid : token.isSolid = true := by simp [Token.isSolid, isSemicolon, other]
    simp [GoTrivia.spoken, solidTokens, solid, silent]

/-- A semicolon is in no transcript. -/
theorem skip (rest : Transcribes entries tokens) (isSemicolon : token.kind = .semicolon) :
    Transcribes entries (token :: tokens) := by
  refine ⟨rest.spoken.trans (solidTokens_semicolon _ isSemicolon).symm, fun entry mem => ?_⟩
  obtain ⟨token, mem, same⟩ := rest.found entry mem
  exact ⟨token, List.mem_cons_of_mem _ mem, same⟩

end Transcribes

/-! ## Anchors for semicolons -/

/-- Whether a slot is for semicolons exactly if its anchor is. -/
def AnchorShape.isPunctuated (shape : AnchorShape) : Bool :=
  shape.anchor.isSemicolon == decide (shape.slot = .token (.fixed ";"))

theorem isPunctuated_of_mem {kind : NodeKind} {shape : AnchorShape}
    (mem : shape ∈ (standardShape kind).anchors) : shape.isPunctuated = true := by
  have all : (NodeKind.all.all fun kind =>
      (standardShape kind).anchors.all AnchorShape.isPunctuated) = true := by decide
  exact List.all_eq_true.mp (List.all_eq_true.mp all kind (NodeKind.mem_all kind)) shape mem

theorem TokenFits.isSemicolon_iff {shape : AnchorShape} {text : TokenText} {token : Token}
    (fits : TokenFits text token.kind) (isToken : shape.slot = .token text)
    (punctuated : shape.isPunctuated = true) (regular : token.Regular) :
    shape.anchor.isSemicolon = true ↔ token.kind = .semicolon := by
  have isFixed : shape.anchor.isSemicolon = true ↔ text = .fixed ";" := by
    rw [eq_of_beq punctuated, isToken]
    simp
  rw [isFixed]
  constructor
  · rintro rfl
    by_contra other
    exact regular.plain other (regular.spelled other _ fits)
  · intro isSemicolon
    rw [isSemicolon] at fits
    exact fits.eq_fixed

theorem AnchorShape.isSemicolon_list {shape : AnchorShape} {layout : ListLayout}
    (isList : shape.slot = .list layout) (punctuated : shape.isPunctuated = true) :
    shape.anchor.isSemicolon = false := by
  rw [eq_of_beq punctuated, isList]
  simp

/-! ## Trees read aloud -/

/-- A comma behind an element of a list. -/
theorem Transcribes.comma {anchor : Anchor} {comma : Token} (plain : anchor.isSemicolon = false)
    (regular : comma.Regular) (isComma : comma.kind = .comma) :
    Transcribes [⟨anchor, ⟨",", comma.span⟩⟩] [comma] := by
  have written : comma.text = "," := regular.spelled (by simp [isComma]) "," (by rw [isComma]; rfl)
  rw [← written]
  exact .single (by simp [plain, isComma]) (by simp [isComma])

mutual
/-- A tree read aloud says the tokens it spells. -/
theorem Spells.transcribes : ∀ {tree : Positional} {tokens : List Token}, Spells tree tokens →
    (∀ token ∈ tokens, token.Regular) → Transcribes tree.transcript tokens
  | _, _, .node content _ _ _ _ _, regular => by
      rw [transcript]
      exact content.transcribes (fun _ mem => isPunctuated_of_mem mem) regular

theorem SpellsSlots.transcribes : ∀ {kind : NodeKind} {shapes : List AnchorShape}
    {slots : List PositionalSlot} {tokens : List Token}, SpellsSlots kind shapes slots tokens →
    (∀ shape ∈ shapes, shape.isPunctuated = true) → (∀ token ∈ tokens, token.Regular) →
    Transcribes (transcriptSlots shapes slots) tokens
  | _, _, _, _, .nil, _, _ => by
      rw [transcriptSlots]
      exact .nil
  | _, shape :: _, _, _, .vacant empty rest, punctuated, regular => by
      have none : transcriptSlot shape (.vacant shape.slot) = [] := by
        cases shape.slot <;> rfl
      rw [transcriptSlots, empty, none]
      exact rest.transcribes (List.forall_mem_cons.mp punctuated).2 regular
  | _, _, _, _, .token isToken fits _ rest, punctuated, regular => by
      obtain ⟨isPunctuated, punctuated⟩ := List.forall_mem_cons.mp punctuated
      obtain ⟨here, behind⟩ := List.forall_mem_cons.mp regular
      rw [transcriptSlots, transcriptSlot]
      exact (Transcribes.single (fits.isSemicolon_iff isToken isPunctuated here) fits.ne_eof).append
        (rest.transcribes punctuated behind)
  | _, _, _, _, .child _ content _ rest, punctuated, regular => by
      obtain ⟨here, behind⟩ := List.forall_mem_append.mp regular
      rw [transcriptSlots, transcriptSlot]
      exact (content.transcribes here).append
        (rest.transcribes (List.forall_mem_cons.mp punctuated).2 behind)
  | _, shape :: _, _, _, .separated isList separator content _ rest, punctuated, regular => by
      obtain ⟨isPunctuated, punctuated⟩ := List.forall_mem_cons.mp punctuated
      obtain ⟨here, behind⟩ := List.forall_mem_append.mp regular
      have isSeparated : shape.slot.separator? = some "," := by
        rw [isList]
        exact separator
      rw [transcriptSlots, transcriptSlot, isSeparated]
      exact (content.transcribes (shape.isSemicolon_list isList isPunctuated) here).append
        (rest.transcribes punctuated behind)
  | _, _, _, _, .terminated _ _ content rest, punctuated, regular => by
      obtain ⟨here, behind⟩ := List.forall_mem_append.mp regular
      rw [transcriptSlots, transcriptSlot]
      exact (content.transcribes _ _ here).append
        (rest.transcribes (List.forall_mem_cons.mp punctuated).2 behind)

theorem SpellsSeparated.transcribes : ∀ {nodes : List Positional} {separators : List Span}
    {tokens : List Token} {anchor : Anchor}, SpellsSeparated nodes separators tokens →
    anchor.isSemicolon = false → (∀ token ∈ tokens, token.Regular) →
    Transcribes (transcriptElements anchor "," separators nodes) tokens
  | _, _, _, _, .nil, _, _ => by
      rw [transcriptElements]
      exact .nil
  | _, _, _, _, .last content _, _, regular => by
      simpa [transcriptElements] using content.transcribes regular
  | _, _, _, _, .cons content _ isComma rest, plain, regular => by
      obtain ⟨here, behind⟩ := List.forall_mem_append.mp regular
      obtain ⟨isRegular, behind⟩ := List.forall_mem_cons.mp behind
      rw [transcriptElements, List.append_assoc]
      exact (content.transcribes here).append
        ((Transcribes.comma plain isRegular isComma).append (rest.transcribes plain behind))

theorem SpellsTerminated.transcribes : ∀ {nodes : List Positional} {tokens : List Token},
    SpellsTerminated nodes tokens → ∀ (anchor : Anchor) (separator : String),
    (∀ token ∈ tokens, token.Regular) →
    Transcribes (transcriptElements anchor separator [] nodes) tokens
  | _, _, .nil, _, _, _ => by
      rw [transcriptElements]
      exact .nil
  | _, _, .skip isSemicolon rest, _, _, regular =>
      (rest.transcribes _ _ (List.forall_mem_cons.mp regular).2).skip isSemicolon
  | _, _, .cons content rest, _, _, regular => by
      obtain ⟨here, behind⟩ := List.forall_mem_append.mp regular
      simpa [transcriptElements] using
        (content.transcribes here).append (rest.transcribes _ _ behind)
end

theorem Grammar.SpellsFile.transcribes {length : Nat} {tree : Positional} {tokens : List Token}
    (spells : SpellsFile length tree tokens) (regular : ∀ token ∈ tokens, token.Regular) :
    Transcribes tree.transcript tokens := by
  cases spells with
  | @file slots front first last content filled begins isEnd =>
    have inside := content.transcribes (fun _ mem => isPunctuated_of_mem mem) fun token mem =>
      regular token (List.mem_append_left _ mem)
    have ended : Transcribes [] [last] := ⟨by simp [spoken, solidTokens, Token.isSolid, isEnd], by simp⟩
    rw [transcript]
    simpa using inside.append ended

/-! ## Texts without diagnostics -/

/-- The kinds of nodes that stand for what could not be read. -/
def NodeKind.isBad : NodeKind → Bool
  | badExpr | badStmt | badDecl => true
  | _ => false

/-- A lexeme whose text is what a text says at its span. -/
def Lexeme.IsSliceOf (text : String) (lexeme : Lexeme) : Prop := Cites 0 text.toList lexeme

theorem isSliceOf_of_mem {text : String} {token : Token} (mem : token ∈ (lex text).tokens) :
    token.toLexeme.IsSliceOf text := by
  have cites := Lex.cites_of_mem (mem_items_of_token mem)
  rwa [flatMap_chars_pieces] at cites

/-- A node that was read from tokens has slots for them. -/
theorem SpelledNode.isBad {node : Positional} (spelled : SpelledNode node) :
    node.kind.isBad = false := by
  obtain ⟨tokens, content, -, -, some⟩ := spelled
  by_contra bad
  have shapeless : (standardShape node.kind).anchors = [] := by
    revert bad
    cases node.kind <;> simp [NodeKind.isBad, standardShape, StandardShape.anchors]
  rw [shapeless] at content
  generalize node.slots = slots at content
  cases content
  exact some rfl

/-- **Nothing is lost.** A text without diagnostics has a tree without nodes for what could not
be read.  The tree read aloud says the tokens of the text other than semicolons, in order and at
their places, and every token of the tree says what the text says at its span. -/
theorem transcript_parse (text : String) (clean : (parse text).diagnostics = []) :
    (∀ node ∈ (parse text).tree.root.preorder, node.kind.isBad = false) ∧
      spoken (parse text).tree.root.transcript = solidTokens (lex text).tokens ∧
      ∀ entry ∈ (parse text).tree.root.transcript, entry.lexeme.IsSliceOf text := by
  have transcribes := (spellsFile_parse (lawful_lex text) clean).transcribes
    (lawful_lex text).regular
  refine ⟨fun node mem => (spelledNode_of_mem clean node mem).isBad, transcribes.spoken,
    fun entry mem => ?_⟩
  obtain ⟨token, found, same⟩ := transcribes.found entry mem
  rw [← same]
  exact isSliceOf_of_mem found

/-- A function with parameters that share a type, a loop and a separator behind an argument. -/
def countingLoop : String := "package p\n\nfunc f(a, b T) \x7b\n\tfor i := 0; i < a; \x7b\n\t\tg(b,)\n\t\x7d\n\x7d\n"

theorem transcript_countingLoop :
    (spoken (parse countingLoop).tree.root.transcript).map Lexeme.text =
        ["package", "p", "func", "f", "(", "a", ",", "b", "T", ")", "\x7b", "for", "i", ":=", "0",
          "i", "<", "a", "\x7b", "g", "(", "b", ",", ")", "\x7d", "\x7d"] ∧
      ∀ entry ∈ (parse countingLoop).tree.root.transcript, entry.lexeme.IsSliceOf countingLoop := by
  obtain ⟨-, said, slices⟩ := transcript_parse countingLoop (by decide +kernel)
  refine ⟨?_, slices⟩
  rw [said]
  decide +kernel

end GoTrivia
