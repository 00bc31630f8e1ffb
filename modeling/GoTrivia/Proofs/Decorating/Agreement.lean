import GoTrivia.Proofs.Decorating.Neighbours
import GoTrivia.Proofs.Token.LineFeeds

/-!
# What a text says about stops

A token that a parsed tree stops at is a token of the text.

**Separators.** A list element ends on the line of the separator behind it: it ends with a token
after which a line break would have ended the statement, and the grammar has no place for a
semicolon there.
-/

set_option autoImplicit false

namespace GoTrivia

open Positional (stops stopsSlots stopsSlot stopsElements)

variable {text : String}

/-- What a text says about a stop. -/
def Stop.AgreesWith (text : String) : Stop → Prop
  | token lexeme => ∃ token ∈ (lex text).tokens, token.toLexeme = lexeme
  | element offset separator _ => lineAt text offset = lineAt text separator.start
  | place _ => True
  | last _ => True

/-- An element ends on the line of the separator behind it. -/
theorem lineAt_separator {tree : Positional} {comma : Token} {front tokens : List Token}
    (content : Spells tree front) (ends : Ends front) (isComma : comma.kind = .comma)
    (within : front ++ comma :: tokens <:+: (lex text).tokens) :
    lineAt text tree.info.stop = lineAt text comma.span.start := by
  obtain ⟨before, last, rfl, closes, stop⟩ := content.stop_of_ends ends
  obtain ⟨start, finish, split⟩ := within
  have parts : (lex text).tokens = (start ++ before) ++ last :: comma :: (tokens ++ finish) := by
    rw [← split]
    simp
  obtain ⟨row, here, there, -⟩ := calm_of_ends parts closes (by simp [isComma])
  rw [← stop, lineAt_of_lineOf? _ row here, lineAt_of_lineOf? _ row there]

mutual
theorem Spells.agrees : ∀ {tree : Positional} {tokens : List Token}, Spells tree tokens →
    tokens <:+: (lex text).tokens → ∀ stop ∈ inner tree, stop.AgreesWith text
  | _, _, .node content _ _ _ _ _, within => by
      rw [inner]
      exact List.forall_mem_cons.mpr ⟨trivial, content.agrees within⟩

theorem SpellsSlots.agrees : ∀ {kind : NodeKind} {shapes : List AnchorShape}
    {slots : List PositionalSlot} {tokens : List Token}, SpellsSlots kind shapes slots tokens →
    tokens <:+: (lex text).tokens → ∀ stop ∈ stopsSlots shapes slots, stop.AgreesWith text
  | _, _, _, _, .nil, _ => by simp [stopsSlots]
  | _, shape :: _, _, _, .vacant empty rest, within => by
      have none : stopsSlot shape.slot (.vacant shape.slot) = [] := by
        refine stopsSlot_eq_nil ?_
        cases shape.slot <;> rfl
      rw [stopsSlots, empty, none]
      exact rest.agrees within
  | _, _, _, _, .token _ _ _ rest, within => by
      rw [stopsSlots, stopsSlot]
      refine List.forall_mem_cons.mpr ⟨⟨_, within.subset List.mem_cons_self, rfl⟩, ?_⟩
      exact rest.agrees ((List.suffix_cons _ _).isInfix.trans within)
  | _, _, _, _, .child _ content _ rest, within => by
      have inside := content.agrees ((List.prefix_append _ _).isInfix.trans within)
      have behind := rest.agrees ((List.suffix_append _ _).isInfix.trans within)
      rw [stopsSlots, stopsSlot, stops_eq_inner]
      simp only [List.forall_mem_append, List.forall_mem_singleton]
      exact ⟨⟨⟨inside, trivial⟩, trivial⟩, behind⟩
  | _, shape :: _, _, _, .separated isList separator content _ rest, within => by
      have isSeparated : shape.slot.separator? = some "," := by
        rw [isList]
        exact separator
      rw [stopsSlots, stopsSlot, isSeparated]
      exact List.forall_mem_append.mpr
        ⟨content.agrees ((List.prefix_append _ _).isInfix.trans within),
          rest.agrees ((List.suffix_append _ _).isInfix.trans within)⟩
  | _, shape :: _, _, _, .terminated isList separator content rest, within => by
      have isTerminated : shape.slot.separator? = none := by
        rw [isList]
        exact separator
      rw [stopsSlots, stopsSlot, isTerminated]
      exact List.forall_mem_append.mpr
        ⟨content.agrees ((List.prefix_append _ _).isInfix.trans within),
          rest.agrees ((List.suffix_append _ _).isInfix.trans within)⟩

theorem SpellsSeparated.agrees : ∀ {nodes : List Positional} {separators : List Span}
    {tokens : List Token}, SpellsSeparated nodes separators tokens →
    tokens <:+: (lex text).tokens →
    ∀ stop ∈ stopsElements true separators nodes, stop.AgreesWith text
  | _, _, _, .nil, _ => by simp [stopsElements]
  | _, _, _, .last content _, within => by
      rw [stopsElements, stops_eq_inner, stopsElements]
      simp only [List.forall_mem_append, List.forall_mem_singleton, List.append_nil]
      exact ⟨content.agrees within, trivial⟩
  | _, _, _, .cons content ends isComma rest, within => by
      have inside := content.agrees ((List.prefix_append _ _).isInfix.trans within)
      have behind := rest.agrees ((List.suffix_cons _ _).isInfix.trans
        ((List.suffix_append _ _).isInfix.trans within))
      rw [stopsElements, stops_eq_inner]
      simp only [List.forall_mem_append, List.forall_mem_singleton]
      exact ⟨⟨inside, lineAt_separator content ends isComma within⟩, behind⟩

theorem SpellsTerminated.agrees : ∀ {nodes : List Positional} {tokens : List Token},
    SpellsTerminated nodes tokens → tokens <:+: (lex text).tokens →
    ∀ stop ∈ stopsElements false [] nodes, stop.AgreesWith text
  | _, _, .nil, _ => by simp [stopsElements]
  | _, _, .skip _ rest, within => rest.agrees ((List.suffix_cons _ _).isInfix.trans within)
  | _, _, .cons content rest, within => by
      have inside := content.agrees ((List.prefix_append _ _).isInfix.trans within)
      have behind := rest.agrees ((List.suffix_append _ _).isInfix.trans within)
      rw [stopsElements, stops_eq_inner]
      simp only [List.forall_mem_append, List.forall_mem_singleton]
      exact ⟨⟨inside, trivial⟩, behind⟩
end

/-- A text agrees with the stops of its tree. -/
theorem agrees_parse (clean : (parse text).diagnostics = []) :
    ∀ stop ∈ stops .place (parse text).tree.root, stop.AgreesWith text := by
  have spells := spellsFile_parse (lawful_lex text) clean
  generalize (parse text).tree.root = root at spells ⊢
  generalize all : (lex text).tokens = tokens at spells
  cases spells with
  | @file slots front first last content filled begins isEnd =>
    have within : front <:+: (lex text).tokens := all ▸ (List.prefix_append _ _).isInfix
    rw [stops_eq_inner, inner]
    exact List.forall_mem_append.mpr ⟨List.forall_mem_cons.mpr ⟨trivial, content.agrees within⟩,
      List.forall_mem_singleton.mpr trivial⟩

end GoTrivia
