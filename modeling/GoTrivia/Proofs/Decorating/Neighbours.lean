import GoTrivia.Proofs.Decorating.Ordering
import GoTrivia.Proofs.Decorating.Rebuilding

/-!
# Lists closed on their own line

If the last element of a list has no separator behind it and a token follows, the two stand
on one line: the element ends with a token after which a line break would have ended the
statement, and the grammar has no place for a semicolon there.

**Shapes.** This needs that what follows a separated list in a shape is neither a semicolon
nor a list that lets semicolons go before another token (`leadsOn`).
-/

set_option autoImplicit false

namespace GoTrivia

open Positional (stops stopsSlots stopsSlot stopsElements)
open CommentGap (Close)

/-! ## Shapes behind separated lists -/

/-- Whether slots hold no semicolon, and semicolons can only be skipped at their end. -/
def leadsOn : List AnchorShape → Bool
  | [] => true
  | shape :: shapes =>
    (match shape.slot with
      | .token text => text != .fixed ";"
      | .child => true
      | .list layout => layout.separator.isSome || shapes.isEmpty) && leadsOn shapes

/-- Whether every separated list is followed by such slots. -/
def bordered : List AnchorShape → Bool
  | [] => true
  | shape :: shapes => (shape.slot.separator?.isNone || leadsOn shapes) && bordered shapes

theorem bordered_standardShape (kind : NodeKind) :
    bordered (standardShape kind).anchors = true := by
  cases kind <;> decide

/-- A tree begins with a place. -/
theorem head?_stops (finish : Nat → Stop) (tree : Positional) :
    (stops finish tree).head? = some (.place tree.info.start) := by
  obtain ⟨kind, span, slots⟩ := tree
  rw [stops]
  rfl

/-- List elements do not begin with a token. -/
theorem eq_nil_of_head_token {separated : Bool} {separators : List Span} {trees : List Positional}
    {rest : List Stop} {lexeme : Lexeme}
    (found : (stopsElements separated separators trees ++ rest).head? = some (.token lexeme)) :
    trees = [] ∧ rest.head? = some (.token lexeme) := by
  cases trees with
  | nil => exact ⟨rfl, by simpa [stopsElements] using found⟩
  | cons tree trees =>
    rw [stopsElements, List.append_assoc, List.head?_append, head?_stops] at found
    cases found

/-- The first of some tokens, which is no semicolon. -/
def Leads (lexeme : Lexeme) (tokens : List Token) : Prop :=
  ∃ token rest, tokens = token :: rest ∧ token.toLexeme = lexeme ∧ token.kind ≠ .semicolon

section Heads

variable {shape : AnchorShape} {shapes : List AnchorShape} {slots : List PositionalSlot}
  {lexeme : Lexeme}

theorem head_vacant
    (found : (stopsSlots (shape :: shapes) (.vacant shape.slot :: slots)).head? =
      some (.token lexeme)) : (stopsSlots shapes slots).head? = some (.token lexeme) := by
  have none : stopsSlot shape.slot (.vacant shape.slot) = [] := by
    refine stopsSlot_eq_nil ?_
    cases shape.slot <;> rfl
  simpa [stopsSlots, none] using found

theorem leads_token {text : TokenText} {token : Token} (isToken : shape.slot = .token text)
    (fits : TokenFits text token.kind) (leads : leadsOn (shape :: shapes) = true)
    (found : (stopsSlots (shape :: shapes) (.token (some token.toLexeme) :: slots)).head? =
      some (.token lexeme)) (tokens : List Token) : Leads lexeme (token :: tokens) := by
  have here := (Bool.and_eq_true_iff.mp leads).1
  simp only [isToken, bne_iff_ne, ne_eq] at here
  simp only [stopsSlots, stopsSlot, List.cons_append, List.head?_cons, Option.some.injEq,
    Stop.token.injEq] at found
  refine ⟨token, tokens, rfl, found, fun isSemicolon => here ?_⟩
  rw [isSemicolon] at fits
  exact fits.eq_fixed

theorem not_head_child {child : Positional} :
    (stopsSlots (shape :: shapes) (.child (some child) :: slots)).head? ≠ some (.token lexeme) := by
  intro found
  rw [stopsSlots, stopsSlot, List.append_assoc, List.head?_append, head?_stops] at found
  cases found

theorem head_list {trees : List Positional} {separators : List Span}
    (found : (stopsSlots (shape :: shapes) (.list trees separators :: slots)).head? =
      some (.token lexeme)) :
    trees = [] ∧ (stopsSlots shapes slots).head? = some (.token lexeme) := by
  rw [stopsSlots, stopsSlot] at found
  exact eq_nil_of_head_token found

/-- Nothing stands behind a list that lets semicolons go. -/
theorem not_head_terminated {layout : ListLayout} (isList : shape.slot = .list layout)
    (separator : layout.separator = none) (leads : leadsOn (shape :: shapes) = true) :
    (stopsSlots shapes slots).head? ≠ some (.token lexeme) := by
  have last := (Bool.and_eq_true_iff.mp leads).1
  simp only [isList, separator, Option.isSome_none, Bool.false_or, List.isEmpty_iff] at last
  subst last
  cases slots <;> simp [stopsSlots]

end Heads

theorem SpellsSeparated.eq_nil {nodes : List Positional} {separators : List Span}
    {tokens : List Token} (content : SpellsSeparated nodes separators tokens) (none : nodes = []) :
    tokens = [] := by
  subst none
  cases content
  rfl

theorem Leads.behind {lexeme : Lexeme} {front tokens : List Token} (leads : Leads lexeme tokens)
    (none : front = []) : Leads lexeme (front ++ tokens) := by
  rwa [none]

/-- If a token is the first thing to stop at, then it is the first token. -/
theorem SpellsSlots.head_token : ∀ {kind : NodeKind} {shapes : List AnchorShape}
    {slots : List PositionalSlot} {tokens : List Token} {lexeme : Lexeme},
    SpellsSlots kind shapes slots tokens → leadsOn shapes = true →
    (stopsSlots shapes slots).head? = some (.token lexeme) → Leads lexeme tokens
  | _, _, _, _, _, .nil, _, found => by simp [stopsSlots] at found
  | _, _, _, _, _, .vacant empty rest, leads, found =>
      rest.head_token (Bool.and_eq_true_iff.mp leads).2 (head_vacant (empty ▸ found))
  | _, _, _, _, _, .token isToken fits _ _, leads, found => leads_token isToken fits leads found _
  | _, _, _, _, _, .child _ _ _ _, _, found => absurd found not_head_child
  | _, _, _, _, _, .separated _ _ content _ rest, leads, found =>
      (rest.head_token (Bool.and_eq_true_iff.mp leads).2 (head_list found).2).behind
        (content.eq_nil (head_list found).1)
  | _, _, _, _, _, .terminated isList separator _ _, leads, found =>
      absurd (head_list found).2 (not_head_terminated isList separator leads)

/-! ## Ends of separated lists -/

/-- A tree ends with its last token, if a line break behind it would end the statement. -/
theorem Spells.stop_of_ends {tree : Positional} {tokens : List Token} (spells : Spells tree tokens)
    (ends : Ends tokens) : ∃ front token, tokens = front ++ [token] ∧
      token.kind.endsStatement = true ∧ token.span.stop = tree.info.stop := by
  obtain ⟨token, isLast, closes⟩ := ends
  obtain ⟨front, rfl⟩ := List.getLast?_eq_some_iff.mp isLast
  refine ⟨front, token, rfl, closes, ?_⟩
  obtain ⟨before, last, back, split, shown, hidden, same⟩ := spells.stopsAt
  rw [← same]
  -- The last token is written, so it is the one the tree ends with.
  have visible : token.isImplicit = false :=
    isImplicit_of_kind fun isSemicolon => by simp [isSemicolon, TokenKind.endsStatement] at closes
  cases back using List.reverseRecOn with
  | nil => rw [(List.append_inj' split rfl).2 |> List.singleton_inj.mp]
  | append_singleton back hiddenLast =>
    have same : token = hiddenLast := by
      have := congrArg List.getLast? split
      simpa [List.getLast?_append, List.getLast?_cons] using this
    have := hidden hiddenLast (by simp)
    simp [← same, visible] at this

/-- The last token in front of the end of a list without a separator there. -/
theorem SpellsSeparated.getLast_token : ∀ {nodes : List Positional} {separators : List Span}
    {tokens : List Token} {offset : Nat}, SpellsSeparated nodes separators tokens →
    (stopsElements true separators nodes).getLast? = some (.last offset) →
    ∃ front token, tokens = front ++ [token] ∧ token.kind.endsStatement = true ∧
      token.span.stop = offset
  | _, _, _, _, .nil, found => by simp [stopsElements] at found
  | [node], _, _, offset, .last content ends, found => by
      have stop : node.info.stop = offset := by
        simpa [stopsElements, stops_eq_inner, Stop.behind] using found
      rw [← stop]
      exact content.stop_of_ends ends
  | _, _, _, offset, @SpellsSeparated.cons _ nodes comma separators front _ _ _ _ rest, found => by
      cases nodes with
      | nil => simp [stopsElements, stops_eq_inner, Stop.behind] at found
      | cons next nodes =>
        have later : (stopsElements true separators (next :: nodes)).getLast? =
            some (.last offset) := by
          have some : (stopsElements true separators (next :: nodes)).getLast? ≠ none := by
            simp [stopsElements, stops_eq_inner]
          obtain ⟨stop, isLast⟩ := Option.ne_none_iff_exists'.mp some
          rw [stopsElements, List.getLast?_append, List.drop_one, List.tail_cons, isLast] at found
          rw [isLast, ← found]
          rfl
        obtain ⟨before, token, rfl, closes, stop⟩ := rest.getLast_token later
        exact ⟨front ++ comma :: before, token, by simp, closes, stop⟩

/-! ## Neighbouring stops -/

section Stops

variable {text : String}

/-- Stops of a text with the last element of a list and the token behind it on one line. -/
abbrev Closed (text : String) (stops : List Stop) : Prop :=
  stops.IsChain (Close (.ofText text) (lex text).comments)

theorem close_of_ne_token {stop next : Stop} (other : ∀ lexeme, next ≠ .token lexeme) :
    Close (.ofText text) (lex text).comments stop next := fun _ lexeme _ isToken =>
  absurd isToken (other lexeme)

theorem close_of_ne_last {stop next : Stop} (other : ∀ offset, stop ≠ .last offset) :
    Close (.ofText text) (lex text).comments stop next := fun offset _ isLast _ =>
  absurd isLast (other offset)

theorem Stop.behind_ne_token (separated : Bool) (separator : Option Span) (isLast : Bool)
    (offset : Nat) (lexeme : Lexeme) : behind separated separator isLast offset ≠ .token lexeme := by
  unfold behind
  split
  · simp
  · split <;> simp

/-- The stops of list elements begin with a place. -/
theorem ne_token_of_mem_head? {separated : Bool} {separators : List Span}
    {trees : List Positional} {stop : Stop}
    (found : stop ∈ (stopsElements separated separators trees).head?) (lexeme : Lexeme) :
    stop ≠ .token lexeme := by
  cases trees with
  | nil => simp [stopsElements] at found
  | cons tree trees =>
    obtain ⟨kind, span, slots⟩ := tree
    rintro rfl
    simp [stopsElements, stops] at found

theorem closed_stopsElements {separated : Bool} {separators : List Span}
    {trees : List Positional} (inside : ∀ tree ∈ trees, Closed text (inner tree)) :
    Closed text (stopsElements separated separators trees) := by
  induction trees generalizing separators with
  | nil => simp [stopsElements]
  | cons tree trees ih =>
    obtain ⟨first, others⟩ := List.forall_mem_cons.mp inside
    rw [stopsElements, stops_eq_inner, List.append_assoc]
    refine List.isChain_append.mpr ⟨first, List.isChain_cons.mpr ⟨?_, ih others⟩, ?_⟩
    · exact fun next found => close_of_ne_token fun lexeme => ne_token_of_mem_head? found lexeme
    · rintro stop - next ⟨⟩
      exact close_of_ne_token fun lexeme => Stop.behind_ne_token _ _ _ _ lexeme

/-- The finish of an element of a list without separators is a place. -/
theorem ne_last_of_mem_getLast? {trees : List Positional} {stop : Stop}
    (found : stop ∈ (stopsElements false [] trees).getLast?) (offset : Nat) :
    stop ≠ .last offset := by
  induction trees with
  | nil => simp [stopsElements] at found
  | cons tree trees ih =>
    rintro rfl
    rw [stopsElements, stops_eq_inner, List.append_assoc, List.getLast?_append, List.drop_nil] at found
    cases rest : (stopsElements false [] trees).getLast? with
    | some stop =>
      rw [List.getLast?_append, rest] at found
      exact ih (by simpa [rest] using found) rfl
    | none =>
      rw [List.getLast?_append, rest] at found
      simp [Stop.behind] at found

/-- The last element of a list and the token behind it stand on one line. -/
theorem close_of_separated {kind : NodeKind} {shapes : List AnchorShape} {nodes : List Positional}
    {separators : List Span} {slots : List PositionalSlot} {front tokens : List Token}
    (content : SpellsSeparated nodes separators front)
    (rest : SpellsSlots kind shapes slots tokens) (leads : leadsOn shapes = true)
    (within : front ++ tokens <:+: (lex text).tokens) {stop next : Stop}
    (isLast : stop ∈ (stopsElements true separators nodes).getLast?)
    (isNext : next ∈ (stopsSlots shapes slots).head?) :
    Close (.ofText text) (lex text).comments stop next := by
  rintro offset lexeme rfl rfl
  obtain ⟨before, last, rfl, closes, rfl⟩ := content.getLast_token isLast
  obtain ⟨token, behind, rfl, rfl, goesOn⟩ := rest.head_token leads isNext
  obtain ⟨start, finish, split⟩ := within
  have parts : (lex text).tokens = (start ++ before) ++ last :: token :: (behind ++ finish) := by
    rw [← split]
    simp
  exact calm_of_ends parts closes goesOn

mutual
theorem Spells.closed : ∀ {tree : Positional} {tokens : List Token}, Spells tree tokens →
    tokens <:+: (lex text).tokens → Closed text (inner tree)
  | _, _, .node content _ _ _ _ _, within => by
      rw [inner]
      refine List.isChain_cons.mpr ⟨fun next _ => close_of_ne_last nofun, ?_⟩
      exact content.closed (bordered_standardShape _) within

theorem SpellsSlots.closed : ∀ {kind : NodeKind} {shapes : List AnchorShape}
    {slots : List PositionalSlot} {tokens : List Token}, SpellsSlots kind shapes slots tokens →
    bordered shapes = true → tokens <:+: (lex text).tokens → Closed text (stopsSlots shapes slots)
  | _, _, _, _, .nil, _, _ => by simp [stopsSlots]
  | _, shape :: _, _, _, .vacant empty rest, borders, within => by
      have none : stopsSlot shape.slot (.vacant shape.slot) = [] := by
        refine stopsSlot_eq_nil ?_
        cases shape.slot <;> rfl
      rw [stopsSlots, empty, none]
      exact rest.closed (Bool.and_eq_true_iff.mp borders).2 within
  | _, _, _, _, .token _ _ _ rest, borders, within => by
      rw [stopsSlots, stopsSlot]
      refine List.isChain_cons.mpr ⟨fun next _ => close_of_ne_last nofun, ?_⟩
      exact rest.closed (Bool.and_eq_true_iff.mp borders).2
        ((List.suffix_cons _ _).isInfix.trans within)
  | _, _, _, _, .child _ content _ rest, borders, within => by
      have inside := content.closed ((List.prefix_append _ _).isInfix.trans within)
      have behind := rest.closed (Bool.and_eq_true_iff.mp borders).2
        ((List.suffix_append _ _).isInfix.trans within)
      rw [stopsSlots, stopsSlot, stops_eq_inner, List.append_assoc, List.append_assoc]
      refine List.isChain_append.mpr ⟨inside, ?_, ?_⟩
      · refine List.isChain_cons.mpr ⟨fun next _ => close_of_ne_last nofun, ?_⟩
        exact List.isChain_cons.mpr ⟨fun next _ => close_of_ne_last nofun, behind⟩
      · rintro stop - next ⟨⟩
        exact close_of_ne_token nofun
  | _, shape :: shapes, _, _, .separated isList separator content _ rest, borders, within => by
      obtain ⟨leads, borders⟩ := Bool.and_eq_true_iff.mp borders
      have isSeparated : shape.slot.separator? = some "," := by
        rw [isList]
        exact separator
      have leads : leadsOn shapes = true := by simpa [isSeparated] using leads
      have behind := rest.closed borders ((List.suffix_append _ _).isInfix.trans within)
      have inside := content.closed ((List.prefix_append _ _).isInfix.trans within)
      rw [stopsSlots, stopsSlot, isSeparated]
      refine List.isChain_append.mpr ⟨closed_stopsElements inside, behind, ?_⟩
      exact fun stop isLast next isNext =>
        close_of_separated content rest leads within isLast isNext
  | _, shape :: _, _, _, .terminated isList separator content rest, borders, within => by
      have isTerminated : shape.slot.separator? = none := by
        rw [isList]
        exact separator
      have behind := rest.closed (Bool.and_eq_true_iff.mp borders).2
        ((List.suffix_append _ _).isInfix.trans within)
      have inside := content.closed ((List.prefix_append _ _).isInfix.trans within)
      rw [stopsSlots, stopsSlot, isTerminated]
      refine List.isChain_append.mpr ⟨closed_stopsElements inside, behind, ?_⟩
      exact fun stop isLast next _ => close_of_ne_last fun offset => ne_last_of_mem_getLast? isLast offset

theorem SpellsSeparated.closed : ∀ {nodes : List Positional} {separators : List Span}
    {tokens : List Token}, SpellsSeparated nodes separators tokens →
    tokens <:+: (lex text).tokens → ∀ node ∈ nodes, Closed text (inner node)
  | _, _, _, .nil, _ => by simp
  | _, _, _, .last content _, within => by simpa using content.closed within
  | _, _, _, .cons content _ _ rest, within => by
      refine List.forall_mem_cons.mpr ⟨?_, ?_⟩
      · exact content.closed ((List.prefix_append _ _).isInfix.trans within)
      · exact rest.closed ((List.suffix_cons _ _).isInfix.trans
          ((List.suffix_append _ _).isInfix.trans within))

theorem SpellsTerminated.closed : ∀ {nodes : List Positional} {tokens : List Token},
    SpellsTerminated nodes tokens → tokens <:+: (lex text).tokens →
    ∀ node ∈ nodes, Closed text (inner node)
  | _, _, .nil, _ => by simp
  | _, _, .skip _ rest, within => rest.closed ((List.suffix_cons _ _).isInfix.trans within)
  | _, _, .cons content rest, within => by
      refine List.forall_mem_cons.mpr ⟨?_, ?_⟩
      · exact content.closed ((List.prefix_append _ _).isInfix.trans within)
      · exact rest.closed ((List.suffix_append _ _).isInfix.trans within)
end

/-- **Lists on one line.** Where the last element of a list of a text has no separator behind
it and a token follows, the two stand on one line. -/
theorem closed_parse (clean : (parse text).diagnostics = []) :
    Closed text (stops .place (parse text).tree.root) := by
  have spells := spellsFile_parse (lawful_lex text) clean
  generalize (parse text).tree.root = root at spells ⊢
  generalize all : (lex text).tokens = tokens at spells
  cases spells with
  | @file slots front first last content filled begins isEnd =>
    have within : front <:+: (lex text).tokens := all ▸ (List.prefix_append _ _).isInfix
    rw [stops_eq_inner, inner]
    refine List.isChain_append.mpr ⟨List.isChain_cons.mpr ⟨?_, ?_⟩, .singleton _, ?_⟩
    · exact fun next _ => close_of_ne_last nofun
    · exact content.closed (bordered_standardShape .file) within
    · rintro stop - next ⟨⟩
      exact close_of_ne_token nofun

end Stops

end GoTrivia
