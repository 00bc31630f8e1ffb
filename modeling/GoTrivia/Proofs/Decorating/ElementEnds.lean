import GoTrivia.Proofs.Decorating.Neighbours
import GoTrivia.Proofs.Decorating.Placing
import GoTrivia.Proofs.Decorating.Slices
import GoTrivia.Proofs.Grammar.Edges
import GoTrivia.Proofs.Tree.Replacing

/-!
# The trivia at the end of a list element

Between the last token of a list element and the end of the element there is no room in the text.
The trivia there ends no line: there is none but that in front of the separator, which stands on the
line of the token.

**Places.** All fragments from the one behind the last token up to the finish of the element stand
at the same offset.  So what is there is told by offsets (`Hushed`), whatever the nodes are that
end there.
-/

set_option autoImplicit false

namespace GoTrivia

open CommentGap (Quiet)

namespace Layout

variable {layout : Layout} {resolver : LineResolver} {line : Nat → Nat}

/-! ## Gaps without room -/

/-- There is no room between the fragments around a gap. -/
def Touches (layout : Layout) (gap : Nat) : Prop :=
  ∃ prev next, layout.prev? gap = some prev ∧ layout.next? gap = some next ∧
    next.span.start = prev.span.stop

/-- Points between an offset and a place have no trivia that ends a line, but perhaps behind the one
at that place. -/
structure Hushed (layout : Layout) (offset last : Nat) : Prop where
  before : ∀ {place span}, place ≤ last → layout.next? place = some (.point span) →
    offset ≤ span.start → Quiet (layout.decorationAt place).before
  after : ∀ {place span}, place < last → layout.next? place = some (.point span) →
    offset ≤ span.stop → Quiet (layout.decorationAt place).after

namespace Lawful

variable (lawful : layout.Lawful resolver line)
include lawful

section Touching

variable {gap : Nat} (touches : layout.Touches gap)
include touches

theorem inGap_of_touches : layout.inGap gap = [] := by
  obtain ⟨prev, next, before, behind, touch⟩ := touches
  refine List.eq_nil_iff_forall_not_mem.mpr fun comment mem => ?_
  have := lawful.prev_le_of_mem mem before
  have := lawful.le_next_of_mem mem behind
  have := lawful.filled comment (mem_inGap.mp mem).1
  omega

theorem part_of_touches (side : Side) : layout.part gap side = [] := by
  rw [part, lawful.inGap_of_touches touches, List.filter_nil]

theorem breakOf_of_touches : layout.breakOf gap = [] := by
  have none := lawful.inGap_of_touches touches
  obtain ⟨prev, next, before, behind, touch⟩ := touches
  have feeds : layout.feeds prev.span.stop next.span.start = 0 := by
    rw [touch, lawful.feeds_eq (Nat.le_refl _), Nat.sub_self]
    refine lawful.clear_between behind (show [] ++ [] = _ from none.symm) (by simp) ?_ (by simp)
      (Nat.le_of_eq touch.symm)
    rintro fragment found
    obtain rfl := Option.some.inj (found.symm.trans before)
    exact Nat.le_refl _
  have lead : layout.leadOf gap = 0 := by
    simp only [leadOf, behind, none, leadFrom, List.getLast?_nil, before]
    exact feeds
  cases next with
  | point span => simp [breakOf, behind, lead, CommentGap.lineBreak]
  | separator span => simp [breakOf, behind]

end Touching

/-- Fragments come one behind the other. -/
theorem stop_le_of_lt {first second : Nat} {fragment next : Fragment} (less : first < second)
    (found : layout.next? first = some fragment) (behind : layout.next? second = some next) :
    fragment.span.stop ≤ next.span.start := by
  obtain ⟨_, rfl⟩ := List.getElem?_eq_some_iff.mp found
  obtain ⟨_, rfl⟩ := List.getElem?_eq_some_iff.mp behind
  exact List.pairwise_iff_getElem.mp lawful.apart _ _ _ _ less

theorem start_le_stop {place : Nat} {fragment : Fragment} (found : layout.next? place = some fragment) :
    fragment.span.start ≤ fragment.span.stop := lawful.ordered _ (List.mem_of_getElem? found)

section Ends

variable {token finish : Nat} {span : Span} (isToken : layout.next? token = some (.point span))
  (filled : span.start < span.stop)
  (isFinish : layout.next? finish = some (.point (.point span.stop)))
include isToken isFinish

/-- There is no room between a token and a point at its end. -/
theorem touches_of_ends {gap : Nat} (behind : token ≤ gap) (inside : gap < finish) :
    layout.Touches (gap + 1) := by
  have bound := (List.getElem?_eq_some_iff.mp isFinish).1
  have here : layout.next? gap = some layout.fragments[gap] := List.getElem?_eq_getElem (by omega)
  have there : layout.next? (gap + 1) = some layout.fragments[gap + 1] :=
    List.getElem?_eq_getElem (by omega)
  refine ⟨_, _, here, there, Nat.le_antisymm ?_ ?_⟩
  case refine_2 => exact lawful.stop_le_of_lt (Nat.lt_succ_self gap) here there
  have first : span.stop ≤ layout.fragments[gap].span.stop := by
    rcases Nat.eq_or_lt_of_le behind with rfl | less
    · obtain same := Option.some.inj (here.symm.trans isToken)
      exact Nat.le_of_eq (congrArg (·.span.stop) same.symm)
    · exact Nat.le_trans (lawful.stop_le_of_lt less isToken here) (lawful.start_le_stop here)
  have second : layout.fragments[gap + 1].span.start ≤ span.stop := by
    rcases Nat.eq_or_lt_of_le (Nat.succ_le_of_lt inside) with same | less
    · have same := Option.some.inj (there.symm.trans (same ▸ isFinish))
      exact Nat.le_of_eq (congrArg (·.span.start) same)
    · exact Nat.le_trans (lawful.start_le_stop there) (lawful.stop_le_of_lt less there isFinish)
  exact Nat.le_trans second first

include filled

/-- Up to a point at the end of a token no trivia ends a line, if none does in front of the separator
behind that point. -/
theorem hushed_of_ends
    (quiet : layout.isSeparator (finish + 1) = true →
      Quiet (layout.groupsOf (layout.part (finish + 1) .before))) :
    layout.Hushed span.stop finish := by
  have empty {gap : Nat} (behind : token ≤ gap) (inside : gap < finish) (side : Side) :
      layout.groupsOf (layout.part (gap + 1) side) = [] := by
    rw [lawful.part_of_touches (lawful.touches_of_ends isToken isFinish behind inside), groupsOf_nil]
  constructor
  case before =>
    intro place here inside found behind
    have later : token < place := by
      by_contra notLater
      rcases Nat.eq_or_lt_of_le (Nat.le_of_not_lt notLater) with rfl | less
      · cases isToken.symm.trans found
        omega
      · have := lawful.stop_le_of_lt less found isToken
        have := lawful.start_le_stop found
        simp only [Fragment.span] at *
        omega
    obtain ⟨gap, rfl⟩ := Nat.exists_eq_add_one_of_ne_zero (Nat.ne_zero_of_lt later)
    have touches : layout.Touches (gap + 1) :=
      lawful.touches_of_ends isToken isFinish (by omega) (by omega)
    rw [decorationAt, closing, lawful.part_of_touches touches, lawful.breakOf_of_touches touches]
    split
    · next separated =>
      rcases Nat.eq_or_lt_of_le inside with rfl | less
      · exact quiet separated
      · rw [empty (by omega) (by omega)]
        simp [Quiet]
    · simp [Quiet]
  case after =>
    intro place here inside found behind
    have later : token ≤ place := by
      by_contra notLater
      have := lawful.stop_le_of_lt (Nat.lt_of_not_le notLater) found isToken
      simp only [Fragment.span] at *
      omega
    rw [decorationAt, closing]
    split
    · next separated =>
      have less : place + 1 < finish := by
        refine Nat.lt_of_le_of_ne inside fun same => ?_
        rw [same, isSeparator_eq_false isFinish] at separated
        cases separated
      rw [empty (by omega) less]
      simp [Quiet]
    · rw [empty later inside]
      simp [Quiet]

end Ends

/-- Comments of the line in front of a separator end no line. -/
theorem quiet_before_separator {gap : Nat} {point separator : Span} {row : Nat}
    (before : layout.prev? gap = some (.point point))
    (behind : layout.next? gap = some (.separator separator))
    (starts : resolver.lineOf? point.stop = some row)
    (calm : ∀ comment ∈ layout.inGap gap, Calm resolver row comment) :
    Quiet (layout.groupsOf (layout.part gap .before)) := by
  have assigned := lawful.assign_gap behind
  rw [before] at assigned
  obtain ⟨row', groups, last, delta, found, grouped, -, same⟩ := CommentGap.assign_eq_ok.mp assigned
  have found : CommentGap.lineBefore resolver (some (.point point)) = .ok row' := found
  rw [CommentGap.lineBefore, CommentGap.lineOf_eq_ok.mpr (by exact starts)] at found
  obtain rfl := Except.ok.inj found
  obtain ⟨quiet, -⟩ := CommentGap.quiet_group calm (by simp [Quiet]) grouped
  obtain rfl : groups = _ := congrArg Assignment.before same
  exact (List.forall_mem_append.mp quiet).1

end Lawful

/-! ## Parts of a layout -/

/-- Fragments that stand in a layout from a place on, with the decorations of their points. -/
structure Sits (layout : Layout) (place : Nat) (fragments : List Fragment)
    (points : List Decoration) : Prop where
  here : fragments <+: layout.fragments.drop place
  points : points = (pointPlaces place fragments).map layout.decorationAt

namespace Sits

variable {place : Nat} {fragments more : List Fragment} {points others : List Decoration}

theorem cut (sits : layout.Sits place (fragments ++ more) (points ++ others))
    (lengths : points.length = (pointFragments fragments).length) :
    layout.Sits place fragments points ∧
      layout.Sits (place + fragments.length) more others := by
  have whole := sits.points
  rw [pointPlaces_append, List.map_append] at whole
  obtain ⟨first, second⟩ := List.append_inj whole (by rw [List.length_map, length_pointPlaces, lengths])
  obtain ⟨back, behind⟩ := sits.here
  rw [List.append_assoc] at behind
  refine ⟨⟨⟨more ++ back, behind⟩, first⟩, ⟨⟨back, ?_⟩, second⟩⟩
  rw [← List.drop_drop, ← behind, List.drop_left]

theorem next? {fragment : Fragment} (sits : layout.Sits place (fragment :: fragments) points) :
    layout.next? place = some fragment := by
  obtain ⟨back, behind⟩ := sits.here
  rw [Layout.next?, ← List.head?_drop, ← behind]
  rfl

/-- Fragments that sit somewhere are found behind each other. -/
theorem next?_add {index : Nat} {fragment : Fragment} (sits : layout.Sits place fragments points)
    (found : fragments[index]? = some fragment) : layout.next? (place + index) = some fragment := by
  obtain ⟨back, whole⟩ := sits.here
  have bound := (List.getElem?_eq_some_iff.mp found).1
  rw [Layout.next?, ← List.getElem?_drop, ← whole, List.getElem?_append_left bound, found]

theorem decoration {span : Span} {decoration : Decoration}
    (sits : layout.Sits place (.point span :: fragments) (decoration :: points)) :
    decoration = layout.decorationAt place :=
  (List.cons.inj sits.points).1

theorem behind {span : Span} {decoration : Decoration}
    (sits : layout.Sits place (.point span :: fragments) (decoration :: points)) :
    layout.Sits (place + 1) fragments points :=
  (@cut layout place [.point span] fragments [decoration] points sits rfl).2

theorem behindSeparator {separator : Option Span}
    (sits : layout.Sits place ((separator.map .separator).toList ++ fragments) points) :
    layout.Sits (place + (separator.map Fragment.separator).toList.length) fragments points := by
  have none : pointFragments (separator.map Fragment.separator).toList = [] := by
    cases separator <;> rfl
  exact (@cut layout place _ fragments [] points sits (by rw [none]; rfl)).2

end Sits

end Layout

/-! ## Tokens among fragments -/

section Tokens

open Positional
open SlotTree (tokensSlots tokensSlot tokensElements)

mutual
/-- The tokens of a tree are points of it. -/
theorem point_mem_fragments : ∀ (tree : Positional), ∀ lexeme ∈ tree.tokens,
    Fragment.point lexeme.span ∈ tree.fragments
  | .node kind span slots, lexeme, mem => by
      rw [fragments]
      exact List.mem_cons_of_mem _ (List.mem_append_left _ (point_mem_fragmentsSlots slots lexeme mem))

theorem point_mem_fragmentsSlots : ∀ (slots : List PositionalSlot), ∀ lexeme ∈ tokensSlots slots,
    Fragment.point lexeme.span ∈ fragmentsSlots slots
  | [], _, mem => by cases mem
  | slot :: slots, lexeme, mem => by
      rw [tokensSlots] at mem
      rw [fragmentsSlots_cons]
      rcases List.mem_append.mp mem with here | behind
      · exact List.mem_append_left _ (point_mem_fragmentsSlot slot lexeme here)
      · exact List.mem_append_right _ (point_mem_fragmentsSlots slots lexeme behind)

theorem point_mem_fragmentsSlot : ∀ (slot : PositionalSlot), ∀ lexeme ∈ tokensSlot slot,
    Fragment.point lexeme.span ∈ fragmentsSlots [slot]
  | .token none, _, mem => by cases mem
  | .token (some token), lexeme, mem => by
      obtain rfl := List.mem_singleton.mp mem
      rw [fragmentsSlots]
      exact List.mem_cons_self
  | .child none, _, mem => by cases mem
  | .child (some child), lexeme, mem => by
      rw [fragmentsSlots]
      exact List.mem_append_left _ (point_mem_fragments child lexeme mem)
  | .list elements separators, lexeme, mem => by
      rw [fragmentsSlots]
      exact List.mem_append_left _ (point_mem_fragmentsElements separators elements lexeme mem)

theorem point_mem_fragmentsElements : ∀ (separators : List Span) (trees : List Positional),
    ∀ lexeme ∈ tokensElements trees,
      Fragment.point lexeme.span ∈ fragmentsElements separators trees
  | _, [], _, mem => by cases mem
  | separators, tree :: trees, lexeme, mem => by
      rw [tokensElements] at mem
      rw [fragmentsElements, List.append_assoc]
      rcases List.mem_append.mp mem with here | behind
      · exact List.mem_append_left _ (point_mem_fragments tree lexeme here)
      · exact List.mem_append_right _ (List.mem_append_right _
          (point_mem_fragmentsElements (separators.drop 1) trees lexeme behind))
end

end Tokens

/-- The tokens of a tree end before it does. -/
theorem Layout.Lawful.stop_le_of_sits {layout : Layout} {resolver : LineResolver} {line : Nat → Nat}
    (lawful : layout.Lawful resolver line) {tree : Positional} {place : Nat} {points : List Decoration}
    (sits : layout.Sits place tree.fragments points) :
    ∀ lexeme ∈ tree.tokens, lexeme.span.stop ≤ tree.info.stop := by
  intro lexeme mem
  obtain ⟨kind, span, slots⟩ := tree
  rw [Positional.fragments] at sits
  obtain ⟨index, isToken⟩ := List.mem_iff_getElem?.mp (point_mem_fragmentsSlots slots lexeme mem)
  have bound := (List.getElem?_eq_some_iff.mp isToken).1
  have isToken : layout.next? (place + (index + 1)) = some (.point lexeme.span) :=
    sits.next?_add (by rw [List.getElem?_cons_succ, List.getElem?_append_left bound, isToken])
  have isFinish : layout.next? (place + ((Positional.fragmentsSlots slots).length + 1)) =
      some (.point (.point span.stop)) := sits.next?_add (by simp)
  exact lawful.stop_le_of_lt (by omega) isToken isFinish

/-! ## List elements of a text -/

/-- What follows a list element: its separator, which is the next token, or no separator. -/
inductive Layout.Follows (layout : Layout) (all tokens : List Token) (place : Nat) : Prop
  | other (none : layout.isSeparator place = false)
  | comma {comma : Token} (isComma : comma.kind = .comma) (inside : tokens ++ [comma] <:+: all)
      (found : layout.next? place = some (.separator comma.span))

/-- **Ends of elements.** In a text, a list element ends with its last token, and behind that no trivia
of the element ends a line. -/
theorem Layout.Lawful.hushed_element {text : String} {layout : Layout} {line : Nat → Nat}
    (lawful : layout.Lawful (.ofText text) line) (comments : layout.comments = (lex text).comments)
    {tree : Positional} {tokens : List Token} (spells : Spells tree tokens) (ends : Ends tokens)
    (inside : tokens <:+: (lex text).tokens) {place : Nat} {points : List Decoration}
    (sits : layout.Sits place tree.fragments points)
    (follows : layout.Follows (lex text).tokens tokens (place + tree.fragments.length)) :
    ∃ finish lexeme, place + tree.fragments.length = finish + 1 ∧
      tree.tokens.getLast? = some lexeme ∧ lexeme.text ≠ "" ∧ lexeme.span.stop = tree.info.stop ∧
      layout.Hushed tree.info.stop finish := by
  obtain ⟨front, token, rfl, closes, stop⟩ := spells.stop_of_ends ends
  have last := spells.getLast? closes List.getLast?_concat
  have mem : token ∈ (lex text).tokens := inside.subset (by simp)
  obtain ⟨visible, filled⟩ : token.text ≠ "" ∧ token.span.start < token.span.stop := by
    refine (regular_of_mem_lex mem).visible ?_ ?_ <;> intro other <;> rw [other] at closes <;>
      cases closes
  obtain ⟨kind, span, slots⟩ := tree
  have stop : token.span.stop = span.stop := stop
  -- The token is a point in front of the finish, both at the same offset.
  have size : place + (Positional.fragments (.node kind span slots)).length =
      place + ((Positional.fragmentsSlots slots).length + 1) + 1 := by
    simp [Positional.fragments, Nat.add_assoc]
  rw [size] at follows
  rw [Positional.fragments] at sits
  obtain ⟨index, isToken⟩ := List.mem_iff_getElem?.mp
    (point_mem_fragmentsSlots slots token.toLexeme (List.mem_of_getLast? last))
  have isToken : layout.next? (place + (index + 1)) = some (.point token.span) := sits.next?_add (by
    rw [List.getElem?_cons_succ,
      List.getElem?_append_left (List.getElem?_eq_some_iff.mp isToken).1, isToken])
  have isFinish : layout.next? (place + ((Positional.fragmentsSlots slots).length + 1)) =
      some (.point (.point token.span.stop)) := sits.next?_add (by simp [stop])
  refine ⟨_, token.toLexeme, size, last, visible, stop, ?_⟩
  rw [show (SlotTree.node kind span slots : Positional).info.stop = token.span.stop from stop.symm]
  refine lawful.hushed_of_ends isToken filled isFinish fun separated => ?_
  cases follows with
  | other none => cases none.symm.trans separated
  | @comma comma isComma inside behind =>
    obtain ⟨start, finish, split⟩ := inside
    obtain ⟨row, starts, -, calm⟩ := calm_of_ends
      (show (lex text).tokens = (start ++ front) ++ token :: comma :: finish by simp [← split]) closes
      (by simp [isComma])
    refine lawful.quiet_before_separator isFinish behind starts fun comment mem => ?_
    have first : token.span.stop ≤ comment.span.start := lawful.prev_le_of_mem mem isFinish
    have second : comment.span.stop ≤ comma.span.start := lawful.le_next_of_mem mem behind
    have known := (Layout.mem_inGap.mp mem).1
    have filled := lawful.filled comment known
    exact calm comment (comments ▸ known) first (Nat.lt_of_lt_of_le filled second)

end GoTrivia
