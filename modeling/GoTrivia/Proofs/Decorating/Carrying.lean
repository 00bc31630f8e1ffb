import GoTrivia.Proofs.Decorating.Placing
import GoTrivia.Proofs.Decorating.Slices
import GoTrivia.Proofs.Grammar.LineLists
import GoTrivia.Proofs.Tree.Replacing

/-!
# Comments that go with list elements

An element of a list on lines holds a slice of the comments of the text, and changing the list
takes the slice wherever the element goes (`Carries`).  A comment behind the element on its
line is in the slice, since what follows the element is a token that comes later.

**Clauses.** A clause ends with the last element of its body and has no token there.  So the
finish of the clause stands between that element and the comment behind it, and the comment
stays with the clause when the element goes.
-/

set_option autoImplicit false

namespace GoTrivia

open Decorated Positional

/-- The comments of a decorated tree, in source order. -/
def Decorated.comments (tree : Decorated) : List String :=
  (tree.points .standard).flatMap Decoration.comments

theorem comments_pointsElements (trees : List Decorated) :
    (pointsElements .standard trees).flatMap Decoration.comments = trees.flatMap Decorated.comments := by
  induction trees with
  | nil => rfl
  | cons tree trees ih => simp [pointsElements, ih, Decorated.comments]

/-! ## Elements and their comments -/

/-- An element of a list with these comments, and those in front of it and behind it.  A change
of the list leaves the comments around the list as they are, and every element brings its own. -/
inductive Carries (root : Decorated) (path : Path) (anchor : Anchor) (index : Nat) :
    List String → List String → List String → Prop
  | list {owner element : Decorated} {elements : List Decorated} {before after : List String}
      (found : root.follow path = .ok owner) (listed : owner.elements? anchor = some elements)
      (isElement : elements[index]? = some element)
      (edits : ∀ (edit : ListEdit) (others : List Decorated), edit.apply elements = .ok others →
        ∃ edited, editList owner anchor edit = .ok edited ∧
          comments (root.put path edited) = before ++ others.flatMap comments ++ after) :
      Carries root path anchor index (before ++ (elements.take index).flatMap comments)
        (comments element) ((elements.drop (index + 1)).flatMap comments ++ after)

/-- Removing an element removes its comments and no other ones. -/
theorem Carries.remove {root : Decorated} {path : Path} {anchor : Anchor} {index : Nat}
    {front held back : List String} (carries : Carries root path anchor index front held back) :
    ∃ owner edited, root.follow path = .ok owner ∧
      editList owner anchor (.remove index) = .ok edited ∧
      comments (root.put path edited) = front ++ back := by
  cases carries with
  | @list owner element elements before after found listed isElement edits =>
    have bound := (List.getElem?_eq_some_iff.mp isElement).1
    obtain ⟨edited, done, comments⟩ := edits (.remove index) (elements.eraseIdx index)
      (by simp [ListEdit.apply, bound])
    refine ⟨owner, edited, found, done, comments.trans ?_⟩
    simp [List.eraseIdx_eq_take_drop_succ]

namespace Layout.Lawful

variable {layout : Layout} {resolver : LineResolver} {line : Nat → Nat}
  (lawful : layout.Lawful resolver line)
include lawful

/-- Elements of lists carry the comments at home between their fragments. -/
theorem carries {root owner element : Positional} {decorated : Decorated} {path : Path}
    {anchor : Anchor} {place index : Nat} {elements : List Positional} {separators : List Span}
    (twin : Twin root decorated) (whole : layout.fragments = root.fragments)
    (holds : List.Forall₂ layout.Holds (pointPlaces 0 layout.fragments) (decorated.points .standard))
    (texts : decorated.comments = layout.comments.map Lexeme.text)
    (found : root.follow path = .ok owner) (isIndex : owner.indexOf? anchor = some place)
    (isList : owner.slots[place]? = some (.list elements separators))
    (isElement : elements[index]? = some element) :
    ∃ front back, layout.fragments = front ++ element.fragments ++
        (elementBack separators elements index ++ (slotBack owner place ++ back)) ∧
      Carries decorated path anchor index ((layout.within 0 front.length).map Lexeme.text)
        ((layout.within front.length (front.length + element.fragments.length)).map Lexeme.text)
        ((layout.within (front.length + element.fragments.length)
          layout.fragments.length).map Lexeme.text) := by
  obtain ⟨owner', front, back, found', twinOwner, split, framed⟩ := twin.follow found
  obtain ⟨elements', listed, twins, inside⟩ := twinOwner.elements isIndex isList
  obtain ⟨element', isElement', -⟩ := getElem?_of_forall₂ twins isElement
  obtain ⟨before, after, lengths, lengths', around⟩ :=
    framed.trans (fun others => owner'.setSlot anchor (.list others ())) inside
  have around : ∀ others, points .standard
      (decorated.put path (owner'.setSlot anchor (.list others ()))) =
        before ++ pointsElements .standard others ++ after := around
  -- Putting the same elements back changes nothing.
  have same : decorated.points .standard = before ++ pointsElements .standard elements' ++ after := by
    rw [← around elements', SlotTree.setSlot_eq_self listed, SlotTree.put_eq_self found']
  obtain ⟨bound, rfl⟩ := List.getElem?_eq_some_iff.mp isElement'
  have elementSplit : elements' = elements'.take index ++ elements'[index] :: elements'.drop (index + 1) := by
    rw [← List.drop_eq_getElem_cons bound, List.take_append_drop]
  have slotWhole : fragmentsSlots [.list elements separators] = fragmentsElements separators elements := by
    simp [fragmentsSlots]
  have fragmentSplit : layout.fragments =
      (front ++ slotFront owner place ++ fragmentsElements separators (elements.take index)) ++
        element.fragments ++
        (elementBack separators elements index ++ (slotBack owner place ++ back)) := by
    rw [whole, split, fragments_eq_slot isList, slotWhole, fragments_eq_element separators isElement]
    simp only [List.append_assoc]
  have pointSplit : decorated.points .standard =
      (before ++ pointsElements .standard (elements'.take index)) ++
        points .standard elements'[index] ++
        (pointsElements .standard (elements'.drop (index + 1)) ++ after) := by
    rw [same]
    conv_lhs => rw [elementSplit]
    rw [pointsElements_append, pointsElements]
    simp only [List.append_assoc]
  rw [pointSplit] at holds
  obtain ⟨first, inner, last⟩ := lawful.texts_of_split fragmentSplit holds
    (by simp [lengths, length_pointsElements separators _ (List.forall₂_take index twins),
      Nat.add_assoc])
    (by simp [elementBack, lengths', length_pointsElements (separators.drop (index + 1)) _
      (List.forall₂_drop (index + 1) twins)])
    (by rw [← pointSplit]; exact texts)
  refine ⟨_, back, fragmentSplit, ?_⟩
  rw [← first, ← inner, ← last, List.flatMap_append, List.flatMap_append, comments_pointsElements,
    comments_pointsElements]
  refine .list found' ?_ isElement' fun edit others applied => ?_
  · simp [SlotTree.elements?, listed]
  · refine ⟨owner'.setSlot anchor (.list others ()), ?_, ?_⟩
    · simp [editList, SlotTree.elements?, listed, applied, Except.map]
    · rw [Decorated.comments, around, List.flatMap_append, List.flatMap_append,
        comments_pointsElements]

/-! ## Comments behind a point -/

variable {comment : Lexeme} {place : Nat} {point next : Span}

/-- A comment on the line of a point, in front of the next point, is at home behind the point. -/
theorem home_of_lt_next (mem : comment ∈ layout.comments)
    (here : layout.fragments[place]? = some (.point point))
    (behind : layout.fragments[place + 1]? = some (.point next))
    (after : point.start ≤ comment.span.start)
    (feeds : layout.feeds point.stop comment.span.start = 0)
    (before : comment.span.start < next.start) : layout.home comment = (place, .after) := by
  have low := (lawful.lt_gapOf_iff comment here).mpr after
  have high := (lawful.lt_gapOf_iff comment behind).not.mpr (Nat.not_le_of_lt before)
  have gap : layout.gapOf comment = place + 1 := by omega
  have home := home_between_points (mem_inGap.mpr ⟨mem, gap⟩) here behind
  rwa [if_pos feeds] at home

/-- A comment behind the next point is at home there or further on. -/
theorem lt_home_of_next_le (mem : comment ∈ layout.comments)
    (behind : layout.fragments[place + 1]? = some (.point next))
    (after : next.start ≤ comment.span.start) : place + 1 ≤ (layout.home comment).1 := by
  have low := (lawful.lt_gapOf_iff comment behind).mpr after
  cases lawful.housed mem with
  | behind _ _ home => simp only [home]; omega
  | front _ _ _ gap _ _ home => simp only [home]; omega
  | preceding _ _ _ gap _ _ home => simp only [home]; omega
  | following other _ _ _ gap _ between _ home =>
    simp only [home]
    have apart : other ≠ place := by
      rintro rfl
      exact absurd (between.symm.trans behind) (by simp)
    omega

end Layout.Lawful

/-! ## Comments on the line of an element -/

/-- A comment behind an element: no line feed outside comments stands between the two, and no
token but semicolons. -/
structure Trails (text : String) (element : Positional) (comment : Lexeme) : Prop where
  behind : element.info.stop ≤ comment.span.start
  feeds : feedsBetween text element.info.stop comment.span.start = 0
  clear : ∀ token ∈ (lex text).tokens, element.info.stop ≤ token.span.start →
    token.span.stop ≤ comment.span.start → token.kind = .semicolon

/-- A comment that trails an element of a clause, the last one, and stands behind the clause. -/
def LeavesClause (owner : Positional) (anchor : Anchor) (index : Nat) (comment : Lexeme) : Prop :=
  owner.kind = .caseClause ∧ index + 1 = (owner.elements anchor).length ∧
    owner.info.stop ≤ comment.span.start

instance (text : String) (element : Positional) (comment : Lexeme) :
    Decidable (Trails text element comment) :=
  decidable_of_iff (element.info.stop ≤ comment.span.start ∧
      feedsBetween text element.info.stop comment.span.start = 0 ∧
      ∀ token ∈ (lex text).tokens, element.info.stop ≤ token.span.start →
        token.span.stop ≤ comment.span.start → token.kind = .semicolon)
    ⟨fun ⟨behind, feeds, clear⟩ => ⟨behind, feeds, clear⟩, fun ⟨behind, feeds, clear⟩ =>
      ⟨behind, feeds, clear⟩⟩

instance (owner : Positional) (anchor : Anchor) (index : Nat) (comment : Lexeme) :
    Decidable (LeavesClause owner anchor index comment) :=
  inferInstanceAs (Decidable (_ ∧ _ ∧ _))

section Texts

variable {text : String} {comment : Lexeme}

/-- Tokens behind an element come behind the comments that trail it. -/
theorem Trails.lt_start {element : Positional} {token : Token} (trails : Trails text element comment)
    (mem : comment ∈ (lex text).comments) (isToken : token ∈ (lex text).tokens)
    (solid : token.kind ≠ .semicolon) (apart : element.info.stop ≤ token.span.start) :
    comment.span.start < token.span.start := by
  obtain ⟨closed, isItem⟩ := mem_items_of_comment mem
  have filled := lt_of_mem_items isItem
  by_contra late
  rcases (clear_tokens text token isToken).1 comment mem with before | after
  · exact solid (trails.clear token isToken apart before)
  · omega

/-- A list on lines of a node that was read from the tokens of a text. -/
structure LineList (text : String) (owner : Positional) (anchor : Anchor) (place : Nat)
    (elements : List Positional) : Prop where
  isIndex : owner.indexOf? anchor = some place
  found : owner.slots[place]? = some (.list elements [])
  listed : ∀ element ∈ elements, SpelledIn (lex text).tokens element
  closed : owner.slots.drop (place + 1) = [] ∧ (owner.kind = .file ∨ owner.kind = .caseClause) ∨
    ∃ token ∈ (lex text).tokens, token.kind ≠ .semicolon ∧
      owner.slots.drop (place + 1) = [.token (some token.toLexeme)]

theorem exists_lineList {owner element : Positional} {anchor : Anchor} {index : Nat}
    (read : ReadIn (lex text).tokens owner) (lined : onLines owner anchor = true)
    (isElement : (owner.elements anchor)[index]? = some element) :
    ∃ place, LineList text owner anchor place (owner.elements anchor) := by
  obtain ⟨place, shape, layout, isIndex, shaped, isList, isLines⟩ := exists_shape_of_onLines lined
  cases slot : owner.slots[place]? with
  | none => simp [SlotTree.elements, SlotTree.elements?, SlotTree.slot?, isIndex, slot] at isElement
  | some content =>
    cases content with
    | token | child =>
      simp [SlotTree.elements, SlotTree.elements?, SlotTree.slot?, isIndex, slot] at isElement
    | list elements separators =>
      have whole : owner.elements anchor = elements := by
        simp [SlotTree.elements, SlotTree.elements?, SlotTree.slot?, isIndex, slot]
      obtain ⟨rfl, listed, closed⟩ := read.onLines shaped isList isLines slot
      rw [whole]
      exact ⟨place, isIndex, slot, listed, closed⟩

/-- What comes behind an element of a list on lines: a point behind the comments that trail the
element, or the finish of a clause in front of them. -/
theorem LineList.exists_next {owner element : Positional} {anchor : Anchor} {place index : Nat}
    {elements : List Positional} (list : LineList text owner anchor place elements)
    (isElement : elements[index]? = some element)
    (isComment : comment ∈ (lex text).comments) (trails : Trails text element comment)
    (inFile : owner.kind = .file → comment.span.start < owner.info.stop) {back : List Fragment}
    (apart : (elementBack [] elements index ++ (slotBack owner place ++ back)).Pairwise
      fun fragment next => fragment.span.stop ≤ next.span.start)
    (behind : ∀ fragment ∈ elementBack [] elements index ++ (slotBack owner place ++ back),
      element.info.stop ≤ fragment.span.start) :
    ∃ next rest, elementBack [] elements index ++ (slotBack owner place ++ back) =
        .point next :: rest ∧
      (comment.span.start < next.start ∧ ¬LeavesClause owner anchor index comment ∨
        next.start ≤ comment.span.start ∧ LeavesClause owner anchor index comment) := by
  have whole : owner.elements anchor = elements := by
    simp [SlotTree.elements, SlotTree.elements?, SlotTree.slot?, list.isIndex, list.found]
  have bound := (List.getElem?_eq_some_iff.mp isElement).1
  cases rest : elements.drop (index + 1) with
  | cons following others =>
    have isNext : following ∈ elements := List.mem_of_mem_drop (i := index + 1) (by simp [rest])
    obtain ⟨tokens, segment, spells⟩ := list.listed following isNext
    obtain ⟨first, tail, begins⟩ := List.exists_cons_of_ne_nil spells.ne_nil
    have start := spells.start (by rw [begins]; rfl)
    have shown : ∃ more, elementBack [] elements index ++ (slotBack owner place ++ back) =
        .point (.point following.info.start) :: more := by
      obtain ⟨kind, span, slots⟩ := following
      rw [elementBack, rest, fragmentsElements, fragments]
      simp only [List.drop_nil, List.head?_nil, Option.map_none, Option.toList_none,
        List.nil_append, List.cons_append]
      exact ⟨_, rfl⟩
    obtain ⟨more, shown⟩ := shown
    refine ⟨_, more, shown, .inl ⟨?_, fun leaves => ?_⟩⟩
    · have isFirst : first ∈ tokens := by simp [begins]
      have solid := spells.opensSolid first (by rw [begins]; rfl)
      have later := behind (.point (.point following.info.start)) (by simp [shown])
      have := trails.lt_start isComment (segment.subset isFirst) solid (by rw [← start]; exact later)
      rwa [← start] at this
    · have last := leaves.2.1
      rw [whole] at last
      have := congrArg List.length rest
      simp at this
      omega
  | nil =>
    have last : index + 1 = elements.length := by
      have := List.drop_eq_nil_iff.mp rest
      omega
    have none : elementBack [] elements index = [] := by simp [elementBack, rest, fragmentsElements]
    rw [none, List.nil_append] at apart behind ⊢
    rcases list.closed with ⟨bare, kinds⟩ | ⟨token, isToken, solid, closing⟩
    · rw [slotBack, bare] at apart behind ⊢
      refine ⟨_, _, rfl, ?_⟩
      by_cases early : comment.span.start < owner.info.stop
      · exact .inl ⟨early, fun leaves => Nat.not_le_of_lt early leaves.2.2⟩
      · refine .inr ⟨Nat.le_of_not_lt early, ?_, by rw [whole]; exact last, Nat.le_of_not_lt early⟩
        exact kinds.resolve_left fun isFile => early (inFile isFile)
    · have shown : slotBack owner place ++ back =
          .point token.span :: .point (.point owner.info.stop) :: back := by
        simp [slotBack, closing, fragmentsSlots]
      rw [shown] at apart behind ⊢
      have later := behind (.point token.span) (by simp)
      have early := trails.lt_start isComment isToken solid later
      have ordered : token.span.start ≤ token.span.stop := ordered_of_mem_items (mem_items_of_token isToken)
      have inside : token.span.stop ≤ owner.info.stop :=
        (List.pairwise_cons.mp apart).1 (.point (.point owner.info.stop)) (by simp)
      refine ⟨_, _, rfl, .inl ⟨early, fun leaves => ?_⟩⟩
      have := leaves.2.2
      omega

/-- The comments of an element among those of a layout, and which of the comments that trail it
are among them. -/
theorem carries_of_lineList {layout : Layout} {resolver : LineResolver} {line : Nat → Nat}
    (lawful : layout.Lawful resolver line) {root owner element : Positional} {decorated : Decorated}
    (whole : layout.fragments = root.fragments) (comments : layout.comments = (lex text).comments)
    (feeds : layout.feeds = feedsBetween text) (twin : Twin root decorated)
    (holds : List.Forall₂ layout.Holds (Layout.pointPlaces 0 layout.fragments)
      (decorated.points .standard))
    (texts : decorated.comments = layout.comments.map Lexeme.text) {path : Path} {anchor : Anchor}
    {place index : Nat} {elements : List Positional} (found : root.follow path = .ok owner)
    (inFile : ∀ comment ∈ (lex text).comments, owner.kind = .file →
      comment.span.start < owner.info.stop)
    (list : LineList text owner anchor place elements)
    (isElement : elements[index]? = some element) :
    ∃ front held back, (lex text).comments = front ++ held ++ back ∧
      Carries decorated path anchor index (front.map Lexeme.text) (held.map Lexeme.text)
        (back.map Lexeme.text) ∧
      ∀ comment ∈ (lex text).comments, Trails text element comment →
        (comment ∈ held ↔ ¬LeavesClause owner anchor index comment) := by
  obtain ⟨front, back, split, carries⟩ := lawful.carries twin whole holds texts found list.isIndex
    list.found isElement
  have size : layout.fragments.length ≥ front.length + element.fragments.length := by
    simp [split]
  refine ⟨_, _, _, ?_, carries, fun comment mem trails => ?_⟩
  · rw [← comments, ← lawful.within_append (Nat.zero_le _) (Nat.le_add_right _ _),
      ← lawful.within_append (Nat.zero_le _) size]
    exact lawful.comments_eq_within
  -- The finish of the element is its last point.
  have last : element.fragments = innerFragments element ++ [.point (.point element.info.stop)] :=
    fragments_eq_inner element
  have apart := lawful.apart
  rw [split, last, ← List.append_assoc front, List.append_assoc _ [_]] at apart
  obtain ⟨-, apart, -⟩ := List.pairwise_append.mp apart
  obtain ⟨behind, apart⟩ := List.pairwise_cons.mp apart
  obtain ⟨next, rest, shown, verdict⟩ := list.exists_next isElement mem trails (inFile comment mem)
    apart behind
  have places : layout.fragments = (front ++ innerFragments element) ++
      .point (.point element.info.stop) :: .point next :: rest := by
    rw [split, last, shown]
    simp
  have here : layout.fragments[(front ++ innerFragments element).length]? =
      some (.point (.point element.info.stop)) := by simp [places]
  have isNext : layout.fragments[(front ++ innerFragments element).length + 1]? =
      some (.point next) := by
    rw [places, List.getElem?_append_right (Nat.le_add_right _ 1)]
    simp
  rw [← comments] at mem
  have count : (front ++ innerFragments element).length + 1 =
      front.length + element.fragments.length := by
    rw [last]
    simp [Nat.add_assoc]
  rw [Layout.mem_within, ← count]
  rcases verdict with ⟨before, stays⟩ | ⟨after, leaves⟩
  · have home := lawful.home_of_lt_next mem here isNext trails.behind
      (by rw [feeds]; exact trails.feeds) before
    refine iff_of_true ⟨mem, ?_⟩ stays
    rw [home, List.length_append]
    dsimp only
    omega
  · have home := lawful.lt_home_of_next_le mem isNext after
    exact iff_of_false (fun inside => by omega) (not_not.mpr leaves)

end Texts

/-- **Comments of elements.** An element of a list on lines carries a slice of the comments of a
text.  A comment that trails the element is in the slice unless it leaves a clause. -/
theorem carries_decorate (text : String) (resolver : LineResolver)
    (indexes : resolver.Indexes text) (clean : (parse text).diagnostics = []) :
    ∃ tree, decorateWith resolver text = .ok tree ∧
      ∀ path owner anchor, (parse text).tree.root.follow path = .ok owner →
        onLines owner anchor = true →
        ∀ index element, (owner.elements anchor)[index]? = some element →
          ∃ front held back, (lex text).comments = front ++ held ++ back ∧
            Carries tree.root path anchor index (front.map Lexeme.text) (held.map Lexeme.text)
              (back.map Lexeme.text) ∧
            ∀ comment ∈ (lex text).comments, Trails text element comment →
              (comment ∈ held ↔ ¬LeavesClause owner anchor index comment) := by
  obtain ⟨assignments, assigned, decorated⟩ := exists_decorate clean
  have kinded := kinded_parse clean
  have lawful := Layout.lawful_ofText (indexes_ofText text) clean
  rw [decorateWith_eq indexes]
  have spells := spellsFile_parse (lawful_lex text) clean
  have early := lt_stop_of_mem_comments clean
  refine ⟨_, decorated, fun path owner anchor found lined index element isElement => ?_⟩
  have whole : (Layout.ofText text).fragments = (parse text).tree.root.fragments := by
    simp only [Layout.ofText]
  have comments : (Layout.ofText text).comments = (lex text).comments := by simp only [Layout.ofText]
  have feeds : (Layout.ofText text).feeds = feedsBetween text := by simp only [Layout.ofText]
  rw [← comments] at assigned
  generalize Layout.ofText text = layout at lawful whole comments feeds assigned
  generalize (parse text).tree.root = root at whole assigned kinded spells early found ⊢
  have points := points_rebuild Registry.distinct_standard kinded
    (CommentGap.conserved_decorations assigned).1
  have holds : List.Forall₂ layout.Holds (Layout.pointPlaces 0 layout.fragments)
      (CommentGap.decorations none assignments) := by
    rw [← whole] at assigned
    exact lawful.forall₂_holds assigned
  have texts := CommentGap.comments_decorations assigned
  rw [← points] at holds texts
  have mem := SlotTree.mem_preorder_of_follow found
  obtain ⟨place, list⟩ := exists_lineList (spells.readIn owner mem) lined isElement
  refine carries_of_lineList lawful whole comments feeds (twin_rebuild kinded _) holds texts found
    (fun comment mem' isFile => ?_) list isElement
  rw [spells.eq_root mem isFile]
  exact early comment mem'

/-- Whether a comment trails an element of a list on lines. -/
def trailsAt (text : String) (path : Path) (anchor : Anchor) (index : Nat) (comment : Lexeme) : Bool :=
  ((parse text).tree.root.follow path).toOption.any fun owner => onLines owner anchor &&
    (owner.elements anchor)[index]?.any fun element => decide (Trails text element comment)

theorem exists_of_trailsAt {text : String} {path : Path} {anchor : Anchor} {index : Nat}
    {comment : Lexeme} (known : trailsAt text path anchor index comment = true) :
    ∃ owner element, (parse text).tree.root.follow path = .ok owner ∧ onLines owner anchor = true ∧
      (owner.elements anchor)[index]? = some element ∧ Trails text element comment := by
  obtain ⟨owner, found, known⟩ := (Option.any_eq_true _ _).mp known
  obtain ⟨lined, known⟩ := Bool.and_eq_true_iff.mp known
  obtain ⟨element, isElement, trails⟩ := (Option.any_eq_true _ _).mp known
  refine ⟨owner, element, ?_, lined, isElement, by simpa using trails⟩
  cases followed : (parse text).tree.root.follow path with
  | error anchor => simp [followed, Except.toOption] at found
  | ok other =>
    rw [followed] at found
    exact congrArg Except.ok (Option.some.inj found)

/-- A function with a call and a comment behind it. -/
def trailedCall : String := "package p\n\nfunc f() \x7b\n\tg() // c\n\x7d\n"

theorem carries_trailedCall :
    ∃ tree, decorate trailedCall = .ok tree ∧
      Carries tree.root [.element .decls 0, .child .body] .list 0 [] ["// c"] [] := by
  have comments : (lex trailedCall).comments = [⟨"// c", ⟨27, 31⟩⟩] := by decide +kernel
  obtain ⟨owner, element, found, lined, isElement, trails⟩ := exists_of_trailsAt
    (show trailsAt trailedCall [.element .decls 0, .child .body] .list 0 ⟨"// c", ⟨27, 31⟩⟩ = true by
      decide +kernel)
  have block : ((parse trailedCall).tree.root.follow [.element .decls 0, .child .body]).toOption.map
      SlotTree.kind = some .blockStmt := by decide +kernel
  have stays : ¬LeavesClause owner .list 0 ⟨"// c", ⟨27, 31⟩⟩ := by
    rw [found] at block
    intro leaves
    simp [Except.toOption, leaves.1] at block
  obtain ⟨tree, decorated, carries⟩ := carries_decorate trailedCall _ (indexes_ofText _) (by decide +kernel)
  obtain ⟨front, held, back, split, carries, stored⟩ :=
    carries _ owner _ found lined 0 element isElement
  have mem := (stored _ (by simp [comments]) trails).mpr stays
  rw [comments] at split
  obtain ⟨before, after, rfl⟩ := List.append_of_mem mem
  obtain ⟨rfl, rfl, rfl, rfl⟩ : front = [] ∧ before = [] ∧ after = [] ∧ back = [] := by
    have lengths := congrArg List.length split
    simp only [List.length_append, List.length_cons, List.length_nil] at lengths
    simp only [← List.length_eq_zero_iff]
    omega
  exact ⟨tree, decorated, carries⟩

/-- A clause that ends with a call and a comment behind it. -/
def trailedClause : String :=
  "package p\n\nfunc f() \x7b\n\tswitch \x7b\n\tcase a:\n\t\tg() // c\n\t\x7d\n\x7d\n"

/-- The path to the clause. -/
def clausePath : Path :=
  [.element .decls 0, .child .body, .element .list 0, .child .body, .element .list 0]

/-- The last call of the clause has no comments, although one trails it. -/
theorem comments_trailedClause :
    (parse trailedClause).diagnostics = [] ∧
      (∃ owner element, (parse trailedClause).tree.root.follow clausePath = .ok owner ∧
        onLines owner .body = true ∧ (owner.elements .body)[0]? = some element ∧
        ⟨"// c", ⟨47, 51⟩⟩ ∈ (lex trailedClause).comments ∧
        Trails trailedClause element ⟨"// c", ⟨47, 51⟩⟩) ∧
      ((decorate trailedClause).toOption.map fun tree =>
        (tree.root.follow (clausePath ++ [.element .body 0])).toOption.map Decorated.comments) =
          some (some []) := by
  obtain ⟨owner, element, found, lined, isElement, trails⟩ := exists_of_trailsAt
    (show trailsAt trailedClause clausePath .body 0 ⟨"// c", ⟨47, 51⟩⟩ = true by decide +kernel)
  exact ⟨by decide +kernel, ⟨owner, element, found, lined, isElement, by decide +kernel, trails⟩,
    by decide +kernel⟩

end GoTrivia
