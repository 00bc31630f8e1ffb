import GoTrivia.Proofs.Decorating.Conserving
import GoTrivia.Proofs.Decorating.Stations
import GoTrivia.Proofs.Printing.Refusing
import GoTrivia.Proofs.Restoring.Passing

/-!
# Texts printed from their own trees

The tree of a text, decorated and printed without any edit, gives the tokens and comments of
the text back in their order.  Semicolons come and go with the lines, and a separator behind
the last element of a list may be left out; nothing else is lost, repeated or moved.

The trail of the decorated tree leads past the stations of the text in the order of their offsets,
and there the items of the text are met (`Meets`).
-/

set_option autoImplicit false

namespace GoTrivia

open Print (Mark)
open Positional (stops stopsSlots)

/-- Whether a mark is an item that is no semicolon. -/
def Print.Mark.isSolid : Mark → Bool
  | token text => text != ";"
  | comment _ => true
  | space => false
  | tab => false
  | lineFeed => false

/-- The items of a text are written in order, each once.  Semicolons and the end of the text
are passed over, and certain tokens may be left out. -/
inductive Reprints (mayOmit : List Span) : List Item → List Mark → Prop
  | nil : Reprints mayOmit [] []
  | comment (lexeme : Lexeme) (closed : Bool) {items : List Item} {marks : List Mark}
      (rest : Reprints mayOmit items marks) :
      Reprints mayOmit (.comment lexeme closed :: items) (.comment lexeme.text :: marks)
  | token (token : Token) (solid : token.isSolid = true) {items : List Item} {marks : List Mark}
      (rest : Reprints mayOmit items marks) :
      Reprints mayOmit (.token token :: items) (.token token.text :: marks)
  | passed (token : Token) (other : token.isSolid = false) {items : List Item}
      {marks : List Mark} (rest : Reprints mayOmit items marks) :
      Reprints mayOmit (.token token :: items) marks
  | omitted (token : Token) (may : token.span ∈ mayOmit) {items : List Item} {marks : List Mark}
      (rest : Reprints mayOmit items marks) : Reprints mayOmit (.token token :: items) marks

/-- The same with the semicolons that are written: each is one of the text. -/
inductive Keeps (mayOmit : List Span) : List Item → List Mark → Prop
  | nil : Keeps mayOmit [] []
  | comment (lexeme : Lexeme) (closed : Bool) {items : List Item} {marks : List Mark}
      (rest : Keeps mayOmit items marks) :
      Keeps mayOmit (.comment lexeme closed :: items) (.comment lexeme.text :: marks)
  | token (token : Token) (solid : token.isSolid = true) (other : token.text ≠ ";")
      {items : List Item} {marks : List Mark} (rest : Keeps mayOmit items marks) :
      Keeps mayOmit (.token token :: items) (.token token.text :: marks)
  | semicolon (token : Token) (isSemicolon : token.kind = .semicolon) (written : token.text = ";")
      {items : List Item} {marks : List Mark} (rest : Keeps mayOmit items marks) :
      Keeps mayOmit (.token token :: items) (.token token.text :: marks)
  | passed (token : Token) (other : token.isSolid = false) {items : List Item}
      {marks : List Mark} (rest : Keeps mayOmit items marks) :
      Keeps mayOmit (.token token :: items) marks
  | omitted (token : Token) (may : token.span ∈ mayOmit) {items : List Item} {marks : List Mark}
      (rest : Keeps mayOmit items marks) : Keeps mayOmit (.token token :: items) marks

/-! ## Items that are met -/

namespace Keeps

variable {mayOmit : List Span} {all items : List Item} {marks : List Mark}

/-- What a text does not hold is passed over. -/
theorem of_shown
    (hidden : ∀ item ∈ all, item.isShown = false → ∃ token, item = .token token ∧
      token.isSolid = false)
    (keeps : Keeps mayOmit (all.filter Item.isShown) marks) : Keeps mayOmit all marks := by
  induction all generalizing marks with
  | nil => exact keeps
  | cons item all ih =>
    obtain ⟨here, others⟩ := List.forall_mem_cons.mp hidden
    cases shown : item.isShown with
    | false =>
      obtain ⟨token, rfl, other⟩ := here shown
      rw [List.filter_cons_of_neg (by simp [shown])] at keeps
      exact .passed token other (ih others keeps)
    | true =>
      rw [List.filter_cons_of_pos shown] at keeps
      cases keeps with
      | comment lexeme closed rest => exact .comment lexeme closed (ih others rest)
      | token token solid other rest => exact .token token solid other (ih others rest)
      | semicolon token isSemicolon written rest =>
        exact .semicolon token isSemicolon written (ih others rest)
      | passed token other rest => exact .passed token other (ih others rest)
      | omitted token may rest => exact .omitted token may (ih others rest)

/-- Without the semicolons that are written, the items are those of the text. -/
theorem reprints (keeps : Keeps mayOmit items marks) :
    Reprints mayOmit items (marks.filter Mark.isSolid) := by
  induction keeps with
  | nil => exact .nil
  | comment lexeme closed rest ih => exact .comment lexeme closed ih
  | token token solid other rest ih =>
    rw [List.filter_cons_of_pos (by simpa [Mark.isSolid] using other)]
    exact .token token solid ih
  | semicolon token isSemicolon written rest ih =>
    rw [List.filter_cons_of_neg (by simp [Mark.isSolid, written])]
    exact .passed token (by simp [Token.isSolid, isSemicolon]) ih
  | passed token other rest ih => exact .passed token other ih
  | omitted token may rest ih => exact .omitted token may ih

end Keeps

/-- The items that are met on a way are written. -/
theorem Meets.keeps {text : String} {mayOmit : List Span} {last : Option Item}
    {stations : List Station} {items : List Item} (meets : Meets text mayOmit last stations items)
    (held : items ⊆ shownItems text) (line : Nat → Nat) (row : Option Nat) :
    Keeps mayOmit items (written (course line row stations)) := by
  rw [written_course]
  induction meets with
  | nil => exact .nil
  | bare steps _ _ ih =>
    rw [List.flatMap_cons, steps, written_nil, List.nil_append]
    exact ih held
  | @item _ item _ stations _ writes _ ih =>
    obtain ⟨here, others⟩ := List.cons_subset.mp held
    rw [List.flatMap_cons, writes.steps]
    cases item with
    | comment lexeme closed => exact .comment lexeme closed (ih others)
    | token token =>
      by_cases isSemicolon : token.text = ";"
      · have regular := regular_of_mem_lex (List.mem_filterMap.mpr
          ⟨_, (mem_shownItems.mp here).1, rfl⟩)
        exact .semicolon token (by_contra fun other => regular.plain other isSemicolon)
          isSemicolon (ih others)
      · exact .token token ((isSolid_iff here).mpr isSemicolon) isSemicolon (ih others)
  | @passed _ item _ _ may _ ih =>
    obtain ⟨here, others⟩ := List.cons_subset.mp held
    cases item with
    | comment lexeme closed => cases may
    | token token =>
      rcases may with isSemicolon | omitted
      · have other : token.isSolid = false :=
          Bool.eq_false_iff.mpr fun solid => (isSolid_iff here).mp solid isSemicolon
        exact .passed token other (ih others)
      · exact .omitted token omitted (ih others)

/-! ## Trees of texts -/

theorem length_pointFragments_stops (stops : List Stop) :
    (pointFragments (stops.flatMap Stop.fragments)).length = stops.length := by
  induction stops with
  | nil => rfl
  | cons stop stops ih =>
    rw [List.flatMap_cons, pointFragments_append, List.length_append, ih, List.length_cons,
      Nat.add_comm]
    cases stop <;> rfl

/-- The trail of a decorated tree is the course past its stops and its comments. -/
theorem fullTrail_eq_course {resolver : LineResolver} {line : Nat → Nat} {root : Positional}
    {comments : List Lexeme} {assignments : List (CommentGap × Assignment)}
    (placed : ∀ offset row, resolver.lineOf? offset = some row → line offset = row)
    (spelled : ∀ node ∈ root.preorder, SpelledNode node)
    (closed : (stops .place root).IsChain (CommentGap.Close resolver comments))
    (ascending : comments.Pairwise fun comment next => comment.span.start ≤ next.span.start)
    (assigned : (CommentGap.assignAll resolver
      (CommentGap.ofFragments none root.fragments comments)).result = .ok assignments) :
    ∃ marks, List.Forall₂ Shows (stops .place root) marks ∧
      loud (Decorated.fullTrail .standard
          (Decorate.rebuild .standard root (CommentGap.decorations none assignments)).1) =
        loud (course line none (interleave (stationsOf (stops .place root) marks) comments)) := by
  have same : (stops .place root).flatMap Stop.fragments = root.fragments := by
    simpa using Positional.fragments_stops root .place [] spelled fun _ => rfl
  have lengths : (CommentGap.decorations none assignments).length = (stops .place root).length := by
    rw [(CommentGap.conserved_decorations assigned).1, ← same, length_pointFragments_stops]
  have begins : inner root = .place root.info.start ::
      stopsSlots (standardShape root.kind).anchors root.slots := by
    obtain ⟨kind, span, slots⟩ := root
    rw [inner]
    rfl
  have shape := stops_eq_inner .place root
  rw [begins, List.cons_append] at shape
  rw [← same, shape] at assigned
  have hushed := CommentGap.hushed_decorations ascending (shape ▸ closed) assigned
  obtain ⟨marks, shows, led⟩ := fullTrail_rebuild spelled lengths (shape ▸ hushed)
  rw [begins] at shows
  cases shows with
  | @cons _ _ _ marks first rest =>
    cases first
    refine ⟨[] :: (marks ++ [[]]), ?_, ?_⟩
    · rw [shape]
      exact .cons (.place _) (List.rel_append rest (.cons (.place _) .nil))
    · rw [led, shape]
      exact CommentGap.pour_decorations placed rest assigned

/-- What was not inserted by the parser can be seen. -/
theorem visible_of_written {root : Positional}
    (written : ∀ node ∈ root.preorder, node.slots.any isInserted = false) {lexeme : Lexeme}
    (mem : .token lexeme ∈ stops .place root) : lexeme.text ≠ "" := by
  obtain ⟨node, inside, slot⟩ := stemsFrom_stops root _ mem
  simpa [isInserted] using List.any_eq_false.mp (written node inside) _ slot

/-- The trail of the decorated tree of a text leads past stations on which the items of the text
are met, and down its lines. -/
theorem exists_stations {text : String} (clean : (parse text).diagnostics = [])
    {assignments : List (CommentGap × Assignment)}
    (assigned : (CommentGap.assignAll (.ofText text) (CommentGap.ofFragments none
      (parse text).tree.root.fragments (lex text).comments)).result = .ok assignments)
    (written : ∀ node ∈ (parse text).tree.root.preorder, node.slots.any isInserted = false) :
    ∃ stations,
      loud (Decorated.fullTrail .standard (Decorate.rebuild .standard (parse text).tree.root
          (CommentGap.decorations none assignments)).1) =
        loud (course (lineAt text) none stations) ∧
      Meets text (trailingSeparators (parse text).tree.root) none stations (shownItems text) ∧
      Descends (lineAt text) none stations := by
  have spelled := spelledNode_of_mem clean
  have closed := closed_parse clean
  have faces := fun marks shows => @faces_parse text clean marks shows
    fun _ => visible_of_written written
  have descends := fun marks shows => @descends_parse text clean marks shows
    fun _ => visible_of_written written
  generalize (parse text).tree.root = root at *
  have ascending : (lex text).comments.Pairwise fun comment next =>
      comment.span.start ≤ next.span.start := by
    refine (pairwise_comments text).imp_of_mem fun mem _ apart => ?_
    obtain ⟨closed, mem⟩ := mem_items_of_comment mem
    exact Nat.le_trans (ordered_of_mem_items mem) apart
  obtain ⟨marks, shows, led⟩ :=
    fullTrail_eq_course lineAt_of_lineOf? spelled closed ascending assigned
  exact ⟨_, led, (faces marks shows).meets (List.nil_append _).symm (endsBefore_none _ _),
    descends marks shows⟩

/-- The items of the walk of a decorated tree are those of the text. -/
theorem keeps_fullWalk {text : String} (clean : (parse text).diagnostics = [])
    {assignments : List (CommentGap × Assignment)}
    (assigned : (CommentGap.assignAll (.ofText text) (CommentGap.ofFragments none
      (parse text).tree.root.fragments (lex text).comments)).result = .ok assignments)
    (written : ∀ node ∈ (parse text).tree.root.preorder, node.slots.any isInserted = false) :
    Keeps (trailingSeparators (parse text).tree.root) (items text)
      (Decorated.fullWalk .standard (Decorate.rebuild .standard (parse text).tree.root
        (CommentGap.decorations none assignments)).1) := by
  obtain ⟨stations, led, meets, -⟩ := exists_stations clean assigned written
  generalize (parse text).tree.root = root at *
  have walked := congrArg GoTrivia.written led
  rw [written_loud, written_loud, Decorated.written_fullTrail] at walked
  rw [walked]
  exact .of_shown (fun item mem => exists_token_of_hidden mem)
    (meets.keeps (List.Subset.refl _) (lineAt text) none)

/-! ## Printed texts -/

/-- If nothing stands behind the finish of a tree, its finish is the last thing to be placed, and
no row of the comment table reaches it. -/
theorem row_lt_of_trailing {registry : Registry} {tree : DecoratedTree} {bound : Nat}
    (none : Decorated.trailing tree.root = [])
    (counted : ∀ thing ∈ (tree.place registry).log, thing.offset ≤ bound) :
    ∀ row ∈ (tree.place registry).comments, row.offset < bound := by
  obtain ⟨high, ascends, passed, -⟩ := exists_log_place tree registry
  have sorted := ascends.sorted
  obtain ⟨front, passes⟩ : ∃ front, Decorated.fullPass registry tree.root =
      front ++ [.anchor tree.root.kind .finish] := by
    rw [Decorated.fullPass, none]
    obtain ⟨kind, decorations, slots⟩ := tree.root
    rw [Decorated.pass, Decorated.passAnchor]
    exact ⟨_, by rw [List.map_nil, List.append_nil, ← List.append_assoc]; rfl⟩
  rw [passes] at passed
  obtain ⟨early, last, split, -, isLast⟩ := List.map_eq_append_iff.mp passed
  obtain ⟨finish, rfl, isFinish⟩ := List.map_eq_singleton_iff.mp isLast
  rw [split] at counted sorted
  intro row mem
  obtain ⟨thing, inside, isRow⟩ := List.mem_filterMap.mp mem
  rw [split] at inside
  have notFinish : thing ≠ finish := by
    rintro rfl
    cases thing <;> cases isRow
    cases isFinish
  have here : thing ∈ early := by simpa [notFinish] using inside
  have below := (List.pairwise_append.mp sorted).2.2 thing here finish (by simp)
  have last := counted finish (by simp)
  have same : thing.offset = row.offset := by
    cases thing <;> cases isRow
    rfl
  omega

/-- The unedited tree of a text is printed with the items of the text in their order. -/
theorem exists_marks_keeps {text : String} (clean : (parse text).diagnostics = [])
    {tree : DecoratedTree} (decorated : decorate text = .ok tree)
    (counted : ∀ thing ∈ (tree.place .standard).log, thing.offset ≤ Print.lastOffset)
    {output : String} (printed : print tree = .ok output) :
    ∃ marks, Print.marks .standard (tree.place .standard).root (tree.place .standard).comments =
        .ok marks ∧
      output = Print.finish marks ∧
      Keeps (trailingSeparators (parse text).tree.root) (items text) (marks.filter Mark.isItem) := by
  have faultless := exists_print_iff.mp ⟨output, printed⟩
  obtain ⟨assignments, assigned, succeeds⟩ := exists_decorate clean
  have kinded := kinded_parse clean
  have spelled := spelledNode_of_mem clean
  have early := lt_stop_of_mem_comments clean
  have keeps := keeps_fullWalk clean assigned
  generalize (parse text).tree = source at assigned succeeds kinded spelled early keeps ⊢
  obtain rfl := Except.ok.inj (decorated.symm.trans succeeds)
  have trailing := trailing_rebuild Registry.distinct_standard kinded assigned early
  have fits := (faultless_rebuild_iff kinded _).mp faultless
  obtain ⟨marks, written, walked⟩ := exists_marks faultless
  refine ⟨marks, written, ?_, ?_⟩
  · have printed' : print _ = .ok (Print.finish marks) := print_of_marks faultless written
    exact Except.ok.inj (printed.symm.trans printed')
  · rw [walked (row_lt_of_trailing trailing counted)]
    exact keeps fun node mem => ((spelled node mem).fault?_iff.mp (fits node mem)).2

/-- **Reprinted texts.** The unedited tree of a text is printed as the items of the text in
their order, with nothing but spaces, tabs and line feeds between them.  Semicolons aside, a
separator behind the last element of a list is all that may be missing. -/
theorem print_reprints (text : String) (resolver : LineResolver)
    (indexes : resolver.Indexes text) (clean : (parse text).diagnostics = [])
    (tree : DecoratedTree) (decorated : decorateWith resolver text = .ok tree)
    (counted : ∀ thing ∈ (tree.place .standard).log, thing.offset ≤ Print.lastOffset)
    (output : String) (printed : print tree = .ok output) :
    ∃ marks, Print.marks .standard (tree.place .standard).root (tree.place .standard).comments =
        .ok marks ∧
      output = Print.finish marks ∧
      Reprints (trailingSeparators (parse text).tree.root) (items text)
        (marks.filter Mark.isSolid) := by
  rw [decorateWith_eq indexes] at decorated
  obtain ⟨marks, written, finished, keeps⟩ := exists_marks_keeps clean decorated counted printed
  have solid : marks.filter Mark.isSolid = (marks.filter Mark.isItem).filter Mark.isSolid := by
    rw [List.filter_filter]
    refine List.filter_congr fun mark _ => ?_
    cases mark <;> simp [Mark.isSolid, Mark.isItem]
  exact ⟨marks, written, finished, solid ▸ keeps.reprints⟩

/-- Whether a text is decorated, with few enough offsets, and printed as another one. -/
def printsAs (text output : String) : Bool :=
  (decorate text).toOption.any fun tree =>
    ((tree.place .standard).log.all fun thing => thing.offset ≤ Print.lastOffset) &&
      (print tree).toOption == some output

theorem exists_of_printsAs {text output : String} (prints : printsAs text output = true) :
    ∃ tree, decorate text = .ok tree ∧
      (∀ thing ∈ (tree.place .standard).log, thing.offset ≤ Print.lastOffset) ∧
      print tree = .ok output := by
  rw [printsAs] at prints
  cases decorated : decorate text with
  | error error =>
    rw [decorated] at prints
    cases prints
  | ok tree =>
    rw [decorated] at prints
    obtain ⟨counted, same⟩ := Bool.and_eq_true_iff.mp prints
    refine ⟨tree, rfl, fun thing mem => by simpa using List.all_eq_true.mp counted thing mem, ?_⟩
    cases printed : print tree with
    | error error =>
      rw [printed] at same
      cases same
    | ok written =>
      rw [printed] at same
      exact congrArg Except.ok (Option.some.inj (eq_of_beq same))

/-- A text with a comment inside a list and a separator behind its last element. -/
def separatedArguments : String := "package p\n\nvar x = f(a, /* b */ b,) // c\n"

theorem separatedArguments_reprints :
    ∃ tree output marks, decorate separatedArguments = .ok tree ∧ print tree = .ok output ∧
      output = Print.finish marks ∧
      Reprints [⟨33, 34⟩] (items separatedArguments) (marks.filter Mark.isSolid) := by
  have clean : (parse separatedArguments).diagnostics = [] := by decide +kernel
  have trailing : trailingSeparators (parse separatedArguments).tree.root = [⟨33, 34⟩] := by
    decide +kernel
  obtain ⟨tree, decorated, counted, printed⟩ := exists_of_printsAs
    (show printsAs separatedArguments "package p\n\nvar x = f(a, /* b */ b) // c\n" = true by
      decide +kernel)
  obtain ⟨marks, -, finished, reprints⟩ :=
    print_reprints separatedArguments _ (indexes_ofText _) clean tree decorated counted _ printed
  exact ⟨tree, _, marks, decorated, printed, finished, trailing ▸ reprints⟩

/-! ## What printing back does not keep

The items are kept, but how they are read depends on what stands next to them.  The layout
leaves no space between a prefix operator and its operand, and it leaves out the separator behind
the last element of a list that is closed on its line, although a block comment between the two
may go over a line.
-/

/-- Tokens without the commas right in front of a closing delimiter. -/
def withoutLastCommas : List Token → List Token
  | token :: next :: rest =>
    if token.kind == .comma && next.kind.isClosing then withoutLastCommas (next :: rest)
    else token :: withoutLastCommas (next :: rest)
  | tokens => tokens

/-- The program of a text: the kinds and texts of its tokens, without semicolons, the end of the
text and commas in front of a closing delimiter. -/
def program (text : String) : List (TokenKind × String) :=
  ((withoutLastCommas (lex text).tokens).filter Token.isSolid).map fun token =>
    (token.kind, token.text)

/-- Two signs that only a space keeps apart. -/
def doubleNegation : String := "package p\n\nvar x = - -y\n"

/-- Signs that are printed side by side are read as one token. -/
theorem program_print_doubleNegation :
    (parse doubleNegation).diagnostics = [] ∧
      (decorate doubleNegation >>= print).toOption = some "package p\n\nvar x = --y\n" ∧
      program "package p\n\nvar x = --y\n" ≠ program doubleNegation := by
  decide +kernel

/-- A call with a comment over two lines behind its last separator. -/
def overlappingComment : String := "package p\n\nvar x = f(a, /* x\n y */)\n"

/-- Without its last separator the list is ended by the line break inside the comment. -/
theorem parse_print_overlappingComment :
    (parse overlappingComment).diagnostics = [] ∧
      (decorate overlappingComment >>= print).toOption =
        some "package p\n\nvar x = f(a /* x\n y */)\n" ∧
      (parse "package p\n\nvar x = f(a /* x\n y */)\n").diagnostics ≠ [] := by
  decide +kernel

end GoTrivia
