import GoTrivia.Proofs.Printing.Reprinting

/-!
# Line structure

A text that is printed from its own tree keeps its line structure.  Between two neighbours that
stay neighbours no line break is lost and no blank line, several blank lines become one, and none
is invented.  Two neighbours on one line are parted by a line break at most.

**The invariant.** The trivia of a tree asks for line breaks at its stations, and in front of the
next item the most that was asked for counts.  Between two neighbours all stations stand on the
line where the first one ends or on the line where the second one begins.  So up to any of them
either nothing was asked for but the break behind a line comment, or all line feeds between the
two have been (`Ready`).
-/

set_option autoImplicit false

namespace GoTrivia

open Print (Mark)

/-! ## What is kept -/

/-- The mark of an item. -/
def Item.mark : Item → Mark
  | token found => .token found.text
  | comment lexeme _ => .comment lexeme.text

/-- The line feeds of a text between two items. -/
def lineFeeds (text : String) (before next : Item) : Nat :=
  lineAt text next.span.start - lineAt text before.span.stop

/-- More than two line feeds count as two.  None is lost, and only the first one may be new. -/
structure Kept (given printed : Nat) : Prop where
  enough : min given 2 ≤ min printed 2
  most : min printed 2 ≤ max (min given 2) 1

/-- The items of a text are printed in order, each behind a number of line feeds, given the item in
front of them if it was printed.  Between neighbours the line feeds of the text are kept.
Semicolons and certain tokens may be left out. -/
inductive KeepsLines (text : String) (mayOmit : List Span) :
    Option Item → List Item → List (Mark × Nat) → Prop
  | nil {last : Option Item} : KeepsLines text mayOmit last [] []
  | printed {last : Option Item} {item : Item} {items : List Item} {feeds : Nat}
      {others : List (Mark × Nat)} (kept : ∀ before ∈ last, Kept (lineFeeds text before item) feeds)
      (rest : KeepsLines text mayOmit (some item) items others) :
      KeepsLines text mayOmit last (item :: items) ((item.mark, feeds) :: others)
  | passed {last : Option Item} {item : Item} {items : List Item} {others : List (Mark × Nat)}
      (may : item.MayPass mayOmit) (rest : KeepsLines text mayOmit none items others) :
      KeepsLines text mayOmit last (item :: items) others

section Texts

variable {text : String} {mayOmit : List Span}

/-- Line feeds that follow those asked for are kept as well. -/
theorem KeepsLines.follows {last : Option Item} {items : List Item} {asked printed : List (Mark × Nat)}
    (keeps : KeepsLines text mayOmit last items asked)
    (follows : List.Forall₂ Print.Follows asked printed) :
    KeepsLines text mayOmit last items printed := by
  induction keeps generalizing printed with
  | nil =>
    cases follows
    exact .nil
  | @printed last item items feeds others kept _ ih =>
    cases follows with
    | @cons _ there _ printed here rest =>
      obtain ⟨mark, feeds'⟩ := there
      obtain ⟨rfl, enough, most⟩ := here
      refine .printed (fun before known => ?_) (ih rest)
      obtain ⟨least, greatest⟩ := kept before known
      constructor
      · omega
      · omega
  | passed may _ ih => exact .passed may (ih follows)

/-! ## Pacing the course -/

theorem Kept.refl_of_le {n : Nat} (le : n ≤ 1) : Kept 0 n := ⟨by omega, by omega⟩

/-- In front of an item behind a neighbour, given the line that was reached: the line feeds down to
it have been asked for, and it is the line where the neighbour ends or the one where the item
begins. -/
def Ready (text : String) (last : Option Item) (items : List Item) (pace : Pace)
    (row : Option Nat) : Prop :=
  ∀ before ∈ last, ∀ next ∈ items.head?, pace.begun = true ∧ ∃ reached, row = some reached ∧
    lineAt text before.span.stop ≤ reached ∧
    (reached = lineAt text before.span.stop ∨ reached = lineAt text next.span.start) ∧
    Kept (reached - lineAt text before.span.stop) pace.breaks

/-- The pace in front of what is written at a station. -/
def Station.paced (line : Nat → Nat) (row : Option Nat) (station : Station) (pace : Pace) : Pace :=
  (station.lead line row).foldl Pace.behind pace

theorem asks_course (line : Nat → Nat) (row : Option Nat) (station : Station)
    (stations : List Station) (pace : Pace) :
    asks pace (course line row (station :: stations)) =
      asks (station.paced line row pace)
        (station.steps ++ course line (some (line station.span.stop)) stations) := by
  have silent : asks pace (station.lead line row) = [] := by
    rw [← List.map_eq_nil_iff (f := Prod.fst), map_fst_asks, written_lead]
  rw [course, List.append_assoc, asks_append, silent, List.nil_append]
  rfl

theorem begun_paced (line : Nat → Nat) (row : Option Nat) (station : Station) (pace : Pace) :
    (station.paced line row pace).begun = pace.begun := by
  unfold Station.paced Station.lead
  split <;> rfl

/-- In front of a station the line feeds down to it are asked for. -/
theorem breaks_paced {line : Nat → Nat} {row : Nat} {station : Station}
    (level : station.spaced = false → line station.span.start = row) (pace : Pace) :
    (station.paced line (some row) pace).breaks =
      max pace.breaks (min (line station.span.start - row) 2) := by
  unfold Station.paced Station.lead
  split
  · exact congrArg (max pace.breaks) (Spacing.lineBreaks_ofLineDelta _)
  · next close =>
    rw [level (by simpa using close)]
    simp

/-- What is written behind a neighbour keeps its line feeds. -/
theorem Ready.kept {last : Option Item} {item : Item} {items : List Item} {pace : Pace}
    {row : Option Nat} (ready : Ready text last (item :: items) pace row) {station : Station}
    (span : station.span = item.span)
    (down : ∀ reached ∈ row, reached ≤ lineAt text station.span.start)
    (level : ∀ reached ∈ row, station.spaced = false → lineAt text station.span.start = reached) :
    ∀ before ∈ last,
      Kept (lineFeeds text before item) (station.paced (lineAt text) row pace).asked := by
  intro before known
  obtain ⟨begun, reached, rfl, below, near, enough, most⟩ := ready before known item rfl
  have down := down reached rfl
  rw [Pace.asked, begun_paced, begun, if_pos rfl, breaks_paced (level reached rfl), lineFeeds]
  rw [span] at down ⊢
  constructor
  · rcases near with near | near <;> omega
  · rcases near with near | near <;> omega

/-- A station where nothing is written stands on the line of a neighbour, and behind it the line
feeds down to it have been asked for. -/
theorem Ready.bare {last : Option Item} {items : List Item} {pace : Pace} {row : Option Nat}
    (ready : Ready text last items pace row) {station : Station}
    (between : ∀ before ∈ last, ∀ next ∈ items.head?,
      station.span.start = station.span.stop ∧
        (lineAt text station.span.start = lineAt text before.span.stop ∨
          lineAt text station.span.start = lineAt text next.span.start))
    (down : ∀ reached ∈ row, reached ≤ lineAt text station.span.start)
    (level : ∀ reached ∈ row, station.spaced = false → lineAt text station.span.start = reached) :
    Ready text last items (station.paced (lineAt text) row pace)
      (some (lineAt text station.span.stop)) := by
  intro before known next first
  obtain ⟨begun, reached, rfl, below, near, enough, most⟩ := ready before known next first
  obtain ⟨empty, here⟩ := between before known next first
  have down := down reached rfl
  have breaks := breaks_paced (level reached rfl) pace
  rw [begun_paced]
  refine ⟨begun, _, rfl, ?_⟩
  rw [← empty, breaks]
  refine ⟨by omega, here, ?_, ?_⟩
  · rcases near with near | near <;> omega
  · rcases near with near | near <;> omega

/-- Behind an item that was written nothing is asked for but the break behind a line comment. -/
theorem ready_behind (item : Item) (items : List Item) (pace : Pace) :
    Ready text (some item) items (pace.behind item.step) (some (lineAt text item.span.stop)) := by
  intro before known next _
  obtain rfl : item = before := Option.some.inj known
  refine ⟨?_, _, rfl, Nat.le_refl _, .inl rfl, ?_⟩
  · cases item <;> rfl
  · rw [Nat.sub_self]
    refine Kept.refl_of_le ?_
    cases item with
    | token token => exact Nat.zero_le 1
    | comment lexeme closed =>
      show (if isLineComment lexeme.text then 1 else 0) ≤ 1
      split <;> omega

/-- On the way past stations that meet the items of a text, the line feeds between neighbours are
asked for. -/
theorem keepsLines_asks {last : Option Item} {stations : List Station} {items : List Item}
    (meets : Meets text mayOmit last stations items) {row : Option Nat} {pace : Pace}
    (descends : Descends (lineAt text) row stations) (ready : Ready text last items pace row) :
    KeepsLines text mayOmit last items (asks pace (course (lineAt text) row stations)) := by
  induction meets generalizing row pace with
  | nil => exact .nil
  | bare steps between _ ih =>
    cases descends with
    | cons down level rest =>
      rw [asks_course, steps, List.nil_append]
      exact ih rest (ready.bare between down level)
  | @item last item station stations items writes _ ih =>
    cases descends with
    | cons down level rest =>
      have mark : item.step.mark? = some item.mark := by cases item <;> rfl
      rw [asks_course, writes.steps, List.singleton_append, asks, mark]
      refine .printed (ready.kept writes.span down level) (ih rest ?_)
      rw [writes.span]
      exact ready_behind item items _
  | passed may _ ih =>
    exact .passed may (ih descends fun before known => by cases known)

/-- Whatever is written on the way past stations can be seen. -/
theorem Meets.visible {last : Option Item} {stations : List Station} {items : List Item}
    (meets : Meets text mayOmit last stations items) (held : items ⊆ shownItems text)
    (line : Nat → Nat) (row : Option Nat) : Visible (course line row stations) := by
  rw [Visible, written_course]
  induction meets with
  | nil =>
    intro mark mem
    cases mem
  | bare steps _ _ ih =>
    rw [List.flatMap_cons, steps, written_nil, List.nil_append]
    exact ih held
  | @item _ item _ _ _ writes _ ih =>
    obtain ⟨here, others⟩ := List.cons_subset.mp held
    have shown := bne_iff_ne.mp (mem_shownItems.mp here).2
    rw [List.flatMap_cons, writes.steps]
    cases item with
    | token token => exact List.forall_mem_cons.mpr ⟨shown, ih others⟩
    | comment lexeme closed => exact List.forall_mem_cons.mpr ⟨shown, ih others⟩
  | passed _ _ ih => exact ih (List.cons_subset.mp held).2

end Texts

/-! ## Printed texts -/

/-- The walk of the decorated tree of a text asks for the line feeds between its neighbours. -/
theorem keepsLines_fullTrail {text : String} (clean : (parse text).diagnostics = [])
    {assignments : List (CommentGap × Assignment)}
    (assigned : (CommentGap.assignAll (.ofText text) (CommentGap.ofFragments none
      (parse text).tree.root.fragments (lex text).comments)).result = .ok assignments)
    (written : ∀ node ∈ (parse text).tree.root.preorder, node.slots.any isInserted = false) :
    Visible (Decorated.fullTrail .standard (Decorate.rebuild .standard (parse text).tree.root
        (CommentGap.decorations none assignments)).1) ∧
      KeepsLines text (trailingSeparators (parse text).tree.root) none (shownItems text)
        (asks .start (Decorated.fullTrail .standard (Decorate.rebuild .standard
          (parse text).tree.root (CommentGap.decorations none assignments)).1)) := by
  obtain ⟨stations, led, meets, descends⟩ := exists_stations clean assigned written
  generalize (parse text).tree.root = root at *
  constructor
  · have seen := meets.visible (List.Subset.refl _) (lineAt text) none
    rwa [Visible, ← written_loud, ← led, written_loud] at seen
  · rw [← asks_loud, led, asks_loud]
    refine keepsLines_asks meets descends fun before known => ?_
    cases known

/-- **Line structure.** The unedited tree of a text is printed with the line structure of the text:
between neighbours that stay neighbours no line feed is lost, several blank lines become one, and
none is invented. -/
theorem print_keepsLines (text : String) (resolver : LineResolver)
    (indexes : resolver.Indexes text) (clean : (parse text).diagnostics = [])
    (tree : DecoratedTree) (decorated : decorateWith resolver text = .ok tree)
    (counted : ∀ thing ∈ (tree.place .standard).log, thing.offset ≤ Print.lastOffset)
    (output : String) (printed : print tree = .ok output) :
    ∃ marks, Print.marks .standard (tree.place .standard).root (tree.place .standard).comments =
        .ok marks ∧
      output = Print.finish marks ∧
      KeepsLines text (trailingSeparators (parse text).tree.root) none (shownItems text)
        (Print.spaced 0 marks) := by
  rw [decorateWith_eq indexes] at decorated
  have faultless := exists_print_iff.mp ⟨output, printed⟩
  obtain ⟨assignments, assigned, succeeds⟩ := exists_decorate clean
  have kinded := kinded_parse clean
  have spelled := spelledNode_of_mem clean
  have early := lt_stop_of_mem_comments clean
  have keeps := keepsLines_fullTrail clean assigned
  generalize (parse text).tree = source at assigned succeeds kinded spelled early keeps ⊢
  obtain rfl := Except.ok.inj (decorated.symm.trans succeeds)
  have trailing := trailing_rebuild Registry.distinct_standard kinded assigned early
  have fits := (faultless_rebuild_iff kinded _).mp faultless
  obtain ⟨state, written, tells⟩ := exists_tells faultless
  obtain ⟨visible, keeps⟩ := keeps fun node mem => ((spelled node mem).fault?_iff.mp (fits node mem)).2
  refine ⟨_, written, ?_, ?_⟩
  · exact Except.ok.inj (printed.symm.trans (print_of_marks faultless written))
  · exact keeps.follows ((tells (row_lt_of_trailing trailing counted)).follows visible)

/-- A text with blank lines, a comment on its own line and a separator behind a last element. -/
def looseArguments : String := "package p\n\n\n\nvar x = f(a,\n\n\n\t// b\n\tb,) // c\n"

theorem looseArguments_keepsLines :
    ∃ tree marks, decorate looseArguments = .ok tree ∧
      print tree = .ok "package p\n\nvar x = f(a,\n\n\t// b\n\tb) // c\n" ∧
      "package p\n\nvar x = f(a,\n\n\t// b\n\tb) // c\n" = Print.finish marks ∧
      KeepsLines looseArguments [⟨36, 37⟩] none (shownItems looseArguments)
        (Print.spaced 0 marks) := by
  have clean : (parse looseArguments).diagnostics = [] := by decide +kernel
  have trailing : trailingSeparators (parse looseArguments).tree.root = [⟨36, 37⟩] := by
    decide +kernel
  obtain ⟨tree, decorated, counted, printed⟩ := exists_of_printsAs
    (show printsAs looseArguments "package p\n\nvar x = f(a,\n\n\t// b\n\tb) // c\n" = true by
      decide +kernel)
  obtain ⟨marks, -, finished, keeps⟩ :=
    print_keepsLines looseArguments _ (indexes_ofText _) clean tree decorated counted _ printed
  exact ⟨tree, marks, decorated, printed, finished, trailing ▸ keeps⟩

end GoTrivia
