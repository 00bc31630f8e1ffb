import GoTrivia.Proofs.Decorating.Conserving
import GoTrivia.Proofs.Decorating.Grouping

/-!
# Every comment goes to its home

The gaps of a layout are assigned one after the other.  Each point gets what goes behind it
from the gap that follows and what goes in front of it from the gap before, and a point with a
separator behind it also gets what is around the separator.  So the decoration of a point
holds the comments that are at home there.
-/

set_option autoImplicit false

namespace GoTrivia

namespace Layout

variable {layout : Layout} {resolver : LineResolver} {line : Nat → Nat}

/-! ## Decorations of points -/

/-- The places of the points among fragments, the first of which stands at a given place. -/
def pointPlaces (place : Nat) : List Fragment → List Nat
  | [] => []
  | .point _ :: fragments => place :: pointPlaces (place + 1) fragments
  | .separator _ :: fragments => pointPlaces (place + 1) fragments

/-- Whether a separator is behind a gap. -/
def isSeparator (layout : Layout) (gap : Nat) : Bool :=
  (layout.next? gap).any fun fragment => !fragment.isPoint

theorem isSeparator_eq_true {gap : Nat} {span : Span}
    (found : layout.next? gap = some (.separator span)) : layout.isSeparator gap = true := by
  simp [isSeparator, found, Fragment.isPoint]

theorem isSeparator_eq_false {gap : Nat} {span : Span}
    (found : layout.next? gap = some (.point span)) : layout.isSeparator gap = false := by
  simp [isSeparator, found, Fragment.isPoint]

/-- The decoration of a point in front of a gap, given what is in front of the point.  If a
separator is behind the gap, the comments on both sides of it belong to the point. -/
def closing (layout : Layout) (gap : Nat) (before : List TriviaGroup) : Decoration :=
  if layout.isSeparator gap then
    ⟨before ++ layout.groupsOf (layout.part gap .before),
      layout.groupsOf (layout.part (gap + 1) .after)⟩
  else ⟨before, layout.groupsOf (layout.part gap .after)⟩

/-- The decoration of the point at a place. -/
def decorationAt (layout : Layout) (place : Nat) : Decoration :=
  layout.closing (place + 1) (layout.groupsOf (layout.part place .before) ++ layout.breakOf place)

namespace Lawful

variable (lawful : layout.Lawful resolver line)
include lawful

theorem part_length (side : Side) : layout.part layout.fragments.length side = [] := by
  refine List.filter_eq_nil_iff.mpr fun comment mem => ?_
  obtain ⟨listed, last⟩ := mem_inGap.mp mem
  have := lawful.early comment listed
  omega

/-- What is left of the gaps behind a fragment. -/
def Assigned (layout : Layout) (resolver : LineResolver) (gap : Nat) (fragments : List Fragment)
    (assignments : List (CommentGap × Assignment)) : Prop :=
  (CommentGap.assignAll resolver
    (CommentGap.ofFragments (layout.prev? gap) fragments (layout.ahead gap))).result = .ok assignments

omit lawful in
theorem next?_length {front rest : List Fragment} {fragment : Fragment}
    (whole : front ++ fragment :: rest = layout.fragments) :
    layout.next? front.length = some fragment := by
  simp [next?, ← whole]

/-- The gap in front of a fragment is assigned by homes. -/
theorem assigned_cons {front rest : List Fragment} {next : Fragment}
    (whole : front ++ next :: rest = layout.fragments)
    {assignments : List (CommentGap × Assignment)}
    (assigned : Assigned layout resolver front.length (next :: rest) assignments) :
    ∃ gap assignments', gap.next = some next ∧
      Assigned layout resolver (front.length + 1) rest assignments' ∧
      assignments = (gap, ⟨layout.groupsOf (layout.part front.length .after),
        layout.groupsOf (layout.part front.length .before) ++ layout.breakOf front.length⟩) ::
          assignments' := by
  have found := next?_length whole
  rw [Assigned, CommentGap.ofFragments_cons, lawful.inFront_ahead found,
    lawful.beyond_ahead found] at assigned
  obtain ⟨assignment, assignments', here, behind, rfl⟩ :=
    CommentGap.assignAll_cons_eq_ok.mp assigned
  rw [lawful.assign_gap found] at here
  obtain rfl := Except.ok.inj here
  refine ⟨_, assignments', rfl, ?_, rfl⟩
  rw [Assigned, prev?, show layout.fragments[front.length]? = _ from found]
  exact behind

/-- The decorations behind an open point. -/
theorem decorations_eq {rest : List Fragment} :
    ∀ {front : List Fragment}, front ≠ [] → front ++ rest = layout.fragments →
    ∀ {assignments : List (CommentGap × Assignment)} (before : List TriviaGroup),
      Assigned layout resolver front.length rest assignments →
      CommentGap.decorations (some ⟨before, []⟩) assignments =
        layout.closing front.length before ::
          (pointPlaces front.length rest).map layout.decorationAt := by
  induction rest with
  | nil =>
    intro front _ whole assignments before assigned
    rw [List.append_nil] at whole
    have none : layout.ahead front.length = [] := whole ▸ lawful.ahead_length
    rw [Assigned, none] at assigned
    obtain rfl := Except.ok.inj assigned
    have last : layout.part front.length .after = [] := whole ▸ lawful.part_length .after
    simp [CommentGap.decorations, closing, isSeparator, next?, ← whole, pointPlaces, last]
  | cons next rest ih =>
    intro front filled whole assignments before assigned
    have found := next?_length whole
    obtain ⟨gap, assignments', isNext, behind, rfl⟩ := lawful.assigned_cons whole assigned
    have later := fun before => @ih (front ++ [next]) (by simp) (by simpa using whole) _ before
      (by simpa using behind)
    simp only [List.length_append, List.length_singleton] at later
    cases next with
    | point span =>
      have closed : layout.closing front.length before =
          ⟨before, layout.groupsOf (layout.part front.length .after)⟩ := by
        simp [closing, isSeparator_eq_false found]
      simp only [CommentGap.decorations, isNext, later, closed, pointPlaces, List.map_cons,
        decorationAt]
      simp
    | separator span =>
      obtain ⟨point, pointed⟩ := lawful.pointed _ span found
      have none : layout.part front.length .after = [] := by
        refine List.filter_eq_nil_iff.mpr fun comment mem => ?_
        simp [home_before_separator mem pointed found]
      -- No two separators stand side by side.
      have alone : ∀ before, layout.closing (front.length + 1) before =
          ⟨before, layout.groupsOf (layout.part (front.length + 1) .after)⟩ := by
        have point : layout.isSeparator (front.length + 1) = false := by
          rw [isSeparator, Option.any_eq_false]
          rintro (_ | other) again
          · rfl
          · obtain ⟨_, clash⟩ := lawful.pointed _ other again
            rw [prev?, show layout.fragments[front.length]? = _ from found] at clash
            cases clash
        simp [closing, point]
      have closed : layout.closing front.length before =
          ⟨before ++ layout.groupsOf (layout.part front.length .before),
            layout.groupsOf (layout.part (front.length + 1) .after)⟩ := by
        simp [closing, isSeparator_eq_true found]
      simp [CommentGap.decorations, isNext, later, alone, none, closed, found, pointPlaces, breakOf]

/-- **Homes.** The points in front of and behind the gaps get the comments at home there. -/
theorem decorations_none {assignments : List (CommentGap × Assignment)}
    (assigned : (CommentGap.assignAll resolver
      (CommentGap.ofFragments none layout.fragments layout.comments)).result = .ok assignments) :
    CommentGap.decorations none assignments =
      (pointPlaces 0 layout.fragments).map layout.decorationAt := by
  rw [← ahead_zero] at assigned
  cases fragments : layout.fragments with
  | nil =>
    have none := lawful.ahead_length
    rw [fragments] at assigned none
    rw [show layout.ahead 0 = [] from none] at assigned
    obtain rfl := Except.ok.inj assigned
    rfl
  | cons next rest =>
    have whole : [] ++ next :: rest = layout.fragments := fragments.symm
    rw [fragments] at assigned
    obtain ⟨gap, assignments', isNext, behind, rfl⟩ := lawful.assigned_cons whole assigned
    cases next with
    | separator span =>
      obtain ⟨_, clash⟩ := lawful.pointed 0 span (next?_length whole)
      cases clash
    | point span =>
      have later := lawful.decorations_eq (by simp) (show [.point span] ++ rest = _ from whole)
        (layout.groupsOf (layout.part 0 .before) ++ layout.breakOf 0) behind
      simpa [CommentGap.decorations, isNext, pointPlaces, decorationAt] using later

end Lawful

/-! ## Homes by place -/

/-- How a comment comes to its home: the point behind its gap, the one in front of it, or the
one in front of the separator on either side. -/
inductive Housed (layout : Layout) (comment : Lexeme) : Prop
  | behind (next : Span) (found : layout.next? (layout.gapOf comment) = some (.point next))
      (home : layout.home comment = (layout.gapOf comment, .before))
  | front (place : Nat) (prev next : Span) (gap : layout.gapOf comment = place + 1)
      (before : layout.next? place = some (.point prev))
      (found : layout.next? (place + 1) = some (.point next))
      (home : layout.home comment = (place, .after))
  | preceding (place : Nat) (prev separator : Span) (gap : layout.gapOf comment = place + 1)
      (before : layout.next? place = some (.point prev))
      (found : layout.next? (place + 1) = some (.separator separator))
      (home : layout.home comment = (place, .before))
  | following (place : Nat) (prev separator next : Span) (gap : layout.gapOf comment = place + 2)
      (before : layout.next? place = some (.point prev))
      (between : layout.next? (place + 1) = some (.separator separator))
      (found : layout.next? (place + 2) = some (.point next))
      (home : layout.home comment = (place, .after))

namespace Lawful

variable (lawful : layout.Lawful resolver line) {place : Nat} {span : Span} {comment : Lexeme}
include lawful

theorem housed (mem : comment ∈ layout.comments) : layout.Housed comment := by
  have inGap : comment ∈ layout.inGap (layout.gapOf comment) := mem_inGap.mpr ⟨mem, rfl⟩
  have found : layout.next? (layout.gapOf comment) = some (layout.fragments.get ⟨_, lawful.early comment mem⟩) :=
    List.getElem?_eq_getElem _
  generalize layout.fragments.get ⟨_, lawful.early comment mem⟩ = next at found
  cases gap : layout.gapOf comment with
  | zero =>
    rw [gap] at inGap found
    cases next with
    | separator separator =>
      obtain ⟨_, clash⟩ := lawful.pointed 0 separator found
      cases clash
    | point next =>
      have home := home_at_start inGap rfl
      exact .behind next (gap ▸ found) (gap ▸ home)
  | succ place =>
    rw [gap] at inGap found
    cases next with
    | separator separator =>
      obtain ⟨prev, before⟩ := lawful.pointed _ separator found
      exact .preceding place prev separator gap before found
        (home_before_separator inGap before found)
    | point next =>
      have bound := (List.getElem?_eq_some_iff.mp found).1
      have before : layout.fragments[place]? = some layout.fragments[place] :=
        List.getElem?_eq_getElem (by omega)
      generalize layout.fragments[place] = prev at before
      cases prev with
      | point prev =>
        have home := home_between_points inGap before found
        split at home
        · exact .front place prev next gap before found home
        · exact .behind next (gap ▸ found) (gap ▸ home)
      | separator prev =>
        have home := home_behind_separator inGap before found
        obtain ⟨point, pointed⟩ := lawful.pointed place prev before
        cases place with
        | zero => cases pointed
        | succ place =>
          split at home
          · exact .following place point prev next gap pointed before found home
          · exact .behind next (gap ▸ found) (gap ▸ home)

/-- A comment in front of a point comes from the gap before it, or from the one in front of
the separator behind it. -/
theorem home_eq_before_iff (here : layout.next? place = some (.point span))
    (mem : comment ∈ layout.comments) :
    layout.home comment = (place, .before) ↔
      (layout.gapOf comment = place ∧ (layout.home comment).2 = .before) ∨
        (layout.isSeparator (place + 1) = true ∧ layout.gapOf comment = place + 1 ∧
          (layout.home comment).2 = .before) := by
  cases lawful.housed mem with
  | behind next found home =>
    simp only [home, Prod.mk.injEq, and_true, iff_self_or]
    rintro ⟨separated, gap⟩
    rw [gap] at found
    simp [isSeparator_eq_false found] at separated
  | front place' prev next gap before found home => simp [home]
  | preceding place' prev separator gap before found home =>
    simp only [home, gap, Prod.mk.injEq, and_true, Nat.add_right_cancel_iff]
    constructor
    · rintro rfl
      exact .inr ⟨isSeparator_eq_true found, rfl⟩
    · rintro (rfl | ⟨-, rfl⟩)
      · simp [found] at here
      · rfl
  | following place' prev separator next gap before between found home => simp [home]

/-- A comment behind a point comes from the gap behind it, or behind its separator. -/
theorem home_eq_after_iff (here : layout.next? place = some (.point span))
    (mem : comment ∈ layout.comments) :
    layout.home comment = (place, .after) ↔
      layout.gapOf comment = place + (if layout.isSeparator (place + 1) then 2 else 1) ∧
        (layout.home comment).2 = .after := by
  cases lawful.housed mem with
  | behind next found home => simp [home]
  | front place' prev next gap before found home =>
    simp only [home, gap, Prod.mk.injEq, and_true]
    constructor
    · rintro rfl
      simp [isSeparator_eq_false found]
    · intro same
      split at same
      · next separated =>
        obtain rfl : place' = place + 1 := by omega
        simp [isSeparator_eq_false before] at separated
      · omega
  | preceding place' prev separator gap before found home => simp [home]
  | following place' prev separator next gap before between found home =>
    simp only [home, gap, Prod.mk.injEq, and_true]
    constructor
    · rintro rfl
      simp [isSeparator_eq_true between]
    · intro same
      split at same
      · omega
      · next alone =>
        obtain rfl : place = place' + 1 := by omega
        simp [between] at here

/-- The comments behind a point. -/
theorem homed_after (here : layout.next? place = some (.point span)) :
    layout.homed place .after =
      layout.part (place + (if layout.isSeparator (place + 1) then 2 else 1)) .after := by
  rw [homed, part, inGap, List.filter_filter]
  refine List.filter_congr fun comment mem => ?_
  rw [Bool.eq_iff_iff]
  simp only [beq_iff_eq, Bool.and_eq_true, lawful.home_eq_after_iff here mem]
  exact and_comm

/-- The comments in front of a point. -/
theorem homed_before (here : layout.next? place = some (.point span)) :
    layout.homed place .before = layout.part place .before ++
      if layout.isSeparator (place + 1) then layout.part (place + 1) .before else [] := by
  have alternatives : layout.homed place .before = layout.comments.filter fun comment =>
      (layout.gapOf comment == place && (layout.home comment).2 == .before) ||
        (layout.isSeparator (place + 1) && (layout.gapOf comment == place + 1 &&
          (layout.home comment).2 == .before)) := by
    refine List.filter_congr fun comment mem => ?_
    rw [Bool.eq_iff_iff]
    simp only [beq_iff_eq, Bool.or_eq_true, Bool.and_eq_true, lawful.home_eq_before_iff here mem]
  rw [alternatives, filter_or_eq_append]
  · congr 1
    · rw [part, inGap, List.filter_filter]
      exact List.filter_congr fun comment _ => Bool.and_comm _ _
    · cases layout.isSeparator (place + 1) with
      | false => simp
      | true =>
        simp only [Bool.true_and, if_true]
        rw [part, inGap, List.filter_filter]
        exact List.filter_congr fun comment _ => Bool.and_comm _ _
  · refine lawful.comments_start_lt.imp_of_mem fun mem _ before second => ?_
    have le := lawful.gapOf_mono mem (Nat.le_of_lt before)
    simp only [Bool.and_eq_true, beq_iff_eq] at second
    simp only [Bool.and_eq_false_iff, beq_eq_false_iff_ne]
    exact .inl (by omega)
  · intro comment _ second
    simp only [Bool.and_eq_true, beq_iff_eq] at second
    simp only [Bool.and_eq_false_iff, beq_eq_false_iff_ne]
    exact .inl (by omega)

end Lawful

/-! ## Groups at home -/

/-- The groups with comments. -/
def commented (groups : List TriviaGroup) : List TriviaGroup :=
  groups.filter fun group => !group.comments.isEmpty

theorem commented_append (front back : List TriviaGroup) :
    commented (front ++ back) = commented front ++ commented back := List.filter_append _ _

@[simp]
theorem commented_groupsOf (comments : List Lexeme) :
    commented (layout.groupsOf comments) = layout.groupsOf comments := by
  refine List.filter_eq_self.mpr fun group mem => ?_
  obtain ⟨run, -, found⟩ := List.mem_filterMap.mp mem
  cases run with
  | nil => cases found
  | cons first rest =>
    cases found
    rfl

@[simp]
theorem commented_breakOf (gap : Nat) : commented (layout.breakOf gap) = [] := by
  have bare : ∀ delta, commented (CommentGap.lineBreak delta) = [] := by
    intro delta
    unfold CommentGap.lineBreak
    split <;> rfl
  unfold breakOf
  split
  · exact bare _
  · rfl

/-- Comments in one group. -/
def Share (layout : Layout) (first second : Lexeme) : Prop :=
  ∃ place side, ∃ run ∈ (layout.homed place side).splitBy layout.shares, first ∈ run ∧ second ∈ run

/-- A decoration with the comments that are at home at a place. -/
structure Holds (layout : Layout) (place : Nat) (decoration : Decoration) : Prop where
  before : commented decoration.before = layout.groupsOf (layout.homed place .before)
  after : commented decoration.after = layout.groupsOf (layout.homed place .after)

/-- Comments of different gaps form different groups. -/
theorem groupsOf_parts (place : Nat) (first second : Side) :
    layout.groupsOf (layout.part place first ++ layout.part (place + 1) second) =
      layout.groupsOf (layout.part place first) ++
        layout.groupsOf (layout.part (place + 1) second) := by
  refine groupsOf_append fun comment isLast next isNext => ?_
  have mem := (mem_inGap.mp (List.mem_filter.mp (List.mem_of_getLast? isLast)).1).2
  have mem' := (mem_inGap.mp (List.mem_filter.mp (List.mem_of_head? isNext)).1).2
  simp [shares, mem, mem']

namespace Lawful

variable (lawful : layout.Lawful resolver line) {place : Nat} {span : Span}
include lawful

/-- The decoration of a point holds the comments at home there. -/
theorem holds_decorationAt (here : layout.next? place = some (.point span)) :
    layout.Holds place (layout.decorationAt place) := by
  constructor
  · rw [lawful.homed_before here, decorationAt, closing]
    split
    · rw [groupsOf_parts]
      simp [commented_append]
    · simp [commented_append]
  · rw [lawful.homed_after here, decorationAt, closing]
    split <;> simp

end Lawful

theorem mem_pointPlaces {fragments : List Fragment} {first place : Nat} :
    place ∈ pointPlaces first fragments ↔
      first ≤ place ∧ ∃ span, fragments[place - first]? = some (.point span) := by
  induction fragments generalizing first with
  | nil => simp [pointPlaces]
  | cons fragment fragments ih =>
    rcases Nat.lt_trichotomy place first with below | rfl | above
    · cases fragment <;> simp only [pointPlaces, List.mem_cons, ih] <;> omega
    · cases fragment with
      | point span => simp [pointPlaces]
      | separator span => simp [pointPlaces, ih]
    · obtain ⟨offset, rfl⟩ : ∃ offset, place = first + 1 + offset := ⟨place - (first + 1), by omega⟩
      have shifted : first + 1 + offset - first = offset + 1 := by omega
      have other : first + 1 + offset ≠ first := by omega
      cases fragment <;> simp [pointPlaces, ih, shifted, other] <;> omega

namespace Lawful

variable (lawful : layout.Lawful resolver line) {first second : Lexeme}
include lawful

/-- Every comment is at home at a point. -/
theorem home_mem_pointPlaces (mem : first ∈ layout.comments) :
    (layout.home first).1 ∈ pointPlaces 0 layout.fragments := by
  have places : ∀ place span, layout.next? place = some (.point span) →
      place ∈ pointPlaces 0 layout.fragments :=
    fun place span found => mem_pointPlaces.mpr ⟨Nat.zero_le _, span, found⟩
  cases lawful.housed mem with
  | behind next found home => rw [home]; exact places _ next found
  | front place prev _ _ before _ home => rw [home]; exact places _ prev before
  | preceding place prev _ _ before _ home => rw [home]; exact places _ prev before
  | following place prev _ _ _ before _ _ home => rw [home]; exact places _ prev before

/-- The points of a layout hold the comments at home there. -/
theorem forall₂_holds {assignments : List (CommentGap × Assignment)}
    (assigned : (CommentGap.assignAll resolver
      (CommentGap.ofFragments none layout.fragments layout.comments)).result = .ok assignments) :
    List.Forall₂ layout.Holds (pointPlaces 0 layout.fragments)
      (CommentGap.decorations none assignments) := by
  rw [lawful.decorations_none assigned, List.forall₂_map_right_iff, List.forall₂_same]
  intro place mem
  obtain ⟨-, span, found⟩ := mem_pointPlaces.mp mem
  exact lawful.holds_decorationAt found

/-- Comments that no line feed parts are at home at one place. -/
theorem home_eq_home (mem : first ∈ layout.comments) (mem' : second ∈ layout.comments)
    (same : layout.gapOf first = layout.gapOf second) (apart : first.span.stop ≤ second.span.start)
    (none : layout.feeds first.span.stop second.span.start = 0) :
    layout.home first = layout.home second := by
  have front : ∀ prev, layout.prev? (layout.gapOf second) = some prev →
      layout.feeds prev.span.stop first.span.start =
        layout.feeds prev.span.stop second.span.start := by
    intro prev before
    rw [lawful.feeds_past mem (lawful.stop_le_start mem (same ▸ before)) apart, none, Nat.add_zero]
  have back : ∀ next, layout.next? (layout.gapOf second) = some next →
      layout.feeds first.span.stop next.span.start =
        layout.feeds second.span.stop next.span.start := by
    intro next found
    rw [lawful.feeds_past mem' apart (lawful.stop_le_next mem' found (Nat.le_refl _)), none,
      Nat.zero_add]
  unfold home
  rw [same]
  dsimp only
  split
  · rfl
  · rfl
  · next prev _ before found =>
    have : layout.feeds prev.stop _ = layout.feeds prev.stop _ := front _ before
    rw [this]
  · next prev next before found =>
    have ahead : layout.feeds prev.stop _ = layout.feeds prev.stop _ := front _ before
    have behind : layout.feeds _ next.start = layout.feeds _ next.start := back _ found
    rw [ahead, behind]
  · rfl

/-- No line feed parts comments of one group. -/
theorem feeds_of_chain {run : List Lexeme} (listed : ∀ comment ∈ run, comment ∈ layout.comments)
    (behind : run.Pairwise fun comment next => comment.span.stop ≤ next.span.start)
    (chain : run.IsChain fun comment next => layout.shares comment next = true) :
    run.Pairwise fun comment next => layout.feeds comment.span.stop next.span.start = 0 := by
  induction run with
  | nil => exact .nil
  | cons comment run ih =>
    obtain ⟨ahead, behind⟩ := List.pairwise_cons.mp behind
    have rest := ih (fun next mem => listed next (List.mem_cons_of_mem _ mem)) behind
      chain.of_cons
    refine .cons ?_ rest
    cases run with
    | nil => simp
    | cons next run =>
      have joins : layout.feeds comment.span.stop next.span.start = 0 := by
        have := (List.isChain_cons_cons.mp chain).1
        simp only [shares, Bool.and_eq_true, beq_iff_eq] at this
        exact this.2
      refine List.forall_mem_cons.mpr ⟨joins, fun last mem => ?_⟩
      have none := List.rel_of_pairwise_cons rest mem
      have apart := List.rel_of_pairwise_cons behind mem
      rw [lawful.feeds_past (listed next (by simp)) (ahead next (by simp)) apart, joins, none]

/-- A line feed is between comments of one gap as soon as it is between two that lie between
them. -/
theorem shares_between {inner next : Lexeme} (mem : first ∈ layout.comments)
    (mem' : inner ∈ layout.comments) (mem'' : next ∈ layout.comments)
    (same : layout.gapOf first = layout.gapOf second)
    (none : layout.feeds first.span.stop second.span.start = 0)
    (begins : first = inner ∨ first.span.stop ≤ inner.span.start)
    (middle : inner.span.stop ≤ next.span.start)
    (ends : next = second ∨ next.span.stop ≤ second.span.start) :
    layout.shares inner next = true := by
  have filled := lawful.filled inner mem'
  have filled' := lawful.filled next mem''
  have low : first.span.start ≤ inner.span.start ∧ first.span.stop ≤ inner.span.stop := by
    rcases begins with rfl | begins
    · exact ⟨Nat.le_refl _, Nat.le_refl _⟩
    · have := lawful.filled first mem
      omega
  have high : next.span.start ≤ second.span.start := by
    rcases ends with rfl | ends <;> omega
  have gaps := lawful.gapOf_mono mem low.1
  have gaps' := lawful.gapOf_mono mem' (show inner.span.start ≤ next.span.start by omega)
  have gaps'' := lawful.gapOf_mono mem'' high
  have sum := lawful.add low.2 (show inner.span.stop ≤ second.span.start by omega)
  have sum' := lawful.add middle high
  simp only [shares, Bool.and_eq_true, beq_iff_eq]
  omega

/-- Comments of one gap share a group exactly if no line feed parts them. -/
theorem share_iff (mem : first ∈ layout.comments) (mem' : second ∈ layout.comments)
    (same : layout.gapOf first = layout.gapOf second) (apart : first.span.stop ≤ second.span.start) :
    layout.Share first second ↔ layout.feeds first.span.stop second.span.start = 0 := by
  have filled := lawful.filled first mem
  constructor
  · rintro ⟨place, side, run, isRun, inside, inside'⟩
    have sublist : run.Sublist layout.comments := by
      have := List.sublist_flatten_of_mem isRun
      rw [List.flatten_splitBy] at this
      exact this.trans List.filter_sublist
    have feeds := lawful.feeds_of_chain (fun _ mem => sublist.mem mem)
      (lawful.behind.sublist sublist) (List.isChain_of_mem_splitBy isRun)
    have ordered := lawful.comments_start_lt.sublist sublist
    rw [List.pairwise_iff_getElem] at feeds ordered
    obtain ⟨i, bound, rfl⟩ := List.getElem_of_mem inside
    obtain ⟨j, bound', rfl⟩ := List.getElem_of_mem inside'
    rcases Nat.lt_trichotomy i j with before | rfl | after
    · exact feeds i j bound bound' before
    · omega
    · have := ordered j i bound' bound after
      omega
  · intro none
    have home := lawful.home_eq_home mem mem' same apart none
    have inside : first ∈ layout.homed (layout.home second).1 (layout.home second).2 := by
      simp [homed, mem, home]
    have inside' : second ∈ layout.homed (layout.home second).1 (layout.home second).2 := by
      simp [homed, mem']
    have ordered : (layout.homed (layout.home second).1 (layout.home second).2).Pairwise
        fun comment next => comment.span.stop ≤ next.span.start := lawful.behind.filter _
    have filled' := lawful.filled second mem'
    refine ⟨_, _, exists_run_of_between ordered inside inside' (by omega) ?_⟩
    intro inner isInner next isNext begins middle ends
    exact lawful.shares_between mem (List.mem_filter.mp isInner).1 (List.mem_filter.mp isNext).1 same
      none begins middle ends

end Lawful

end Layout

end GoTrivia
