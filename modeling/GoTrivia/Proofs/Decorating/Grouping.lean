import GoTrivia.Proofs.Decorating.Layout

/-!
# Grouping the comments of a gap

Decorating groups the comments of a gap by the lines they stand on and splits the groups
between the two sides.  In a lawful layout every comment goes to the side of its home, in the
group that it shares with its neighbours.

The lines of a gap tell the line feeds in it (`delta_eq`), so grouping by lines is grouping by
line feeds (`group_inGap`).  The first group of a gap holds all comments that no line feed parts
from the fragment in front (`exists_near`), so splitting off the first group is splitting by
homes (`assign_gap`).
-/

set_option autoImplicit false

namespace GoTrivia

namespace Layout

open CommentGap (assign addComment group lineBreak inFront beyond)

variable {layout : Layout} {resolver : LineResolver} {line : Nat → Nat}

/-! ## Gaps -/

namespace Lawful

variable (lawful : layout.Lawful resolver line)
include lawful

theorem start_le_start : layout.fragments.Pairwise fun fragment next =>
    fragment.span.start ≤ next.span.start := by
  refine lawful.apart.imp_of_mem fun first _ apart => ?_
  exact Nat.le_trans (lawful.ordered _ first) apart

/-- A gap is behind the fragments that start at or before the comment. -/
theorem lt_gapOf_iff (comment : Lexeme) {place : Nat} {fragment : Fragment}
    (found : layout.fragments[place]? = some fragment) :
    place < layout.gapOf comment ↔ fragment.span.start ≤ comment.span.start := by
  have rising : layout.fragments.Pairwise fun fragment next =>
      decide (comment.span.start < fragment.span.start) = true →
        decide (comment.span.start < next.span.start) = true := by
    refine lawful.start_le_start.imp fun le before => ?_
    rw [decide_eq_true_eq] at before ⊢
    omega
  rw [gapOf, lt_length_rdropWhile_iff rising found, decide_eq_true_eq, Nat.not_lt]

theorem apart_of_getElem? {place : Nat} {fragment next : Fragment}
    (found : layout.fragments[place]? = some fragment)
    (behind : layout.fragments[place + 1]? = some next) :
    fragment.span.stop ≤ next.span.start := by
  obtain ⟨_, rfl⟩ := List.getElem?_eq_some_iff.mp found
  obtain ⟨_, rfl⟩ := List.getElem?_eq_some_iff.mp behind
  exact List.pairwise_iff_getElem.mp lawful.apart _ _ _ _ (by omega)

theorem comments_start_lt : layout.comments.Pairwise fun comment next =>
    comment.span.start < next.span.start := by
  refine lawful.behind.imp_of_mem fun first _ apart => ?_
  exact Nat.lt_of_lt_of_le (lawful.filled _ first) apart

/-- The fragment in front of a gap ends before its comments. -/
theorem stop_le_start {comment : Lexeme} (mem : comment ∈ layout.comments) {fragment : Fragment}
    (found : layout.prev? (layout.gapOf comment) = some fragment) :
    fragment.span.stop ≤ comment.span.start := by
  cases gap : layout.gapOf comment with
  | zero => simp [gap, prev?] at found
  | succ place =>
    rw [gap, prev?] at found
    have begins := (lawful.lt_gapOf_iff comment found).mp (by omega)
    have filled := lawful.filled comment mem
    have clear := lawful.clear comment mem fragment (List.mem_of_getElem? found)
    omega

/-- The fragment behind a gap starts behind its comments. -/
theorem stop_le_next {comment : Lexeme} (mem : comment ∈ layout.comments) {place : Nat}
    {fragment : Fragment} (found : layout.fragments[place]? = some fragment)
    (le : layout.gapOf comment ≤ place) : comment.span.stop ≤ fragment.span.start := by
  have begins := (lawful.lt_gapOf_iff comment found).not.mp (by omega)
  have clear := lawful.clear comment mem fragment (List.mem_of_getElem? found)
  have ordered := lawful.ordered fragment (List.mem_of_getElem? found)
  omega

/-- Gaps ascend with the comments. -/
theorem gapOf_mono {comment next : Lexeme} (mem : comment ∈ layout.comments)
    (le : comment.span.start ≤ next.span.start) : layout.gapOf comment ≤ layout.gapOf next := by
  by_contra above
  have early := lawful.early comment mem
  have found : layout.next? (layout.gapOf next) =
      some (layout.fragments.get ⟨layout.gapOf next, by omega⟩) := List.getElem?_eq_getElem _
  have first := (lawful.lt_gapOf_iff comment found).mp (by omega)
  have second := (lawful.lt_gapOf_iff next found).not.mp (by omega)
  omega

end Lawful

/-- The comments that are left from a gap on. -/
def ahead (layout : Layout) (gap : Nat) : List Lexeme :=
  layout.comments.filter fun comment => decide (gap ≤ layout.gapOf comment)

theorem mem_inGap {comment : Lexeme} {gap : Nat} :
    comment ∈ layout.inGap gap ↔ comment ∈ layout.comments ∧ layout.gapOf comment = gap := by
  simp [inGap]

theorem ahead_zero : layout.ahead 0 = layout.comments := by simp [ahead]

namespace Lawful

variable (lawful : layout.Lawful resolver line) {gap : Nat}
include lawful

theorem ahead_length : layout.ahead layout.fragments.length = [] :=
  List.filter_eq_nil_iff.mpr fun comment mem => by simpa using lawful.early comment mem

/-- Comments in front of an offset come first. -/
theorem falling_ahead (gap offset : Nat) : (layout.ahead gap).Pairwise fun comment next =>
    decide (next.span.start < offset) = true → decide (comment.span.start < offset) = true := by
  refine (lawful.comments_start_lt.filter _).imp fun before => ?_
  simp only [decide_eq_true_eq]
  omega

/-- Going past a fragment leaves its gap behind. -/
theorem inFront_ahead {fragment : Fragment} (found : layout.next? gap = some fragment) :
    inFront fragment.span.start (layout.ahead gap) = layout.inGap gap := by
  rw [inFront, takeWhile_eq_filter (lawful.falling_ahead gap _), ahead, List.filter_filter, inGap]
  refine List.filter_congr fun comment _ => ?_
  have bound := lawful.lt_gapOf_iff comment found
  rw [Bool.eq_iff_iff]
  simp only [Bool.and_eq_true, decide_eq_true_eq, beq_iff_eq]
  omega

theorem beyond_ahead {fragment : Fragment} (found : layout.next? gap = some fragment) :
    beyond fragment.span.start (layout.ahead gap) = layout.ahead (gap + 1) := by
  rw [beyond, dropWhile_eq_filter (lawful.falling_ahead gap _), ahead, List.filter_filter, ahead]
  refine List.filter_congr fun comment _ => ?_
  have bound := lawful.lt_gapOf_iff comment found
  rw [Bool.eq_iff_iff]
  simp only [Bool.and_eq_true, Bool.not_eq_true', decide_eq_true_eq, decide_eq_false_iff_not]
  omega

end Lawful

/-! ## Line feeds and lines -/

/-- The line on which what comes last in a gap ends, given its comments so far. -/
def lineFrom (layout : Layout) (line : Nat → Nat) (gap : Nat) (earlier : List Lexeme) :
    Option Nat :=
  match earlier.getLast?, layout.prev? gap with
  | some comment, _ => some (line comment.span.stop)
  | none, some fragment => some (line fragment.span.stop)
  | none, none => none

@[simp]
theorem lineFrom_concat (gap : Nat) (earlier : List Lexeme) (comment : Lexeme) :
    layout.lineFrom line gap (earlier ++ [comment]) = some (line comment.span.stop) := by
  simp [lineFrom]

@[simp]
theorem leadFrom_concat (gap : Nat) (earlier : List Lexeme) (comment : Lexeme) (offset : Nat) :
    layout.leadFrom gap (earlier ++ [comment]) offset = layout.feeds comment.span.stop offset := by
  simp [leadFrom]

namespace Lawful

variable (lawful : layout.Lawful resolver line) {gap : Nat} {done later : List Lexeme}
include lawful

theorem behind_inGap (gap : Nat) : (layout.inGap gap).Pairwise fun comment next =>
    comment.span.stop ≤ next.span.start := lawful.behind.filter _

/-- No comment reaches between neighbours in a gap. -/
theorem clear_between {next : Fragment} (found : layout.next? gap = some next)
    (whole : done ++ later = layout.inGap gap) {start stop : Nat}
    (first : ∀ comment ∈ done, comment.span.stop ≤ start)
    (front : ∀ fragment, layout.prev? gap = some fragment → fragment.span.stop ≤ start)
    (second : ∀ comment ∈ later, stop ≤ comment.span.start) (back : stop ≤ next.span.start) :
    ∀ comment ∈ layout.comments, comment.span.stop ≤ start ∨ stop ≤ comment.span.start := by
  intro comment mem
  rcases Nat.lt_trichotomy (layout.gapOf comment) gap with below | here | above
  · obtain ⟨place, rfl⟩ : ∃ place, gap = place + 1 := ⟨gap - 1, by omega⟩
    have bound := (List.getElem?_eq_some_iff.mp found).1
    have before : layout.fragments[place]? = some layout.fragments[place] :=
      List.getElem?_eq_getElem (by omega)
    have := lawful.stop_le_next mem before (by omega)
    have := lawful.ordered _ (List.mem_of_getElem? before)
    have := front _ before
    omega
  · have inside : comment ∈ done ++ later := whole ▸ mem_inGap.mpr ⟨mem, here⟩
    rcases List.mem_append.mp inside with inside | inside
    · exact .inl (first comment inside)
    · exact .inr (second comment inside)
  · have := (lawful.lt_gapOf_iff comment found).mp above
    omega

theorem prev_le_of_mem {comment : Lexeme} (mem : comment ∈ layout.inGap gap) {fragment : Fragment}
    (found : layout.prev? gap = some fragment) : fragment.span.stop ≤ comment.span.start := by
  obtain ⟨listed, rfl⟩ := mem_inGap.mp mem
  exact lawful.stop_le_start listed found

theorem le_next_of_mem {comment : Lexeme} (mem : comment ∈ layout.inGap gap) {fragment : Fragment}
    (found : layout.next? gap = some fragment) : comment.span.stop ≤ fragment.span.start := by
  obtain ⟨listed, rfl⟩ := mem_inGap.mp mem
  exact lawful.stop_le_next listed found (Nat.le_refl _)

/-- The lines of a gap tell the line feeds in it. -/
theorem delta_eq {next : Fragment} (found : layout.next? gap = some next)
    (whole : done ++ later = layout.inGap gap) {offset : Nat}
    (first : ∀ comment ∈ done, comment.span.stop ≤ offset)
    (front : ∀ fragment, layout.prev? gap = some fragment → fragment.span.stop ≤ offset)
    (second : ∀ comment ∈ later, offset ≤ comment.span.start) (back : offset ≤ next.span.start) :
    ((layout.lineFrom line gap done).map (line offset - ·)).getD 0 =
      layout.leadFrom gap done offset := by
  rcases List.eq_nil_or_concat' done with rfl | ⟨done, last, rfl⟩
  · simp only [lineFrom, leadFrom, List.getLast?_nil]
    cases before : layout.prev? gap with
    | none => rfl
    | some fragment =>
      refine (lawful.feeds_eq (front fragment before) ?_).symm
      refine lawful.clear_between found whole (by simp) ?_ second back
      rintro other same
      rw [before] at same
      rw [Option.some.inj same]
  · rw [lineFrom_concat, leadFrom_concat]
    have mem : last ∈ layout.inGap gap := by simp [← whole]
    have filled := lawful.filled last (mem_inGap.mp mem).1
    refine (lawful.feeds_eq (first last (by simp)) ?_).symm
    refine lawful.clear_between found whole ?_ ?_ second back
    · have behind := lawful.behind_inGap gap
      rw [← whole, List.append_assoc, List.pairwise_append] at behind
      intro comment inside
      rcases List.mem_append.mp inside with inside | inside
      · have := behind.2.2 comment inside last (by simp)
        omega
      · rw [List.mem_singleton.mp inside]
    · intro fragment before
      have := lawful.prev_le_of_mem mem before
      omega

/-- What stands in front of a comment in its gap. -/
theorem lead_eq {comment : Lexeme} (whole : done ++ comment :: later = layout.inGap gap) :
    layout.lead comment = layout.leadFrom gap done comment.span.start := by
  have behind := lawful.comments_start_lt.filter fun comment => layout.gapOf comment == gap
  rw [show layout.comments.filter _ = done ++ comment :: later from whole.symm,
    List.pairwise_append, List.pairwise_cons] at behind
  have here : layout.gapOf comment = gap :=
    (mem_inGap.mp (show comment ∈ layout.inGap gap by simp [← whole])).2
  have earlier : (done ++ comment :: later).takeWhile
      (fun other => decide (other.span.start < comment.span.start)) = done := by
    rw [List.takeWhile_append_of_pos fun other mem => by
      simpa using behind.2.2 other mem comment (by simp)]
    simp
  rw [lead, here, ← whole, earlier]

/-! ## Groups -/

/-- One more comment of a gap joins the last group or begins the next one. -/
theorem groupsOf_concat {comment : Lexeme} (whole : done ++ comment :: later = layout.inGap gap) :
    layout.groupsOf (done ++ [comment]) =
      addComment (layout.groupsOf done) (layout.lead comment) comment.text := by
  rcases List.eq_nil_or_concat' done with rfl | ⟨done, last, rfl⟩
  · rfl
  · have same : layout.gapOf last = layout.gapOf comment := by
      have first : last ∈ layout.inGap gap := by simp [← whole]
      have second : comment ∈ layout.inGap gap := by simp [← whole]
      rw [(mem_inGap.mp first).2, (mem_inGap.mp second).2]
    have lead := lawful.lead_eq whole
    rw [leadFrom_concat] at lead
    cases feeds : layout.lead comment with
    | zero =>
      have joins : layout.shares last comment = true := by simp [shares, same, ← lead, feeds]
      obtain ⟨runs, run, before, filled, after⟩ := splitBy_concat (l := done) joins
      obtain ⟨first, rest, rfl⟩ := List.exists_cons_of_ne_nil filled
      rw [groupsOf, after, groupsOf, before]
      simp [addComment, groupOf]
    | succ feeds' =>
      have parts : layout.shares last comment = false := by simp [shares, ← lead, feeds]
      have split := List.splitBy_append_cons (l := done ++ [last]) (a := comment) []
        (r := layout.shares) (by simpa using parts)
      rw [groupsOf, split, List.filterMap_append]
      simp [groupsOf, addComment, groupOf, feeds, List.splitBy, List.splitBy.loop, TriviaGroup.comment]

/-- Grouping by lines is grouping by line feeds. -/
theorem group_inGap {next : Fragment} (found : layout.next? gap = some next)
    (whole : done ++ later = layout.inGap gap) :
    group resolver (layout.lineFrom line gap done) (layout.groupsOf done) later =
      .ok (layout.groupsOf (layout.inGap gap), layout.lineFrom line gap (layout.inGap gap)) := by
  induction later generalizing done with
  | nil =>
    rw [← whole, List.append_nil]
    rfl
  | cons comment later ih =>
    have mem : comment ∈ layout.inGap gap := by simp [← whole]
    have behind := lawful.behind_inGap gap
    rw [← whole, List.pairwise_append, List.pairwise_cons] at behind
    have filled := lawful.filled comment (mem_inGap.mp mem).1
    have delta : _ = layout.leadFrom gap done comment.span.start := lawful.delta_eq found whole
      (fun other mem => behind.2.2 other mem comment (by simp))
      (fun fragment before => lawful.prev_le_of_mem mem before)
      (List.forall_mem_cons.mpr ⟨Nat.le_refl _, fun other mem => by
        have := behind.2.1.1 other mem
        omega⟩)
      (by have := lawful.le_next_of_mem mem found; omega)
    obtain ⟨begins, ends⟩ := lawful.lines comment (mem_inGap.mp mem).1
    unfold group
    rw [CommentGap.lineOf_eq_ok.mpr begins, CommentGap.lineOf_eq_ok.mpr ends]
    show group resolver (some (line comment.span.stop)) (addComment _ _ _) later = _
    rw [delta, ← lawful.lead_eq whole, ← lawful.groupsOf_concat whole]
    have rest := ih (show done ++ [comment] ++ later = _ by simpa using whole)
    rwa [lineFrom_concat] at rest

end Lawful

@[simp]
theorem groupsOf_nil : layout.groupsOf [] = [] := rfl

theorem groupsOf_append {front back : List Lexeme}
    (parts : ∀ comment ∈ front.getLast?, ∀ next ∈ back.head?, layout.shares comment next = false) :
    layout.groupsOf (front ++ back) = layout.groupsOf front ++ layout.groupsOf back := by
  rw [groupsOf, List.splitBy_append parts, List.filterMap_append]
  rfl

/-- The first group of comments begins with the first of them. -/
theorem exists_groupsOf_cons (comment : Lexeme) (comments : List Lexeme) :
    ∃ texts groups, layout.groupsOf (comment :: comments) =
      ⟨.ofLineDelta (layout.lead comment), comment.text :: texts⟩ :: groups := by
  obtain ⟨run, runs, split⟩ : ∃ run runs,
      (comment :: comments).splitBy layout.shares = run :: runs :=
    List.exists_cons_of_ne_nil (List.splitBy_ne_nil.mpr (by simp))
  obtain ⟨whole, filled, -, -⟩ := List.splitBy_eq_iff.mp split
  cases run with
  | nil => simp at filled
  | cons first rest =>
    obtain rfl : comment = first := by simpa using congrArg List.head? whole
    exact ⟨rest.map Lexeme.text, runs.filterMap layout.groupOf, by simp [groupsOf, split, groupOf]⟩

theorem groupsOf_eq_nil_iff {comments : List Lexeme} :
    layout.groupsOf comments = [] ↔ comments = [] := by
  cases comments with
  | nil => simp
  | cons comment comments =>
    obtain ⟨texts, groups, shape⟩ := @exists_groupsOf_cons layout comment comments
    simp [shape]

/-! ## Sides of a gap -/

theorem ofLineDelta_eq_sameLine_iff {delta : Nat} :
    Spacing.ofLineDelta delta = .sameLine ↔ delta = 0 := by
  match delta with
  | 0 => decide
  | 1 => decide
  | _ + 2 => simp [Spacing.ofLineDelta]

/-- The comments of a gap that go to a side. -/
def part (layout : Layout) (gap : Nat) (side : Side) : List Lexeme :=
  (layout.inGap gap).filter fun comment => (layout.home comment).2 == side

/-- The line break in front of the fragment behind a gap. -/
def breakOf (layout : Layout) (gap : Nat) : List TriviaGroup :=
  match layout.next? gap with
  | some (.point _) => lineBreak (layout.leadOf gap)
  | _ => []

theorem part_of_split {gap : Nat} {near far : List Lexeme}
    (whole : near ++ far = layout.inGap gap)
    (after : ∀ comment ∈ near, (layout.home comment).2 = .after)
    (before : ∀ comment ∈ far, (layout.home comment).2 = .before) :
    layout.part gap .after = near ∧ layout.part gap .before = far := by
  rw [part, part, ← whole, List.filter_append, List.filter_append]
  constructor
  · rw [List.filter_eq_self.mpr fun comment mem => by simp [after comment mem],
      List.filter_eq_nil_iff.mpr fun comment mem => by simp [before comment mem], List.append_nil]
  · rw [List.filter_eq_nil_iff.mpr fun comment mem => by simp [after comment mem],
      List.filter_eq_self.mpr fun comment mem => by simp [before comment mem], List.nil_append]

namespace Lawful

variable (lawful : layout.Lawful resolver line) {gap : Nat}
include lawful

/-- Counting line feeds goes past a comment. -/
theorem feeds_past {comment : Lexeme} (mem : comment ∈ layout.comments) {start stop : Nat}
    (first : start ≤ comment.span.start) (second : comment.span.stop ≤ stop) :
    layout.feeds start stop =
      layout.feeds start comment.span.start + layout.feeds comment.span.stop stop := by
  have filled := lawful.filled comment mem
  rw [lawful.add first (show comment.span.start ≤ stop by omega),
    lawful.add (Nat.le_of_lt filled) second, lawful.inside comment mem, Nat.zero_add]

/-- Line feeds between two comments of a gap are told by those in front of each. -/
theorem feeds_inGap {fragment : Fragment} (before : layout.prev? gap = some fragment) :
    (layout.inGap gap).Pairwise fun comment next =>
      layout.feeds fragment.span.stop next.span.start =
        layout.feeds fragment.span.stop comment.span.start +
          layout.feeds comment.span.stop next.span.start := by
  refine (lawful.behind_inGap gap).imp_of_mem fun first _ apart => ?_
  exact lawful.feeds_past (mem_inGap.mp first).1 (lawful.prev_le_of_mem first before) apart

/-- The comments of a gap that no line feed parts from the fragment in front are its first
group, if there are any. -/
theorem exists_near {fragment : Fragment} (before : layout.prev? gap = some fragment) :
    ∃ near far, near ++ far = layout.inGap gap ∧
      (∀ comment ∈ near, layout.feeds fragment.span.stop comment.span.start = 0) ∧
      (∀ comment ∈ far, layout.feeds fragment.span.stop comment.span.start ≠ 0) ∧
      ((near = [] ∧ CommentGap.beginsOnLine (layout.groupsOf far) = false) ∨
        ∃ texts, layout.groupsOf near = [⟨.sameLine, texts⟩] ∧
          layout.groupsOf (layout.inGap gap) = ⟨.sameLine, texts⟩ :: layout.groupsOf far) := by
  let isNear (comment : Lexeme) : Bool :=
    layout.feeds fragment.span.stop comment.span.start == 0
  have feeds := lawful.feeds_inGap before
  have whole : (layout.inGap gap).takeWhile isNear ++ (layout.inGap gap).dropWhile isNear =
      layout.inGap gap := List.takeWhile_append_dropWhile
  have isFar : ∀ comment ∈ (layout.inGap gap).dropWhile isNear, isNear comment = false := by
    intro comment mem
    rw [dropWhile_eq_filter (feeds.imp fun sum near => by
      simp only [isNear, beq_iff_eq] at near ⊢
      omega)] at mem
    simpa using (List.mem_filter.mp mem).2
  have allNear : ∀ comment ∈ (layout.inGap gap).takeWhile isNear, isNear comment = true :=
    fun comment mem => List.mem_takeWhile_imp mem
  generalize (layout.inGap gap).takeWhile isNear = near at whole allNear
  generalize (layout.inGap gap).dropWhile isNear = far at whole isFar
  simp only [isNear, beq_iff_eq, beq_eq_false_iff_ne] at allNear isFar
  refine ⟨near, far, whole, allNear, isFar, ?_⟩
  have lead : ∀ first rest, first :: rest = layout.inGap gap →
      layout.lead first = layout.feeds fragment.span.stop first.span.start := by
    intro first rest whole
    rw [lawful.lead_eq (show [] ++ first :: rest = _ from whole)]
    simp [leadFrom, before]
  rw [← whole] at feeds lead ⊢
  cases near with
  | nil =>
    refine .inl ⟨rfl, ?_⟩
    cases far with
    | nil => rfl
    | cons first rest =>
      obtain ⟨texts, groups, shape⟩ := @exists_groupsOf_cons layout first rest
      have positive := isFar first (by simp)
      rw [← lead first rest rfl] at positive
      simp [shape, CommentGap.beginsOnLine, ofLineDelta_eq_sameLine_iff, positive]
  | cons first rest =>
    refine .inr ⟨(first :: rest).map Lexeme.text, ?_⟩
    obtain ⟨inside, -, across⟩ := List.pairwise_append.mp feeds
    have same : ∀ comment ∈ first :: rest ++ far, layout.gapOf comment = gap :=
      fun comment mem => (mem_inGap.mp (whole ▸ mem)).2
    have chain : (first :: rest).IsChain fun comment next => layout.shares comment next = true := by
      refine (inside.imp_of_mem fun {comment next} mem mem' sum => ?_).isChain
      have := allNear next mem'
      simp only [shares, same comment (List.mem_append_left _ mem),
        same next (List.mem_append_left _ mem'), beq_self_eq_true, Bool.true_and, beq_iff_eq]
      omega
    have group : layout.groupsOf (first :: rest) = [⟨.sameLine, (first :: rest).map Lexeme.text⟩] := by
      have none := lead first (rest ++ far) rfl
      rw [allNear first (by simp)] at none
      simp [groupsOf, List.splitBy_of_isChain (List.cons_ne_nil first rest) chain, groupOf, none,
        Spacing.ofLineDelta]
    refine ⟨group, ?_⟩
    rw [groupsOf_append, group, List.singleton_append]
    intro comment isLast next isNext
    have mem := List.mem_of_getLast? isLast
    have mem' := List.mem_of_head? isNext
    have sum := across comment mem next mem'
    have := allNear comment mem
    have := isFar next mem'
    simp only [shares, Bool.and_eq_false_iff, beq_eq_false_iff_ne]
    exact .inr (by omega)

theorem deltaBehind_inGap {next : Fragment} (found : layout.next? gap = some next) :
    CommentGap.deltaBehind resolver (layout.lineFrom line gap (layout.inGap gap))
      (layout.next? gap) = .ok (layout.leadOf gap) := by
  have listed := List.mem_of_getElem? found
  have delta : _ = layout.leadFrom gap (layout.inGap gap) next.span.start :=
    lawful.delta_eq found (List.append_nil _)
    (fun comment mem => lawful.le_next_of_mem mem found)
    (fun fragment before => by
      cases gap with
      | zero => simp [prev?] at before
      | succ place => exact lawful.apart_of_getElem? before found)
    (by simp) (Nat.le_refl _)
  rw [leadOf, found]
  dsimp only
  rw [← delta]
  cases layout.lineFrom line gap (layout.inGap gap) with
  | none => rfl
  | some last =>
    simp only [CommentGap.deltaBehind, CommentGap.lineOf_eq_ok.mpr (lawful.places next listed).1]
    rfl

/-- The comments of a gap behind a separator are followed by a line feed before the next point
exactly if their group is not the last thing on the line. -/
theorem feeds_next_pos_iff {prev next : Fragment} (before : layout.prev? gap = some prev)
    (found : layout.next? gap = some next) {near far : List Lexeme}
    (whole : near ++ far = layout.inGap gap)
    (isNear : ∀ comment ∈ near, layout.feeds prev.span.stop comment.span.start = 0)
    (isFar : ∀ comment ∈ far, layout.feeds prev.span.stop comment.span.start ≠ 0)
    (comment : Lexeme) (mem : comment ∈ near) :
    0 < layout.feeds comment.span.stop next.span.start ↔ far ≠ [] ∨ 0 < layout.leadOf gap := by
  have listed : ∀ other ∈ near ++ far, other ∈ layout.comments :=
    fun other mem => (mem_inGap.mp (whole ▸ mem)).1
  have closes : ∀ other ∈ near ++ far, other.span.stop ≤ next.span.start :=
    fun other mem => lawful.le_next_of_mem (whole ▸ mem) found
  have behind := lawful.behind_inGap gap
  have feeds := lawful.feeds_inGap before
  rw [← whole] at behind feeds
  rcases List.eq_nil_or_concat' far with rfl | ⟨far, last, rfl⟩
  · rw [List.append_nil] at whole listed closes behind feeds
    obtain ⟨front, last, rfl⟩ := (List.eq_nil_or_concat' near).resolve_left (List.ne_nil_of_mem mem)
    have lead : layout.leadOf gap = layout.feeds last.span.stop next.span.start := by
      simp [leadOf, found, ← whole]
    have same : layout.feeds comment.span.stop next.span.start =
        layout.feeds last.span.stop next.span.start := by
      rcases List.mem_append.mp mem with inside | inside
      · have apart := (List.pairwise_append.mp behind).2.2 comment inside last (by simp)
        have sum := (List.pairwise_append.mp feeds).2.2 comment inside last (by simp)
        have none := isNear last (by simp)
        have past := lawful.feeds_past (listed last (by simp)) apart (closes last (by simp))
        omega
      · rw [List.mem_singleton.mp inside]
    rw [lead, same]
    simp
  · have apart := (List.pairwise_append.mp behind).2.2 comment mem last (by simp)
    have sum := (List.pairwise_append.mp feeds).2.2 comment mem last (by simp)
    have none := isNear comment mem
    have some := isFar last (by simp)
    have past := lawful.feeds_past (listed last (by simp)) apart (closes last (by simp))
    refine iff_of_true ?_ (.inl (by simp))
    omega

end Lawful

section Homes

variable {gap : Nat} {comment : Lexeme} {prev next : Span}

theorem home_at_start (mem : comment ∈ layout.inGap gap) (before : layout.prev? gap = none) :
    layout.home comment = (gap, .before) := by
  simp [home, (mem_inGap.mp mem).2, before]

theorem home_before_separator {fragment : Fragment} (mem : comment ∈ layout.inGap gap)
    (before : layout.prev? gap = some fragment) (found : layout.next? gap = some (.separator next)) :
    layout.home comment = (gap - 1, .before) := by
  simp [home, (mem_inGap.mp mem).2, before, found]

theorem home_between_points (mem : comment ∈ layout.inGap gap)
    (before : layout.prev? gap = some (.point prev))
    (found : layout.next? gap = some (.point next)) :
    layout.home comment =
      if layout.feeds prev.stop comment.span.start = 0 then (gap - 1, .after) else (gap, .before) := by
  simp [home, (mem_inGap.mp mem).2, before, found]

theorem home_behind_separator (mem : comment ∈ layout.inGap gap)
    (before : layout.prev? gap = some (.separator prev))
    (found : layout.next? gap = some (.point next)) :
    layout.home comment =
      if layout.feeds prev.stop comment.span.start = 0 ∧
        0 < layout.feeds comment.span.stop next.start
      then (gap - 2, .after) else (gap, .before) := by
  simp [home, (mem_inGap.mp mem).2, before, found]

end Homes

namespace Lawful

variable (lawful : layout.Lawful resolver line) {gap : Nat} {prev next : Span}
include lawful

/-- Between points, the first group is split off if it stands on the line of the point in front. -/
theorem split_between_points (before : layout.prev? gap = some (.point prev))
    (found : layout.next? gap = some (.point next)) :
    CommentGap.split (some (.point prev)) (some (.point next))
      (layout.groupsOf (layout.inGap gap)) (layout.leadOf gap) =
      ⟨layout.groupsOf (layout.part gap .after),
        layout.groupsOf (layout.part gap .before) ++ lineBreak (layout.leadOf gap)⟩ := by
  obtain ⟨near, far, whole, isNear, isFar, first⟩ := lawful.exists_near before
  simp only [Fragment.span] at isNear isFar
  obtain ⟨after, rest⟩ := part_of_split whole
    (fun comment mem => by
      rw [home_between_points (whole ▸ List.mem_append_left _ mem) before found,
        if_pos (isNear comment mem)])
    (fun comment mem => by
      rw [home_between_points (whole ▸ List.mem_append_right _ mem) before found,
        if_neg (isFar comment mem)])
  rw [after, rest]
  rcases first with ⟨rfl, notFirst⟩ | ⟨texts, group, groups⟩
  · simp [CommentGap.split, ← whole, notFirst]
  · simp [CommentGap.split, groups, group, CommentGap.beginsOnLine]

/-- Behind a separator, the first group is split off if it also closes the line. -/
theorem split_behind_separator (before : layout.prev? gap = some (.separator prev))
    (found : layout.next? gap = some (.point next)) :
    CommentGap.split (some (.separator prev)) (some (.point next))
      (layout.groupsOf (layout.inGap gap)) (layout.leadOf gap) =
      ⟨layout.groupsOf (layout.part gap .after),
        layout.groupsOf (layout.part gap .before) ++ lineBreak (layout.leadOf gap)⟩ := by
  obtain ⟨near, far, whole, isNear, isFar, first⟩ := lawful.exists_near before
  have follows := lawful.feeds_next_pos_iff before found whole isNear isFar
  simp only [Fragment.span] at isNear isFar follows
  have farBefore : ∀ comment ∈ far, (layout.home comment).2 = .before := by
    intro comment mem
    rw [home_behind_separator (whole ▸ List.mem_append_right _ mem) before found,
      if_neg fun both => isFar comment mem both.1]
  rcases first with ⟨rfl, notFirst⟩ | ⟨texts, group, groups⟩
  · obtain ⟨after, rest⟩ := part_of_split whole (by simp) farBefore
    rw [after, rest]
    simp [CommentGap.split, ← whole, notFirst]
  · by_cases closes : far ≠ [] ∨ 0 < layout.leadOf gap
    · obtain ⟨after, rest⟩ := part_of_split whole
        (fun comment mem => by
          rw [home_behind_separator (whole ▸ List.mem_append_left _ mem) before found,
            if_pos ⟨isNear comment mem, (follows comment mem).mpr closes⟩]) farBefore
      have longer : (decide (1 < (layout.groupsOf (layout.inGap gap)).length) ||
          decide (0 < layout.leadOf gap)) = true := by
        simpa [groups, List.length_pos_iff, groupsOf_eq_nil_iff] using closes
      rw [after, rest]
      simp only [CommentGap.split, longer]
      simp [groups, group, CommentGap.beginsOnLine]
    · obtain ⟨rfl, lead⟩ : far = [] ∧ layout.leadOf gap = 0 := by simpa using closes
      rw [List.append_nil] at whole
      obtain ⟨after, rest⟩ := @part_of_split layout gap [] near whole (by simp)
        (fun comment mem => by
          rw [home_behind_separator (whole ▸ mem) before found,
            if_neg fun both => closes ((follows comment mem).mp both.2)])
      rw [after, rest]
      simp [CommentGap.split, groups, group, lead]

/-- Splitting off the first group of a gap is splitting its comments by their homes. -/
theorem split_inGap {next : Fragment} (found : layout.next? gap = some next) :
    CommentGap.split (layout.prev? gap) (layout.next? gap) (layout.groupsOf (layout.inGap gap))
      (layout.leadOf gap) = ⟨layout.groupsOf (layout.part gap .after),
        layout.groupsOf (layout.part gap .before) ++ layout.breakOf gap⟩ := by
  cases before : layout.prev? gap with
  | none =>
    obtain ⟨after, rest⟩ := @part_of_split layout gap [] (layout.inGap gap) rfl (by simp)
      fun comment mem => by rw [home_at_start mem before]
    cases next with
    | separator separator =>
      obtain ⟨point, pointed⟩ := lawful.pointed gap separator found
      simp [before] at pointed
    | point point => simp [CommentGap.split, after, rest, breakOf, found]
  | some prev =>
    cases next with
    | separator separator =>
      obtain ⟨point, pointed⟩ := lawful.pointed gap separator found
      obtain rfl : prev = .point point := Option.some.inj (before.symm.trans pointed)
      obtain ⟨after, rest⟩ := @part_of_split layout gap [] (layout.inGap gap) rfl (by simp)
        fun comment mem => by rw [home_before_separator mem before found]
      simp [CommentGap.split, after, rest, breakOf, found]
    | point point =>
      rw [breakOf, found]
      cases prev with
      | point prev => exact lawful.split_between_points before found
      | separator prev => exact lawful.split_behind_separator before found

/-- Every comment of a gap goes to the side of its home. -/
theorem assign_gap {next : Fragment} (found : layout.next? gap = some next) :
    assign resolver ⟨layout.prev? gap, some next, layout.inGap gap⟩ =
      .ok ⟨layout.groupsOf (layout.part gap .after),
        layout.groupsOf (layout.part gap .before) ++ layout.breakOf gap⟩ := by
  have grouped := lawful.group_inGap found (List.nil_append _)
  have counted := lawful.deltaBehind_inGap found
  have split := lawful.split_inGap found
  rw [found] at counted split
  refine CommentGap.assign_eq_ok.mpr ⟨_, _, _, _, ?_, grouped, counted, split⟩
  cases before : layout.prev? gap with
  | none => simp [CommentGap.lineBefore, lineFrom, before]
  | some prev =>
    have listed : prev ∈ layout.fragments := by
      cases gap with
      | zero => simp [prev?] at before
      | succ place => exact List.mem_of_getElem? before
    simp only [CommentGap.lineBefore, lineFrom, before,
      CommentGap.lineOf_eq_ok.mpr (lawful.places prev listed).2, List.getLast?_nil]
    rfl

end Lawful

end Layout

end GoTrivia
