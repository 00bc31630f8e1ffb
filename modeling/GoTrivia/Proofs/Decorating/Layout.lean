import Mathlib.Data.List.DropRight
import Mathlib.Data.List.SplitBy
import Mathlib.Data.List.TakeWhile
import GoTrivia.Proofs.Decorating.Gaps
import GoTrivia.Tree.Dump

/-!
# Where comments belong

A layout is what decides where the comments of a text go: the fragments of its tree, the
comments, and the line feeds outside comments.  Every comment has a gap between two
fragments, a home on one side of some point, and a number of line feeds in front of it.  The
comments of a gap that no line feed parts form one group.

None of this looks at lines.  The lines that decorating works with lead to the same groups,
since the line feeds between neighbouring things are the difference of their lines (`Lawful`).
-/

set_option autoImplicit false

namespace GoTrivia

/-- What decides where comments go: fragments, comments and the number of line feeds outside
comments between two offsets. -/
structure Layout where
  fragments : List Fragment
  comments : List Lexeme
  feeds : Nat → Nat → Nat

namespace Layout

variable (layout : Layout)

/-! ## Gaps and homes -/

/-- The gap of a comment: the number of fragments up to the last one that starts at or before
the comment. -/
def gapOf (comment : Lexeme) : Nat :=
  (layout.fragments.rdropWhile fun fragment =>
    decide (comment.span.start < fragment.span.start)).length

/-- The comments of a gap. -/
def inGap (gap : Nat) : List Lexeme :=
  layout.comments.filter fun comment => layout.gapOf comment == gap

/-- The fragment in front of a gap. -/
def prev? : Nat → Option Fragment
  | 0 => none
  | gap + 1 => layout.fragments[gap]?

/-- The fragment behind a gap. -/
def next? (gap : Nat) : Option Fragment := layout.fragments[gap]?

/-- The point a comment belongs to, by its place among the fragments, and the side of it. -/
def home (comment : Lexeme) : Nat × Side :=
  let gap := layout.gapOf comment
  match layout.prev? gap, layout.next? gap with
  | none, _ => (gap, .before)
  | some _, some (.separator _) => (gap - 1, .before)
  | some (.point prev), some (.point _) =>
    if layout.feeds prev.stop comment.span.start = 0 then (gap - 1, .after) else (gap, .before)
  | some (.separator prev), some (.point next) =>
    if layout.feeds prev.stop comment.span.start = 0 ∧ 0 < layout.feeds comment.span.stop next.start
    then (gap - 2, .after) else (gap, .before)
  | some _, none => (gap - 1, .after)

/-- The comments at home on a side of a point. -/
def homed (place : Nat) (side : Side) : List Lexeme :=
  layout.comments.filter fun comment => layout.home comment == (place, side)

/-! ## Groups -/

/-- The line feeds between what comes last in a gap, given its comments so far, and an offset. -/
def leadFrom (gap : Nat) (earlier : List Lexeme) (offset : Nat) : Nat :=
  match earlier.getLast?, layout.prev? gap with
  | some comment, _ => layout.feeds comment.span.stop offset
  | none, some fragment => layout.feeds fragment.span.stop offset
  | none, none => 0

/-- The line feeds in front of a comment. -/
def lead (comment : Lexeme) : Nat :=
  layout.leadFrom (layout.gapOf comment)
    ((layout.inGap (layout.gapOf comment)).takeWhile fun other =>
      decide (other.span.start < comment.span.start)) comment.span.start

/-- The line feeds in front of the fragment behind a gap. -/
def leadOf (gap : Nat) : Nat :=
  match layout.next? gap with
  | some fragment => layout.leadFrom gap (layout.inGap gap) fragment.span.start
  | none => 0

/-- Whether two comments are in one gap with no line feed between them. -/
def shares (comment next : Lexeme) : Bool :=
  layout.gapOf comment == layout.gapOf next && layout.feeds comment.span.stop next.span.start == 0

/-- Comments as one group. -/
def groupOf : List Lexeme → Option TriviaGroup
  | [] => none
  | first :: rest => some ⟨.ofLineDelta (layout.lead first), (first :: rest).map Lexeme.text⟩

/-- The groups of a list of comments. -/
def groupsOf (comments : List Lexeme) : List TriviaGroup :=
  (comments.splitBy layout.shares).filterMap layout.groupOf

/-! ## Laws -/

/-- Fragments and comments one behind the other, with the line feeds between them told by a
line for every offset. -/
structure Lawful (layout : Layout) (resolver : LineResolver) (line : Nat → Nat) : Prop where
  apart : layout.fragments.Pairwise fun fragment next => fragment.span.stop ≤ next.span.start
  ordered : ∀ fragment ∈ layout.fragments, fragment.span.start ≤ fragment.span.stop
  behind : layout.comments.Pairwise fun comment next => comment.span.stop ≤ next.span.start
  filled : ∀ comment ∈ layout.comments, comment.span.start < comment.span.stop
  clear : ∀ comment ∈ layout.comments, ∀ fragment ∈ layout.fragments,
    fragment.span.stop ≤ comment.span.start ∨ comment.span.stop ≤ fragment.span.start
  early : ∀ comment ∈ layout.comments, layout.gapOf comment < layout.fragments.length
  pointed : ∀ gap separator, layout.next? gap = some (.separator separator) →
    ∃ point, layout.prev? gap = some (.point point)
  places : ∀ fragment ∈ layout.fragments,
    resolver.lineOf? fragment.span.start = some (line fragment.span.start) ∧
      resolver.lineOf? fragment.span.stop = some (line fragment.span.stop)
  lines : ∀ comment ∈ layout.comments,
    resolver.lineOf? comment.span.start = some (line comment.span.start) ∧
      resolver.lineOf? comment.span.stop = some (line comment.span.stop)
  add : ∀ {start middle stop : Nat}, start ≤ middle → middle ≤ stop →
    layout.feeds start stop = layout.feeds start middle + layout.feeds middle stop
  inside : ∀ comment ∈ layout.comments, layout.feeds comment.span.start comment.span.stop = 0
  feeds_eq : ∀ {start stop : Nat}, start ≤ stop →
    (∀ comment ∈ layout.comments, comment.span.stop ≤ start ∨ stop ≤ comment.span.start) →
    layout.feeds start stop = line stop - line start

end Layout

/-! ## Lists -/

section Lists

variable {α : Type} {holds : α → Bool} {l : List α}

theorem takeWhile_eq_filter (falling : l.Pairwise fun a b => holds b = true → holds a = true) :
    l.takeWhile holds = l.filter holds := by
  induction falling with
  | nil => rfl
  | @cons a l earlier _ ih =>
    by_cases here : holds a = true
    · simp [here, ih]
    · have none : l.filter holds = [] :=
        List.filter_eq_nil_iff.mpr fun b mem later => here (earlier b mem later)
      simp [here, none]

theorem dropWhile_eq_filter (falling : l.Pairwise fun a b => holds b = true → holds a = true) :
    l.dropWhile holds = l.filter fun a => !holds a := by
  induction falling with
  | nil => rfl
  | @cons a l earlier _ ih =>
    by_cases here : holds a = true
    · simp [here, ih]
    · have all : l.filter (fun a => !holds a) = l :=
        List.filter_eq_self.mpr fun b mem => by
          simpa using fun later => here (earlier b mem later)
      simp [here, all]

/-- Elements of two kinds, all of one kind in front of those of the other. -/
theorem filter_or_eq_append {first second : α → Bool}
    (order : l.Pairwise fun a b => second a = true → first b = false)
    (apart : ∀ a ∈ l, second a = true → first a = false) :
    l.filter (fun a => first a || second a) = l.filter first ++ l.filter second := by
  induction order with
  | nil => rfl
  | @cons a l later _ ih =>
    have rest := ih fun b mem => apart b (List.mem_cons_of_mem a mem)
    by_cases here : second a = true
    · have none : l.filter first = [] :=
        List.filter_eq_nil_iff.mpr fun b mem => by simp [later b mem here]
      simp [here, apart a List.mem_cons_self here, rest, none]
    · simp only [Bool.not_eq_true] at here
      cases is : first a <;> simp [here, is, rest]

/-- What stays when a list is shortened from behind. -/
theorem lt_length_rdropWhile_iff {i : Nat} {a : α}
    (rising : l.Pairwise fun a b => holds a = true → holds b = true) (found : l[i]? = some a) :
    i < (l.rdropWhile holds).length ↔ ¬holds a = true := by
  induction l using List.reverseRecOn with
  | nil => simp at found
  | append_singleton l b ih =>
    obtain ⟨rising, -, across⟩ := List.pairwise_append.mp rising
    rw [List.rdropWhile_concat]
    have bound : i < l.length + 1 := by simpa using (List.getElem?_eq_some_iff.mp found).1
    split
    · next last =>
      rcases Nat.lt_succ_iff_lt_or_eq.mp bound with early | rfl
      · rw [List.getElem?_append_left early] at found
        exact ih rising found
      · obtain rfl : b = a := by simpa using found
        have := (List.rdropWhile_prefix holds l).length_le
        simp [last, this]
    · next last =>
      refine iff_of_true (by simpa using bound) fun here => ?_
      rcases Nat.lt_succ_iff_lt_or_eq.mp bound with early | rfl
      · rw [List.getElem?_append_left early] at found
        exact last (across a (List.mem_of_getElem? found) b (by simp) here)
      · obtain rfl : b = a := by simpa using found
        exact last here

/-- One more element in the last run. -/
theorem splitBy_concat {related : α → α → Bool} {a b : α} (joins : related a b = true) :
    ∃ runs run, (l ++ [a]).splitBy related = runs ++ [run] ∧ run ≠ [] ∧
      (l ++ [a] ++ [b]).splitBy related = runs ++ [run ++ [b]] := by
  obtain ⟨runs, run, split⟩ : ∃ runs run, (l ++ [a]).splitBy related = runs ++ [run] := by
    have some : (l ++ [a]).splitBy related ≠ [] := List.splitBy_ne_nil.mpr (by simp)
    exact ⟨_, _, (List.dropLast_append_getLast some).symm⟩
  obtain ⟨whole, filled, chains, borders⟩ := List.splitBy_eq_iff.mp split
  have filledRun : run ≠ [] := fun none => filled (by simp [none])
  have last : run.getLast filledRun = a := by
    have same := congrArg List.getLast? whole
    simpa [List.getLast?_append, List.getLast?_eq_some_getLast filledRun, eq_comm] using same
  refine ⟨runs, run, split, filledRun, List.splitBy_eq_iff.mpr ⟨?_, ?_, ?_, ?_⟩⟩
  · rw [whole]
    simp
  · simp only [List.mem_append, List.mem_singleton, not_or] at filled ⊢
    exact ⟨filled.1, by simp⟩
  · intro other mem
    rcases List.mem_append.mp mem with mem | mem
    · exact chains other (by simp [mem])
    · obtain rfl := List.mem_singleton.mp mem
      refine List.isChain_append.mpr ⟨chains run (by simp), .singleton _, ?_⟩
      intro x isLast y isNext
      rw [List.getLast?_eq_some_getLast filledRun, last] at isLast
      obtain rfl := Option.some.inj isLast
      obtain rfl : b = y := by simpa using isNext
      exact joins
  · refine List.isChain_append.mpr ⟨borders.left_of_append, .singleton _, ?_⟩
    rintro x isLast y ⟨⟩
    obtain ⟨filledLast, _, border⟩ := (List.isChain_append.mp borders).2.2 x isLast run (by simp)
    refine ⟨filledLast, by simp, ?_⟩
    rwa [List.head_append_of_ne_nil filledRun]

/-- Elements of an ordered list are in one run if all neighbours between them are related. -/
theorem exists_run_of_between {related : α → α → Bool} {order : α → α → Prop}
    (ordered : l.Pairwise order) {first second : α} (mem : first ∈ l) (mem' : second ∈ l)
    (asymm : ¬order second first)
    (between : ∀ a ∈ l, ∀ b ∈ l, first = a ∨ order first a → order a b → b = second ∨ order b second →
      related a b = true) :
    ∃ run ∈ l.splitBy related, first ∈ run ∧ second ∈ run := by
  have borders := List.isChain_getLast_head_splitBy related l
  rw [← List.flatten_splitBy related l] at ordered mem mem' between
  obtain ⟨run, isRun, inside⟩ := List.mem_flatten.mp mem
  refine ⟨run, isRun, inside, ?_⟩
  obtain ⟨front, back, split⟩ := List.append_of_mem isRun
  rw [split] at mem' ordered borders between
  simp only [List.flatten_append, List.flatten_cons, List.mem_append] at mem' ordered between
  obtain ⟨-, ordered, across⟩ := List.pairwise_append.mp ordered
  obtain ⟨inRun, inBack, across'⟩ := List.pairwise_append.mp ordered
  rcases mem' with early | here | late
  · exact absurd (across second early first (by simp [inside])) asymm
  · exact here
  -- The last element of the run and the first one of the next would be related.
  · exfalso
    cases back with
    | nil => simp at late
    | cons next back =>
      obtain ⟨filled, filled', parts⟩ :=
        (List.isChain_cons_cons.mp (List.isChain_append.mp borders).2.1).1
      have last := List.getLast_mem filled
      have head := List.head_mem filled'
      refine Bool.false_ne_true (parts.symm.trans (between _ (by simp [last]) _ (by simp [head])
        ?_ (across' _ last _ (by simp [head])) ?_))
      · rw [← List.dropLast_append_getLast filled] at inside inRun
        rcases List.mem_append.mp inside with inside | inside
        · exact .inr ((List.pairwise_append.mp inRun).2.2 _ inside _ (by simp))
        · exact .inl (List.mem_singleton.mp inside)
      · obtain ⟨b, next, rfl⟩ := List.exists_cons_of_ne_nil filled'
        rcases List.mem_cons.mp late with rfl | late
        · exact .inl rfl
        · exact .inr (List.rel_of_pairwise_cons inBack late)

end Lists

end GoTrivia
