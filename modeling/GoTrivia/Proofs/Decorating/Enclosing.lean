import Mathlib.Order.Monotone.Basic
import GoTrivia.Proofs.Decorating.Placing

/-!
# A parsed tree laid out flat

The fragments of the tree of a text come one behind the other, every node encloses what it
consists of, and every comment lies in one gap between two fragments.

**Enclosing.** The fragments of a node begin with its start and end with its stop.  So if they
come one behind the other, the parts of the node lie between these two, in the order of its
shape, and the same holds of every node below.

**Exact differences.** How far things in a gap stand apart is told by differences of lines.
Since everything in a gap comes in order, no such difference is cut off at zero: a subtraction
that refuses to go below zero (`lineDelta?`) assigns the trivia of every gap in the same way.
-/

set_option autoImplicit false

namespace GoTrivia

open Positional

/-! ## The parts of a node -/

/-- Spans one behind the other between two offsets. -/
def Stacked (low : Nat) : List Span → Nat → Prop
  | [], high => low ≤ high
  | span :: spans, high => low ≤ span.start ∧ span.start ≤ span.stop ∧ Stacked span.stop spans high

namespace Positional

/-- The spans of list elements, each with the separator behind it. -/
def elementSpans : List Span → List Positional → List Span
  | _, [] => []
  | separators, tree :: trees =>
    tree.span :: (separators.head?.toList ++ elementSpans (separators.drop 1) trees)

/-- The spans of what a slot holds. -/
def slotSpans : PositionalSlot → List Span
  | .token content => (content.map Lexeme.span).toList
  | .child content => (content.map span).toList
  | .list elements separators => elementSpans separators elements

/-- The spans of the tokens, children, list elements and separators of a node, in the order of
its shape. -/
def partSpans (node : Positional) : List Span := node.slots.flatMap slotSpans

/-- A node encloses its parts if they lie one behind the other inside its span. -/
def Encloses (node : Positional) : Prop := Stacked node.span.start node.partSpans node.span.stop

end Positional

namespace Ranged

variable {At : Span → Prop} {low high : Nat} {front back : List Fragment}

/-- Fragments one behind the other can be cut anywhere. -/
theorem split (ranged : Ranged At low (front ++ back) high) :
    ∃ middle, Ranged At low front middle ∧ Ranged At middle back high := by
  induction front generalizing low with
  | nil => exact ⟨low, .nil (Nat.le_refl low), ranged⟩
  | cons fragment front ih =>
    cases ranged with
    | cons place begins ordered rest =>
      obtain ⟨middle, first, second⟩ := ih rest
      exact ⟨middle, .cons place begins ordered first, second⟩

end Ranged

section Trees

variable {At : Span → Prop}

theorem Stacked.weaken {low middle high : Nat} {spans : List Span}
    (stacked : Stacked middle spans high) (le : low ≤ middle) : Stacked low spans high := by
  cases spans with
  | nil => exact Nat.le_trans le stacked
  | cons span spans => exact ⟨Nat.le_trans le stacked.1, stacked.2⟩

theorem Stacked.append {low middle high : Nat} {front back : List Span}
    (first : Stacked low front middle) (second : Stacked middle back high) :
    Stacked low (front ++ back) high := by
  induction front generalizing low with
  | nil => exact second.weaken first
  | cons span front ih => exact ⟨first.1, first.2.1, ih first.2.2⟩

mutual
/-- A tree whose fragments come one behind the other lies where they do, and its nodes enclose
their parts. -/
theorem encloses_of_ranged : ∀ (tree : Positional) {low high : Nat},
    Ranged At low tree.fragments high →
    Stacked low [tree.span] high ∧ ∀ node ∈ tree.preorder, Encloses node
  | .node kind span slots, low, high, ranged => by
      rw [fragments] at ranged
      cases ranged with
      | cons _ begins _ rest =>
        obtain ⟨middle, inside, last⟩ := rest.split
        cases last with
        | cons _ later _ ended =>
          obtain ⟨stacked, below⟩ := encloses_of_rangedSlots slots inside
          have whole : Stacked span.start (slots.flatMap slotSpans) span.stop := by
            rw [← List.append_nil (slots.flatMap slotSpans)]
            exact stacked.append later
          refine ⟨⟨begins, Nat.le_trans inside.le later, ended.le⟩, ?_⟩
          rw [SlotTree.preorder]
          exact List.forall_mem_cons.mpr ⟨whole, below⟩

theorem encloses_of_rangedSlots : ∀ (slots : List PositionalSlot) {low high : Nat},
    Ranged At low (fragmentsSlots slots) high →
    Stacked low (slots.flatMap slotSpans) high ∧
      ∀ node ∈ SlotTree.preorderSlots slots, Encloses node
  | [], _, _, ranged => by
      rw [fragmentsSlots] at ranged
      exact ⟨ranged.le, by simp [SlotTree.preorderSlots]⟩
  | .token none :: slots, _, _, ranged => by
      rw [fragmentsSlots] at ranged
      exact encloses_of_rangedSlots slots ranged
  | .token (some lexeme) :: slots, _, _, ranged => by
      rw [fragmentsSlots] at ranged
      cases ranged with
      | cons _ begins ordered rest =>
        obtain ⟨stacked, below⟩ := encloses_of_rangedSlots slots rest
        exact ⟨⟨begins, ordered, stacked⟩, below⟩
  | .child none :: slots, _, _, ranged => by
      rw [fragmentsSlots] at ranged
      exact encloses_of_rangedSlots slots ranged
  | .child (some child) :: slots, _, _, ranged => by
      rw [fragmentsSlots] at ranged
      obtain ⟨middle, first, second⟩ := ranged.split
      obtain ⟨⟨begins, ordered, _⟩, inside⟩ := encloses_of_ranged child first
      cases second with
      | cons _ _ _ rest =>
        obtain ⟨stacked, below⟩ := encloses_of_rangedSlots slots rest
        exact ⟨⟨begins, ordered, stacked⟩, List.forall_mem_append.mpr ⟨inside, below⟩⟩
  | .list elements separators :: slots, _, _, ranged => by
      rw [fragmentsSlots] at ranged
      obtain ⟨middle, first, second⟩ := ranged.split
      obtain ⟨stacked, inside⟩ := encloses_of_rangedElements separators elements first
      obtain ⟨stacked', below⟩ := encloses_of_rangedSlots slots second
      exact ⟨stacked.append stacked', List.forall_mem_append.mpr ⟨inside, below⟩⟩

theorem encloses_of_rangedElements : ∀ (separators : List Span) (trees : List Positional)
    {low high : Nat}, Ranged At low (fragmentsElements separators trees) high →
    Stacked low (elementSpans separators trees) high ∧
      ∀ node ∈ SlotTree.preorderElements trees, Encloses node
  | _, [], _, _, ranged => by
      rw [fragmentsElements] at ranged
      exact ⟨ranged.le, by simp [SlotTree.preorderElements]⟩
  | separators, tree :: trees, _, _, ranged => by
      rw [fragmentsElements, List.append_assoc] at ranged
      obtain ⟨middle, first, second⟩ := ranged.split
      obtain ⟨⟨begins, ordered, ended⟩, inside⟩ := encloses_of_ranged tree first
      cases separators with
      | nil =>
        obtain ⟨stacked, below⟩ := encloses_of_rangedElements [] trees second
        exact ⟨⟨begins, ordered, stacked.weaken ended⟩, List.forall_mem_append.mpr ⟨inside, below⟩⟩
      | cons separator separators =>
        cases second with
        | cons _ behind ordered' rest =>
          obtain ⟨stacked, below⟩ := encloses_of_rangedElements separators trees rest
          exact ⟨⟨begins, ordered, Nat.le_trans ended behind, ordered', stacked⟩,
            List.forall_mem_append.mpr ⟨inside, below⟩⟩
end

end Trees

/-! ## Exact differences of lines -/

namespace CommentGap

/-- How far a line is below what precedes it, if anything does, unless it is above. -/
def lineDelta? : Option Nat → Nat → Option Nat
  | some line, below => if line ≤ below then some (below - line) else none
  | none, _ => some 0

/-- Groups comments by line, as long as none is above what precedes it. -/
def groupExact (resolver : LineResolver) (line : Option Nat) (groups : List TriviaGroup) :
    List Lexeme → Option (List TriviaGroup × Option Nat)
  | [] => some (groups, line)
  | comment :: comments => do
    let first ← resolver.lineOf? comment.span.start
    let delta ← lineDelta? line first
    let last ← resolver.lineOf? comment.span.stop
    groupExact resolver (some last) (addComment groups delta comment.text) comments

/-- The line in front of a gap, if there is something. -/
def lineBefore? (resolver : LineResolver) : Option Fragment → Option (Option Nat)
  | some prev => (resolver.lineOf? prev.span.stop).map some
  | none => some none

/-- How far the fragment behind a gap is below what precedes it, unless it is above. -/
def deltaBehind? (resolver : LineResolver) (line : Option Nat) : Option Fragment → Option Nat
  | some next => (resolver.lineOf? next.span.start).bind (lineDelta? line)
  | none => some 0

/-- Splits the trivia of a gap between its two sides, as long as nothing in the gap is above what
precedes it. -/
def assignExact (resolver : LineResolver) (gap : CommentGap) : Option Assignment := do
  let line ← lineBefore? resolver gap.prev
  let (groups, line) ← groupExact resolver line [] gap.comments
  let delta ← deltaBehind? resolver line gap.next
  return split gap.prev gap.next groups delta

/-- The offset at which what comes last ends: the last of some comments, or what is in front of
them. -/
def lastStop (start : Option Nat) (comments : List Lexeme) : Option Nat :=
  (comments.getLast?.map (·.span.stop)).or start

theorem lastStop_cons (start : Option Nat) (comment : Lexeme) (comments : List Lexeme) :
    lastStop start (comment :: comments) = lastStop (some comment.span.stop) comments := by
  cases comments with
  | nil => rfl
  | cons next comments =>
    simp [lastStop, List.getLast?_eq_some_getLast (List.cons_ne_nil _ _)]

variable {resolver : LineResolver} {line : Nat → Nat}

theorem lineDelta?_map (rising : Monotone line) {start : Option Nat} {offset : Nat}
    (early : ∀ stop ∈ start, stop ≤ offset) :
    lineDelta? (start.map line) (line offset) =
      some (((start.map line).map (line offset - ·)).getD 0) := by
  cases start with
  | none => rfl
  | some stop => exact if_pos (rising (early stop rfl))

/-- Comments in order are grouped by exact differences. -/
theorem exists_groupExact (rising : Monotone line) {comments : List Lexeme}
    (placed : ∀ comment ∈ comments,
      resolver.lineOf? comment.span.start = some (line comment.span.start) ∧
        resolver.lineOf? comment.span.stop = some (line comment.span.stop))
    (behind : comments.Pairwise fun comment next => comment.span.stop ≤ next.span.start) :
    ∀ {start : Option Nat} (groups : List TriviaGroup),
      (∀ offset ∈ start, ∀ comment ∈ comments, offset ≤ comment.span.start) →
      ∃ groups', group resolver (start.map line) groups comments =
          .ok (groups', (lastStop start comments).map line) ∧
        groupExact resolver (start.map line) groups comments =
          some (groups', (lastStop start comments).map line) := by
  induction comments with
  | nil => exact fun groups _ => ⟨groups, rfl, rfl⟩
  | cons comment comments ih =>
    intro start groups early
    obtain ⟨⟨begins, ends⟩, placed⟩ := List.forall_mem_cons.mp placed
    obtain ⟨next, behind⟩ := List.pairwise_cons.mp behind
    have delta := lineDelta?_map rising fun stop mem => early stop mem comment (by simp)
    obtain ⟨groups', grouped, same⟩ := @ih placed behind (some comment.span.stop)
      (addComment groups (((start.map line).map (line comment.span.start - ·)).getD 0) comment.text)
      (by rintro _ ⟨⟩ other mem; exact next other mem)
    refine ⟨groups', ?_, ?_⟩
    · unfold group
      rw [lineOf_eq_ok.mpr begins, lineOf_eq_ok.mpr ends, lastStop_cons]
      exact grouped
    · unfold groupExact
      rw [begins, ends, lastStop_cons]
      simp only [Option.bind_eq_bind, Option.bind_some, delta]
      exact same

/-- A gap whose comments and fragments come in order, on lines that ascend with the offsets. -/
structure InOrder (resolver : LineResolver) (line : Nat → Nat) (gap : CommentGap) : Prop where
  rising : Monotone line
  prev : ∀ prev ∈ gap.prev, resolver.lineOf? prev.span.stop = some (line prev.span.stop)
  next : ∀ next ∈ gap.next, resolver.lineOf? next.span.start = some (line next.span.start)
  comments : ∀ comment ∈ gap.comments,
    resolver.lineOf? comment.span.start = some (line comment.span.start) ∧
      resolver.lineOf? comment.span.stop = some (line comment.span.stop)
  apart : ∀ prev ∈ gap.prev, ∀ next ∈ gap.next, prev.span.stop ≤ next.span.start
  behind : gap.comments.Pairwise fun comment next => comment.span.stop ≤ next.span.start
  begins : ∀ prev ∈ gap.prev, ∀ comment ∈ gap.comments, prev.span.stop ≤ comment.span.start
  ends : ∀ next ∈ gap.next, ∀ comment ∈ gap.comments, comment.span.stop ≤ next.span.start

namespace InOrder

variable {gap : CommentGap} (inOrder : gap.InOrder resolver line)
include inOrder

theorem lineBefore :
    CommentGap.lineBefore resolver gap.prev = .ok ((gap.prev.map (·.span.stop)).map line) ∧
      lineBefore? resolver gap.prev = some ((gap.prev.map (·.span.stop)).map line) := by
  cases found : gap.prev with
  | none => exact ⟨rfl, rfl⟩
  | some prev =>
    have placed := inOrder.prev prev found
    rw [CommentGap.lineBefore, lineOf_eq_ok.mpr placed, lineBefore?, placed]
    exact ⟨rfl, rfl⟩

theorem deltaBehind {last : Option Nat}
    (le : ∀ next ∈ gap.next, ∀ stop ∈ last, stop ≤ next.span.start) :
    ∃ delta, CommentGap.deltaBehind resolver (last.map line) gap.next = .ok delta ∧
      deltaBehind? resolver (last.map line) gap.next = some delta := by
  cases found : gap.next with
  | none => exact ⟨0, by cases last <;> rfl, rfl⟩
  | some next =>
    have placed := inOrder.next next found
    refine ⟨((last.map line).map (line next.span.start - ·)).getD 0, ?_, ?_⟩
    · cases last with
      | none => rfl
      | some stop =>
        rw [Option.map_some, CommentGap.deltaBehind, lineOf_eq_ok.mpr placed]
        rfl
    · rw [deltaBehind?, placed]
      exact lineDelta?_map inOrder.rising (le next found)

/-- A gap in order is assigned by exact differences. -/
theorem exists_assignExact :
    ∃ assignment, gap.assignExact resolver = some assignment ∧
      gap.assign resolver = .ok assignment := by
  obtain ⟨start, isStart⟩ : ∃ start, gap.prev.map (·.span.stop) = start := ⟨_, rfl⟩
  have begins : ∀ stop ∈ start, ∀ comment ∈ gap.comments, stop ≤ comment.span.start := by
    intro stop mem
    rw [← isStart] at mem
    obtain ⟨fragment, found, rfl⟩ := Option.map_eq_some_iff.mp mem
    exact inOrder.begins fragment found
  obtain ⟨before, before'⟩ := isStart ▸ inOrder.lineBefore
  obtain ⟨groups, grouped, grouped'⟩ :=
    exists_groupExact inOrder.rising inOrder.comments inOrder.behind [] begins
  have last_le : ∀ fragment ∈ gap.next, ∀ stop ∈ lastStop start gap.comments,
      stop ≤ fragment.span.start := by
    intro fragment found stop mem
    rcases Option.or_eq_some_iff.mp mem with mem | ⟨-, mem⟩
    · obtain ⟨comment, last, rfl⟩ := Option.map_eq_some_iff.mp mem
      exact inOrder.ends fragment found comment (List.mem_of_getLast? last)
    · rw [← isStart] at mem
      obtain ⟨prev, found', rfl⟩ := Option.map_eq_some_iff.mp mem
      exact inOrder.apart prev found' fragment found
  obtain ⟨delta, behind, behind'⟩ := inOrder.deltaBehind last_le
  refine ⟨split gap.prev gap.next groups delta, ?_,
    assign_eq_ok.mpr ⟨_, groups, _, delta, before, grouped, behind, rfl⟩⟩
  simp only [assignExact, before', grouped', behind', Option.bind_eq_bind, Option.bind_some]
  rfl

end InOrder

/-- A gap reaches from the end of a fragment to the start of the next one, with a comment in
between. -/
def Surrounds (gap : CommentGap) (comment : Lexeme) : Prop :=
  (∀ prev ∈ gap.prev, prev.span.stop ≤ comment.span.start) ∧
    ∀ next ∈ gap.next, comment.span.stop ≤ next.span.start

end CommentGap

/-! ## The gaps of a lawful layout -/

namespace Layout

/-- A gap with what is around it and in it. -/
def gapAt (layout : Layout) (gap : Nat) : CommentGap :=
  ⟨layout.prev? gap, layout.next? gap, layout.inGap gap⟩

namespace Lawful

variable {layout : Layout} {resolver : LineResolver} {line : Nat → Nat}
  (lawful : layout.Lawful resolver line)
include lawful

theorem ofFragments_ahead (rest : List Fragment) :
    ∀ {front : List Fragment}, front ++ rest = layout.fragments →
      CommentGap.ofFragments (layout.prev? front.length) rest (layout.ahead front.length) =
        (List.range' front.length rest.length).map layout.gapAt := by
  induction rest with
  | nil =>
    intro front whole
    rw [List.append_nil] at whole
    rw [whole, lawful.ahead_length]
    rfl
  | cons next rest ih =>
    intro front whole
    have found := next?_length whole
    have later := @ih (front ++ [next]) (by simpa using whole)
    rw [List.length_append, List.length_singleton, prev?,
      show layout.fragments[front.length]? = _ from found] at later
    rw [CommentGap.ofFragments_cons, lawful.inFront_ahead found, lawful.beyond_ahead found, later,
      List.length_cons, List.range'_succ, List.map_cons, gapAt, found]

/-- The gaps of a layout, one in front of each fragment. -/
theorem ofFragments_eq :
    CommentGap.ofFragments none layout.fragments layout.comments =
      (List.range layout.fragments.length).map layout.gapAt := by
  have whole := lawful.ofFragments_ahead layout.fragments (List.nil_append _)
  rwa [List.length_nil, ahead_zero, ← List.range_eq_range'] at whole

/-- A comment is in the gap that surrounds it. -/
theorem surrounds_iff {gap : Nat} (bound : gap < layout.fragments.length) {comment : Lexeme}
    (mem : comment ∈ layout.comments) :
    (layout.gapAt gap).Surrounds comment ↔ layout.gapOf comment = gap := by
  have found : layout.next? gap = some layout.fragments[gap] := List.getElem?_eq_getElem bound
  have filled := lawful.filled comment mem
  constructor
  · rintro ⟨front, back⟩
    have next := back _ found
    have above := (lawful.lt_gapOf_iff comment found).not.mpr (by omega)
    cases gap with
    | zero => omega
    | succ gap =>
      have before : layout.fragments[gap]? = some layout.fragments[gap] :=
        List.getElem?_eq_getElem (by omega)
      have prev := front _ before
      have ordered := lawful.ordered _ (List.mem_of_getElem? before)
      have below := (lawful.lt_gapOf_iff comment before).mpr (by omega)
      omega
  · rintro rfl
    exact ⟨fun prev found => lawful.stop_le_start mem found,
      fun next found => lawful.stop_le_next mem found (Nat.le_refl _)⟩

theorem inOrder_gapAt (rising : Monotone line) (gap : Nat) :
    (layout.gapAt gap).InOrder resolver line := by
  have prevs : ∀ prev ∈ layout.prev? gap, prev ∈ layout.fragments := by
    intro prev found
    cases gap with
    | zero => cases found
    | succ gap => exact List.mem_of_getElem? found
  constructor
  case rising => exact rising
  case prev => exact fun prev found => (lawful.places prev (prevs prev found)).2
  case next => exact fun next found => (lawful.places next (List.mem_of_getElem? found)).1
  case comments => exact fun comment mem => lawful.lines comment (mem_inGap.mp mem).1
  case apart =>
    intro prev found next found'
    cases gap with
    | zero => cases found
    | succ gap => exact lawful.apart_of_getElem? found found'
  case behind => exact lawful.behind_inGap gap
  case begins => exact fun prev found comment mem => lawful.prev_le_of_mem mem found
  case ends => exact fun next found comment mem => lawful.le_next_of_mem mem found

end Lawful

end Layout

/-! ## Texts without diagnostics -/

theorem monotone_lineAt (text : String) : Monotone (lineAt text) := by
  intro start stop le
  refine List.countP_mono_left fun feed _ early => ?_
  rw [decide_eq_true_eq] at early ⊢
  exact Nat.lt_of_lt_of_le early le

/-- A tree and comments laid out flat.  The fragments of the tree come one behind the other and
its nodes enclose their parts.  No comment reaches into a fragment, so each is in the one gap
that surrounds it, and no difference of lines in a gap is cut off. -/
structure LaidOut (resolver : LineResolver) (root : Positional) (comments : List Lexeme) :
    Prop where
  apart : root.fragments.Pairwise fun fragment next => fragment.span.stop ≤ next.span.start
  ordered : ∀ fragment ∈ root.fragments, fragment.span.start ≤ fragment.span.stop
  encloses : ∀ node ∈ root.preorder, Encloses node
  clear : ∀ fragment ∈ root.fragments, IsClear comments fragment.span
  surrounded : ∀ comment ∈ comments, ∃! index : Nat, ∃ gap,
    (CommentGap.ofFragments none root.fragments comments)[index]? = some gap ∧
      gap.Surrounds comment
  gaps : ∀ gap ∈ CommentGap.ofFragments none root.fragments comments, ∀ comment ∈ comments,
    comment ∈ gap.comments ↔ gap.Surrounds comment
  exact_lines : ∀ gap ∈ CommentGap.ofFragments none root.fragments comments, ∃ assignment,
    gap.assignExact resolver = some assignment ∧ gap.assign resolver = .ok assignment

/-- **Fragments and comments in order.** The tree of a text without diagnostics and the comments
of the text are laid out. -/
theorem laidOut_parse (text : String) (resolver : LineResolver) (indexes : resolver.Indexes text)
    (clean : (parse text).diagnostics = []) :
    LaidOut resolver (parse text).tree.root (lex text).comments := by
  have lawful := Layout.lawful_ofText indexes clean
  have ranged := ranged_parse clean (clear_tokens text)
  have fragments : (Layout.ofText text).fragments = (parse text).tree.root.fragments := by
    simp only [Layout.ofText]
  have comments : (Layout.ofText text).comments = (lex text).comments := by
    simp only [Layout.ofText]
  have gaps := lawful.ofFragments_eq
  rw [comments] at gaps
  nth_rewrite 1 [fragments] at gaps
  constructor
  case apart => exact ranged.pairwise
  case ordered => exact fun fragment mem => (ranged.bounds fragment mem).2.1
  case encloses => exact (encloses_of_ranged _ ranged).2
  case clear => exact ranged.places
  case surrounded =>
    intro comment mem
    have early := lawful.early comment mem
    have found : ((List.range (Layout.ofText text).fragments.length).map
        (Layout.ofText text).gapAt)[(Layout.ofText text).gapOf comment]? =
          some ((Layout.ofText text).gapAt ((Layout.ofText text).gapOf comment)) := by
      simp [early]
    refine ⟨(Layout.ofText text).gapOf comment, ⟨_, gaps ▸ found, ?_⟩, ?_⟩
    · exact (lawful.surrounds_iff early mem).mpr rfl
    · rintro index ⟨gap, found, surrounds⟩
      rw [gaps, List.getElem?_map, Option.map_eq_some_iff] at found
      obtain ⟨place, atPlace, rfl⟩ := found
      obtain ⟨bound, rfl⟩ := List.getElem?_eq_some_iff.mp atPlace
      rw [List.getElem_range] at surrounds
      exact ((lawful.surrounds_iff (by simpa using bound) mem).mp surrounds).symm
  case gaps =>
    intro gap mem comment listed
    rw [gaps] at mem
    obtain ⟨place, bound, rfl⟩ := List.mem_map.mp mem
    rw [lawful.surrounds_iff (List.mem_range.mp bound) listed]
    exact Layout.mem_inGap.trans (and_iff_right listed)
  case exact_lines =>
    intro gap mem
    rw [gaps] at mem
    obtain ⟨place, -, rfl⟩ := List.mem_map.mp mem
    exact (lawful.inOrder_gapAt (monotone_lineAt text) place).exists_assignExact

/-- A call with a comment over three lines behind a separator and one at the end of a line. -/
def brokenCall : String := "package p\n\nvar x = f(a, /* 1\n\n2 */\n\tb) // 3\n"

theorem laidOut_brokenCall :
    ((CommentGap.ofFragments none (parse brokenCall).tree.root.fragments
        (lex brokenCall).comments).filter (!·.comments.isEmpty)).map
          (fun gap => (gap.prev, gap.next, gap.comments.map Lexeme.text)) =
        [(some (.separator ⟨22, 23⟩), some (.point (.point 36)), ["/* 1\n\n2 */"]),
          (some (.point (.point 38)), some (.point (.point 44)), ["// 3"])] ∧
      LaidOut (.ofText brokenCall) (parse brokenCall).tree.root (lex brokenCall).comments :=
  ⟨by decide +kernel, laidOut_parse brokenCall _ (indexes_ofText _) (by decide +kernel)⟩

end GoTrivia
