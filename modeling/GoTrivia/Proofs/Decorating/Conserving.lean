import Mathlib.Data.List.TakeWhile
import GoTrivia.Proofs.Decorating.Gaps
import GoTrivia.Proofs.Decorating.Points

/-!
# Comments are conserved

Whatever the tree, the offsets of the comments and the lines they are placed on, decorating
neither loses nor repeats a comment, and it keeps their order.

**Separators.** A gap in front of a separator gives its comments to the point before the
separator, which is open still.  This keeps the order only because no two separators stand
side by side: the finish of an element always comes between them.
-/

set_option autoImplicit false

namespace GoTrivia

open Print (Mark)
open Positional

/-! ## Fragments of trees -/

/-- Fragments in which every separator stands right behind a point. -/
inductive Spaced : List Fragment → Prop
  | nil : Spaced []
  | point (span : Span) {fragments : List Fragment} (rest : Spaced fragments) :
      Spaced (.point span :: fragments)
  | element (span separator : Span) {fragments : List Fragment} (rest : Spaced fragments) :
      Spaced (.point span :: .separator separator :: fragments)

theorem Spaced.append {front back : List Fragment} (first : Spaced front) (second : Spaced back) :
    Spaced (front ++ back) := by
  induction first with
  | nil => exact second
  | point span _ ih => exact .point span ih
  | element span separator _ ih => exact .element span separator ih

/-- The fragments of a tree in front of its finish. -/
def innerFragments : Positional → List Fragment
  | .node _ span slots => .point (.point span.start) :: fragmentsSlots slots

theorem fragments_eq_inner (tree : Positional) :
    tree.fragments = innerFragments tree ++ [.point (.point tree.info.stop)] := by
  obtain ⟨kind, span, slots⟩ := tree
  rw [fragments, innerFragments, List.cons_append]
  rfl

mutual
theorem spaced_innerFragments : ∀ tree : Positional, Spaced (innerFragments tree)
  | .node _ _ slots => .point _ (spaced_fragmentsSlots slots)

theorem spaced_fragmentsSlots : ∀ slots : List PositionalSlot, Spaced (fragmentsSlots slots)
  | [] => by rw [fragmentsSlots]; exact .nil
  | .token none :: slots => by rw [fragmentsSlots]; exact spaced_fragmentsSlots slots
  | .token (some lexeme) :: slots => by
      rw [fragmentsSlots]
      exact .point lexeme.span (spaced_fragmentsSlots slots)
  | .child none :: slots => by rw [fragmentsSlots]; exact spaced_fragmentsSlots slots
  | .child (some child) :: slots => by
      rw [fragmentsSlots, fragments_eq_inner]
      exact ((spaced_innerFragments child).append (.point _ .nil)).append
        (.point _ (spaced_fragmentsSlots slots))
  | .list elements separators :: slots => by
      rw [fragmentsSlots]
      exact (spaced_fragmentsElements separators elements).append (spaced_fragmentsSlots slots)

theorem spaced_fragmentsElements : ∀ (separators : List Span) (trees : List Positional),
    Spaced (fragmentsElements separators trees)
  | _, [] => by rw [fragmentsElements]; exact .nil
  | separators, tree :: trees => by
      rw [fragmentsElements, fragments_eq_inner]
      have rest := spaced_fragmentsElements (separators.drop 1) trees
      cases separators with
      | nil => exact (((spaced_innerFragments tree).append (.point _ .nil)).append .nil).append rest
      | cons separator separators =>
        rw [List.append_assoc (innerFragments tree)]
        exact ((spaced_innerFragments tree).append (.element _ separator .nil)).append rest
end

/-! ## Comments of decorations -/

/-- The comments of decorations, as marks. -/
def marksOf (decorations : List Decoration) : List Mark :=
  decorations.flatMap fun decoration =>
    commentMarks decoration.before ++ commentMarks decoration.after

@[simp]
theorem marksOf_cons (decoration : Decoration) (decorations : List Decoration) :
    marksOf (decoration :: decorations) =
      commentMarks decoration.before ++ commentMarks decoration.after ++ marksOf decorations :=
  List.flatMap_cons

@[simp]
theorem marksOf_nil : marksOf [] = [] := rfl

theorem commentMarks_eq_map (groups : List TriviaGroup) :
    commentMarks groups = (groups.flatMap TriviaGroup.comments).map Mark.comment := by
  rw [commentMarks, List.map_flatMap]

theorem marksOf_eq_map (decorations : List Decoration) :
    marksOf decorations = (decorations.flatMap Decoration.comments).map Mark.comment := by
  rw [marksOf, List.map_flatMap]
  simp only [Decoration.comments, List.map_append, commentMarks_eq_map]

namespace CommentGap

variable {resolver : LineResolver}

/-- Behind an open point, fragments hand out as many decorations as they have points, and
all comments that are left. -/
def Conserves (resolver : LineResolver) (fragments : List Fragment) : Prop :=
  ∀ {prev : Fragment} {comments : List Lexeme} {assignments : List (CommentGap × Assignment)}
    (before : List TriviaGroup),
    (assignAll resolver (ofFragments (some prev) fragments comments)).result = .ok assignments →
    (decorations (some ⟨before, []⟩) assignments).length = (pointFragments fragments).length + 1 ∧
      marksOf (decorations (some ⟨before, []⟩) assignments) =
        commentMarks before ++ lexemeMarks comments

theorem lexemeMarks_inFront_beyond (offset : Nat) (comments : List Lexeme) :
    lexemeMarks (inFront offset comments) ++ lexemeMarks (beyond offset comments) =
      lexemeMarks comments := by
  rw [lexemeMarks, lexemeMarks, ← List.map_append, inFront_append_beyond, lexemeMarks]

/-- The last point. -/
theorem conserves_finish (span : Span) : Conserves resolver [.point span] := by
  intro prev comments assignments before assigned
  obtain ⟨assignment, rest, here, behind, closed⟩ := decorations_point assigned
  obtain ⟨after, ended, last⟩ := decorations_end behind ⟨assignment.before, []⟩
  have split : _ = lexemeMarks (inFront span.start comments) := commentMarks_assign here
  have marks : commentMarks after = lexemeMarks (beyond span.start comments) := by
    rcases last with ⟨none, rfl⟩ | last
    · rw [none]
      rfl
    · simpa using commentMarks_assign last
  rw [closed, ended]
  refine ⟨rfl, ?_⟩
  simp only [Option.map_some, Option.toList_some, List.nil_append, List.cons_append, marksOf_cons,
    marksOf_nil, marks, List.append_nil, List.append_assoc]
  rw [← List.append_assoc (commentMarks assignment.after), split, lexemeMarks_inFront_beyond]

/-- One more point in front. -/
theorem Conserves.point {fragments : List Fragment} (span : Span)
    (conserves : Conserves resolver fragments) : Conserves resolver (.point span :: fragments) := by
  intro prev comments assignments before assigned
  obtain ⟨assignment, rest, here, behind, closed⟩ := decorations_point assigned
  obtain ⟨length, marks⟩ := conserves assignment.before behind
  have split : _ = lexemeMarks (inFront span.start comments) := commentMarks_assign here
  rw [closed]
  refine ⟨by simp [length, Nat.add_comm], ?_⟩
  simp only [Option.map_some, Option.toList_some, List.nil_append, List.cons_append, marksOf_cons,
    marks, List.append_assoc]
  rw [← List.append_assoc (commentMarks assignment.after), split, lexemeMarks_inFront_beyond]

/-- One more element in front, with its separator. -/
theorem Conserves.element {fragments : List Fragment} (span separator : Span)
    (conserves : Conserves resolver fragments) :
    Conserves resolver (.point span :: .separator separator :: fragments) := by
  intro prev comments assignments before assigned
  obtain ⟨assignment, rest, here, behind, closed⟩ := decorations_point assigned
  obtain ⟨groups, rest', between, behind, added⟩ := decorations_separator behind
  obtain ⟨length, marks⟩ := conserves (assignment.before ++ groups) behind
  have split : _ = lexemeMarks (inFront span.start comments) := commentMarks_assign here
  have inside : commentMarks groups = _ := commentMarks_assign between
  rw [closed, added]
  refine ⟨by simpa [Nat.add_comm] using length, ?_⟩
  simp only [Option.map_some, Option.toList_some, List.nil_append, List.cons_append, marksOf_cons,
    marks, commentMarks_append, inside, List.append_assoc]
  rw [lexemeMarks_inFront_beyond, ← List.append_assoc (commentMarks assignment.after), split,
    lexemeMarks_inFront_beyond]

theorem conserves_of_spaced {fragments : List Fragment} (spaced : Spaced fragments) (finish : Span) :
    Conserves resolver (fragments ++ [.point finish]) := by
  induction spaced with
  | nil => exact conserves_finish finish
  | point span _ ih => exact ih.point span
  | element span separator _ ih => exact ih.element span separator

/-- The decorations of a tree have all its comments, one decoration for each point. -/
theorem conserved_decorations {root : Positional} {comments : List Lexeme}
    {assignments : List (CommentGap × Assignment)}
    (assigned : (assignAll resolver (ofFragments none root.fragments comments)).result =
      .ok assignments) :
    (decorations none assignments).length = (pointFragments root.fragments).length ∧
      marksOf (decorations none assignments) = lexemeMarks comments := by
  obtain ⟨kind, span, slots⟩ := root
  rw [fragments] at assigned ⊢
  obtain ⟨assignment, rest, here, behind, closed⟩ := decorations_point assigned
  obtain ⟨length, marks⟩ :=
    conserves_of_spaced (spaced_fragmentsSlots slots) (.point span.stop) assignment.before behind
  have split : _ = lexemeMarks (inFront span.start comments) := commentMarks_assign here
  have none : assignment.after = [] := by
    obtain ⟨line, groups, last, delta, -, -, -, rfl⟩ := assign_eq_ok.mp here
    rfl
  rw [none] at split
  rw [closed]
  refine ⟨by simpa using length, ?_⟩
  show marksOf (decorations (some _) rest) = _
  rw [marks, show commentMarks assignment.before = _ from split]
  exact lexemeMarks_inFront_beyond _ _

/-- The decorations of a tree hold the texts of its comments. -/
theorem comments_decorations {root : Positional} {comments : List Lexeme}
    {assignments : List (CommentGap × Assignment)}
    (assigned : (assignAll resolver (ofFragments none root.fragments comments)).result =
      .ok assignments) :
    (decorations none assignments).flatMap Decoration.comments = comments.map Lexeme.text := by
  have marks := (conserved_decorations assigned).2
  rw [marksOf_eq_map] at marks
  refine List.map_injective_iff.mpr (fun _ _ => Mark.comment.inj) (marks.trans ?_)
  rw [List.map_map]
  rfl

/-- If all comments stand in front of the last point, nothing goes behind it. -/
theorem settled_of_spaced {fragments : List Fragment} (spaced : Spaced fragments) {finish : Span} :
    ∀ {prev : Fragment} {comments : List Lexeme} {assignments : List (CommentGap × Assignment)}
      (before : List TriviaGroup), (∀ comment ∈ comments, comment.span.start < finish.start) →
      (assignAll resolver (ofFragments (some prev) (fragments ++ [.point finish]) comments)).result =
        .ok assignments →
      ∃ front groups, decorations (some ⟨before, []⟩) assignments = front ++ [⟨groups, []⟩] := by
  have left : ∀ (offset : Nat) (comments : List Lexeme),
      (∀ comment ∈ comments, comment.span.start < finish.start) →
      ∀ comment ∈ beyond offset comments, comment.span.start < finish.start :=
    fun offset comments early comment mem => early comment ((List.dropWhile_sublist _).mem mem)
  induction spaced with
  | nil =>
    intro prev comments assignments before early assigned
    obtain ⟨assignment, rest, -, behind, closed⟩ := decorations_point assigned
    have none : beyond finish.start comments = [] :=
      List.dropWhile_eq_nil_iff.mpr fun comment mem => by simpa using early comment mem
    rw [none] at behind
    cases behind
    exact ⟨_, assignment.before, closed _⟩
  | point span _ ih =>
    intro prev comments assignments before early assigned
    obtain ⟨assignment, rest, -, behind, closed⟩ := decorations_point assigned
    obtain ⟨front, groups, settled⟩ := ih assignment.before (left _ comments early) behind
    exact ⟨_, groups, by rw [closed, settled, ← List.append_assoc]⟩
  | element span separator _ ih =>
    intro prev comments assignments before early assigned
    obtain ⟨assignment, rest, -, behind, closed⟩ := decorations_point assigned
    obtain ⟨more, rest', -, behind, added⟩ := decorations_separator behind
    obtain ⟨front, groups, settled⟩ := ih (assignment.before ++ more)
      (left _ _ (left _ comments early)) behind
    exact ⟨_, groups, by rw [closed, added, settled, ← List.append_assoc]⟩

end CommentGap

/-- If all comments of a tree stand in front of its end, nothing goes behind the last point of
the decorated tree. -/
theorem trailing_rebuild {registry : Registry} (distinct : registry.Distinct)
    {resolver : LineResolver} {root : Positional} {comments : List Lexeme}
    {assignments : List (CommentGap × Assignment)}
    (kinded : Decorate.Kinded registry root.preorder)
    (assigned : (CommentGap.assignAll resolver
      (CommentGap.ofFragments none root.fragments comments)).result = .ok assignments)
    (early : ∀ comment ∈ comments, comment.span.start < root.info.stop) :
    Decorated.trailing
      (Decorate.rebuild registry root (CommentGap.decorations none assignments)).1 = [] := by
  have points := points_rebuild distinct kinded (CommentGap.conserved_decorations assigned).1
  obtain ⟨front, groups, settled⟩ : ∃ front groups,
      CommentGap.decorations none assignments = front ++ [⟨groups, []⟩] := by
    obtain ⟨kind, span, slots⟩ := root
    rw [fragments] at assigned
    obtain ⟨assignment, rest, -, behind, closed⟩ := CommentGap.decorations_point assigned
    obtain ⟨front, groups, settled⟩ := CommentGap.settled_of_spaced (spaced_fragmentsSlots slots)
      assignment.before (fun comment mem => early comment ((List.dropWhile_sublist _).mem mem)) behind
    exact ⟨front, groups, (closed none).trans settled⟩
  rw [settled] at points ⊢
  generalize (Decorate.rebuild registry root (front ++ [⟨groups, []⟩])).1 = rebuilt at points ⊢
  obtain ⟨kind, decorations, slots⟩ := rebuilt
  rw [Decorated.points, ← List.cons_append] at points
  have last := List.append_inj_right' points rfl
  exact congrArg Decoration.after (List.singleton_inj.mp last)

/-- **Conservation.** The points of a decorated tree hold the comments of the source tree,
each once and in the same order. -/
theorem comments_points_decorate (registry : Registry) (distinct : registry.Distinct)
    (resolver : LineResolver) (source : SourceTree) (tree : DecoratedTree)
    (decorated : (source.decorate registry resolver).result = .ok tree) :
    (tree.root.points registry).flatMap Decoration.comments = source.comments.map Lexeme.text := by
  obtain ⟨kinded, assignments, assigned, rfl⟩ := decorate_eq_ok.mp decorated
  have moved : Decorate.Kinded registry (source.root.respan resolver.resolve).preorder :=
    Positional.kinded_respan.mpr kinded
  rw [← Decorate.rebuild_respan registry resolver.resolve,
    points_rebuild distinct moved (CommentGap.conserved_decorations assigned).1]
  exact CommentGap.comments_decorations assigned

/-- A call whose comments come in no order, one of them around an argument. -/
def disorderlyCall : SourceTree where
  root := .node .callExpr ⟨0, 7⟩
    [.child (some (.node .ident ⟨0, 1⟩ [.token (some ⟨"f", ⟨0, 1⟩⟩)])),
     .token (some ⟨"(", ⟨1, 2⟩⟩),
     .list [.node .ident ⟨2, 3⟩ [.token (some ⟨"a", ⟨2, 3⟩⟩)],
       .node .ident ⟨5, 6⟩ [.token (some ⟨"b", ⟨5, 6⟩⟩)]] [⟨3, 4⟩],
     .token none, .token (some ⟨")", ⟨6, 7⟩⟩)]
  comments := [⟨"/* 1 */", ⟨4, 4⟩⟩, ⟨"/* 2 */", ⟨2, 9⟩⟩, ⟨"/* 3 */", ⟨3, 3⟩⟩, ⟨"/* 4 */", ⟨9, 5⟩⟩]
  metadata := .empty

/-- Gives each offset a line of its own and finds nodes two bytes behind where they stand. -/
def scattered : LineResolver where
  lineOf? := some
  resolve node := ⟨node.span.start + 2, node.span.stop + 2⟩

theorem comments_points_disorderlyCall :
    ∃ tree, (disorderlyCall.decorate .standard scattered).result = .ok tree ∧
      (tree.root.points .standard).flatMap Decoration.comments =
        ["/* 1 */", "/* 2 */", "/* 3 */", "/* 4 */"] := by
  have succeeds : (disorderlyCall.decorate .standard scattered).result.toOption.isSome = true := by
    decide +kernel
  cases decorated : (disorderlyCall.decorate .standard scattered).result with
  | error error => simp [decorated, Except.toOption] at succeeds
  | ok tree =>
    exact ⟨tree, rfl, comments_points_decorate .standard Registry.distinct_standard scattered
      disorderlyCall tree decorated⟩

end GoTrivia
