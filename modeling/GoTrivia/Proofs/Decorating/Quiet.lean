import Mathlib.Data.List.TakeWhile
import GoTrivia.Proofs.Decorating.Gaps
import GoTrivia.Proofs.Token.Lexing

/-!
# Gaps that end no line

Where the last element of a list and the token behind it stand on one line, with nothing
but comments of that line between them, no trivia between the two ends a line.  So the list
is not taken to be closed on a later line.
-/

set_option autoImplicit false

namespace GoTrivia

open Print (Mark)

namespace CommentGap

variable {resolver : LineResolver} {line : Nat}

/-! ## Single gaps -/

/-- Writing these groups ends no line. -/
def Quiet (groups : List TriviaGroup) : Prop := ∀ group ∈ groups, group.breaksLine = false

theorem quiet_addComment {groups : List TriviaGroup} {text : String} (quiet : Quiet groups)
    (closed : isLineComment text = false) : Quiet (addComment groups 0 text) := by
  unfold addComment
  split
  · next last found _ =>
    obtain ⟨front, rfl⟩ := List.getLast?_eq_some_iff.mp found
    obtain ⟨others, still⟩ := List.forall_mem_append.mp quiet
    have still : last.breaksLine = false := by simpa using still
    rw [List.dropLast_concat]
    refine List.forall_mem_append.mpr ⟨others, List.forall_mem_singleton.mpr ?_⟩
    simpa [TriviaGroup.breaksLine, closed] using still
  · refine List.forall_mem_append.mpr ⟨quiet, List.forall_mem_singleton.mpr ?_⟩
    simp_all [TriviaGroup.breaksLine, TriviaGroup.comment, Spacing.ofLineDelta]

theorem quiet_group {groups groups' : List TriviaGroup} {last : Option Nat}
    {comments : List Lexeme} (calm : ∀ comment ∈ comments, Calm resolver line comment)
    (quiet : Quiet groups)
    (grouped : group resolver (some line) groups comments = .ok (groups', last)) :
    Quiet groups' ∧ last = some line := by
  induction comments generalizing groups with
  | nil =>
    cases grouped
    exact ⟨quiet, rfl⟩
  | cons comment comments ih =>
    obtain ⟨here, others⟩ := List.forall_mem_cons.mp calm
    unfold group at grouped
    rw [lineOf_eq_ok.mpr here.begins, lineOf_eq_ok.mpr here.ends] at grouped
    have grouped : group resolver (some line) (addComment groups (line - line) comment.text)
        comments = .ok (groups', last) := grouped
    rw [Nat.sub_self] at grouped
    exact ih others (quiet_addComment quiet here.closed) grouped

/-- A gap within a line, with comments that leave room behind them, stays quiet. -/
theorem quiet_assign {point span : Span} {comments : List Lexeme} {assignment : Assignment}
    (before : resolver.lineOf? point.stop = some line)
    (behind : resolver.lineOf? span.start = some line)
    (calm : ∀ comment ∈ comments, Calm resolver line comment)
    (assigned : assign resolver ⟨some (.point point), some (.point span), comments⟩ =
      .ok assignment) : Quiet (assignment.after ++ assignment.before) := by
  obtain ⟨line', groups, last, delta, found, grouped, counted, rfl⟩ := assign_eq_ok.mp assigned
  have found : lineBefore resolver (some (.point point)) = .ok line' := found
  rw [lineBefore, lineOf_eq_ok.mpr (by exact before)] at found
  obtain rfl := Except.ok.inj found
  obtain ⟨quiet, rfl⟩ := quiet_group calm (by simp [Quiet]) grouped
  have counted : deltaBehind resolver (some line) (some (.point span)) = .ok delta := counted
  have same : lineOf resolver (Fragment.point span).span.start = .ok line :=
    lineOf_eq_ok.mpr behind
  rw [deltaBehind, same] at counted
  obtain rfl : 0 = delta := by simpa using Except.ok.inj counted
  simpa [split, lineBreak] using quiet

/-! ## All gaps -/

/-- Two stops on one line of a text, with nothing but comments of this line between them. -/
def SameLine (resolver : LineResolver) (comments : List Lexeme) (offset behind : Nat) : Prop :=
  ∃ line, resolver.lineOf? offset = some line ∧ resolver.lineOf? behind = some line ∧
    ∀ comment ∈ comments, offset ≤ comment.span.start → comment.span.start < behind →
      Calm resolver line comment

/-- The last element of a list and the token behind it stand on one line. -/
def Close (resolver : LineResolver) (comments : List Lexeme) (stop next : Stop) : Prop :=
  ∀ offset lexeme, stop = .last offset → next = .token lexeme →
    SameLine resolver comments offset lexeme.span.start

/-- The trivia between the last element of a list and the token behind it ends no line. -/
def Hushed (stop next : Stop × Decoration) : Prop :=
  ∀ offset lexeme, stop.1 = .last offset → next.1 = .token lexeme →
    Quiet (stop.2.after ++ next.2.before)

/-- Comments behind an offset stay behind it. -/
theorem le_of_mem_beyond {offset : Nat} {comments : List Lexeme} {comment : Lexeme}
    (ascending : comments.Pairwise fun comment next => comment.span.start ≤ next.span.start)
    (mem : comment ∈ beyond offset comments) : offset ≤ comment.span.start := by
  induction comments with
  | nil => simp [beyond] at mem
  | cons first comments ih =>
    obtain ⟨least, ascending⟩ := List.pairwise_cons.mp ascending
    by_cases early : first.span.start < offset
    · exact ih ascending (by simpa [beyond, early] using mem)
    · have mem : comment ∈ first :: comments := by simpa [beyond, early] using mem
      rcases List.mem_cons.mp mem with rfl | mem
      · omega
      · have := least comment mem
        omega

/-- A point in front of the remaining comments, with nothing behind it yet if it is the last
of a list. -/
structure Opened (all : List Lexeme) (stop : Stop) (prev : Fragment) (comments : List Lexeme)
    (decoration : Decoration) : Prop where
  sublist : comments.Sublist all
  last : ∀ offset, stop = .last offset → prev = .point (.point offset) ∧ decoration.after = [] ∧
    ∀ comment ∈ comments, offset ≤ comment.span.start

/-- What decorations are like for stops behind an open point. -/
def Hushes (resolver : LineResolver) (all : List Lexeme) (stops : List Stop) : Prop :=
  ∀ ⦃stop : Stop⦄ ⦃prev : Fragment⦄ ⦃comments : List Lexeme⦄
    ⦃assignments : List (CommentGap × Assignment)⦄ ⦃decoration : Decoration⦄,
    Opened all stop prev comments decoration →
    (stop :: stops).IsChain (Close resolver all) →
    (assignAll resolver (ofFragments (some prev) (stops.flatMap Stop.fragments) comments)).result =
      .ok assignments →
    ∃ first rest, decorations (some decoration) assignments = first :: rest ∧
      first.before = decoration.before ∧ ((stop, first) :: stops.zip rest).IsChain Hushed

section Stops

variable {all : List Lexeme}
  (ascending : all.Pairwise fun comment next => comment.span.start ≤ next.span.start)

/-- The gap between the last element of a list and the token behind it. -/
theorem hushed_of_close {stop next : Stop} {prev : Fragment} {span : Span}
    {comments : List Lexeme} {decoration first second : Decoration} {assignment : Assignment}
    (opened : Opened all stop prev comments decoration) (close : Close resolver all stop next)
    (isToken : ∀ lexeme, next = .token lexeme → lexeme.span = span)
    (assigned : assign resolver ⟨some prev, some (.point span), inFront span.start comments⟩ =
      .ok assignment)
    (after : first.after = decoration.after ++ assignment.after)
    (before : second.before = assignment.before) : Hushed (stop, first) (next, second) := by
  intro offset lexeme isLast isNext
  obtain ⟨rfl, none, beyond⟩ := opened.last offset isLast
  obtain ⟨line, found, behind, calm⟩ := close offset lexeme isLast isNext
  obtain rfl := isToken lexeme isNext
  rw [after, before, none]
  refine quiet_assign found behind (fun comment mem => ?_) assigned
  have mem' := (List.takeWhile_sublist _).mem mem
  have early : comment.span.start < lexeme.span.start := by
    simpa using List.mem_takeWhile_imp mem
  exact calm comment (opened.sublist.mem mem') (beyond comment mem') early

include ascending

/-- A stop behind a point: what follows it is opened again. -/
theorem opened_beyond {stop next : Stop} {prev : Fragment} {span : Span}
    {comments : List Lexeme} {decoration : Decoration} (before : List TriviaGroup)
    (opened : Opened all stop prev comments decoration)
    (isLast : ∀ offset, next = .last offset → span = .point offset) :
    Opened all next (.point span) (beyond span.start comments) ⟨before, []⟩ := by
  refine ⟨(List.dropWhile_sublist _).trans opened.sublist, fun offset same => ?_⟩
  obtain rfl := isLast offset same
  exact ⟨rfl, rfl, fun comment mem =>
    le_of_mem_beyond (ascending.sublist opened.sublist) mem⟩

omit ascending in
/-- The last point of a tree. -/
theorem hushes_finish (offset : Nat) : Hushes resolver all [.place offset] := by
  intro stop prev comments assignments decoration opened close assigned
  obtain ⟨assignment, rest, here, behind, closed⟩ := decorations_point assigned
  obtain ⟨after, ended, -⟩ := decorations_end behind ⟨assignment.before, []⟩
  refine ⟨⟨decoration.before, decoration.after ++ assignment.after⟩, [⟨assignment.before, after⟩],
    by rw [closed, ended]; rfl, rfl, ?_⟩
  refine .cons_cons ?_ (.singleton _)
  exact hushed_of_close opened (List.isChain_cons_cons.mp close).1 nofun here rfl rfl

/-- A point without a separator behind it. -/
theorem Hushes.point {next : Stop} {stops : List Stop} {span : Span}
    (hushes : Hushes resolver all stops) (fragments : next.fragments = [.point span])
    (isToken : ∀ lexeme, next = .token lexeme → lexeme.span = span)
    (isLast : ∀ offset, next = .last offset → span = .point offset) :
    Hushes resolver all (next :: stops) := by
  intro stop prev comments assignments decoration opened close assigned
  rw [List.flatMap_cons, fragments] at assigned
  obtain ⟨assignment, others, here, behind, closed⟩ := decorations_point assigned
  obtain ⟨closeHere, close⟩ := List.isChain_cons_cons.mp close
  obtain ⟨first, rest, found, before, chain⟩ :=
    hushes (opened_beyond ascending assignment.before opened isLast) close behind
  refine ⟨⟨decoration.before, decoration.after ++ assignment.after⟩, first :: rest,
    by rw [closed, found]; rfl, rfl, ?_⟩
  exact .cons_cons (hushed_of_close opened closeHere isToken here rfl before) chain

omit ascending in
/-- The finish of a list element with its separator. -/
theorem Hushes.element {offset : Nat} {separator : Span} {isLast : Bool} {stops : List Stop}
    (hushes : Hushes resolver all stops) :
    Hushes resolver all (.element offset separator isLast :: stops) := by
  intro stop prev comments assignments decoration opened close assigned
  obtain ⟨assignment, others, here, behind, closed⟩ := decorations_point assigned
  obtain ⟨groups, others', -, behind, added⟩ := decorations_separator behind
  obtain ⟨closeHere, close⟩ := List.isChain_cons_cons.mp close
  have reopened : Opened all (.element offset separator isLast) (.separator separator)
      (beyond separator.start (beyond (Span.point offset).start comments))
      ⟨assignment.before ++ groups, []⟩ :=
    ⟨((List.dropWhile_sublist _).trans (List.dropWhile_sublist _)).trans opened.sublist, nofun⟩
  obtain ⟨first, rest, found, before, chain⟩ := hushes reopened close behind
  refine ⟨⟨decoration.before, decoration.after ++ assignment.after⟩, first :: rest,
    by rw [closed, added, found]; rfl, rfl, ?_⟩
  exact .cons_cons nofun chain

/-- Behind an open point, trivia between a last element and the token behind it ends no
line. -/
theorem hushes (finish : Nat) : ∀ stops : List Stop,
    Hushes resolver all (stops ++ [.place finish])
  | [] => hushes_finish finish
  | .token lexeme :: stops => (hushes finish stops).point ascending rfl (by simp) nofun
  | .place offset :: stops => (hushes finish stops).point ascending rfl nofun nofun
  | .last offset :: stops => (hushes finish stops).point ascending rfl nofun (by simp)
  | .element offset separator isLast :: stops => (hushes finish stops).element

/-- **Quiet lists.** Where the last element of a list and the token behind it stand on one
line, the trivia between them ends no line. -/
theorem hushed_decorations {start finish : Nat} {stops : List Stop}
    {assignments : List (CommentGap × Assignment)}
    (close : (Stop.place start :: (stops ++ [.place finish])).IsChain (Close resolver all))
    (assigned : (assignAll resolver (ofFragments none
      ((Stop.place start :: (stops ++ [.place finish])).flatMap Stop.fragments) all)).result =
        .ok assignments) :
    ((Stop.place start :: (stops ++ [.place finish])).zip (decorations none assignments)).IsChain
      Hushed := by
  obtain ⟨assignment, others, here, behind, closed⟩ := decorations_point assigned
  have opened : Opened all (.place start) (.point (.point start))
      (beyond (Span.point start).start all) ⟨assignment.before, []⟩ :=
    ⟨List.dropWhile_sublist _, nofun⟩
  obtain ⟨first, rest, found, -, hushed⟩ := hushes ascending finish stops opened close behind
  rw [closed, found]
  exact hushed

end Stops

end CommentGap

end GoTrivia
