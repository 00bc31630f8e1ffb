import GoTrivia.Proofs.Decorating.Gaps
import GoTrivia.Proofs.Printing.Trail

/-!
# The course past the stops of a tree

The decorations of a tree, written around what stands at its stops, lead past everything in the
order of the text: past the fragments of the tree and past its comments, which are woven in by
their offsets.  Each of these is a station, and in front of it just the line breaks are asked for
that lie between it and the station before it (`course`).

**Separators.** Comments in front of a separator are kept there, but the line breaks behind the
last of them are not.

**Groups.** A comment on the line of what precedes it may share a group with it, so that nothing
is asked for in between.  Steps are compared without the ones that ask for no line break (`loud`).
-/

set_option autoImplicit false

namespace GoTrivia

open Print (Mark)

/-! ## Stations -/

/-- A place of a text and what is written there. -/
structure Station where
  span : Span
  /-- Whether line breaks in front of it are kept. -/
  spaced : Bool
  steps : List Step

namespace Station

/-- The place of a comment. -/
def comment (lexeme : Lexeme) : Station := ⟨lexeme.span, true, [.comment lexeme.text]⟩

/-- The line breaks that are asked for in front of a station, if what precedes it ends on a
line. -/
def lead (line : Nat → Nat) (last : Option Nat) (station : Station) : List Step :=
  if station.spaced then
    [.gap (.ofLineDelta ((last.map (line station.span.start - ·)).getD 0))]
  else []

end Station

/-- The steps past stations, given the line where what precedes them ends. -/
def course (line : Nat → Nat) : Option Nat → List Station → List Step
  | _, [] => []
  | last, station :: stations =>
    station.lead line last ++ station.steps ++ course line (some (line station.span.stop)) stations

/-- The line where the last station ends. -/
def rowBehind (line : Nat → Nat) (last : Option Nat) (stations : List Station) : Option Nat :=
  stations.foldl (fun _ station => some (line station.span.stop)) last

theorem course_append (line : Nat → Nat) (last : Option Nat) (stations more : List Station) :
    course line last (stations ++ more) =
      course line last stations ++ course line (rowBehind line last stations) more := by
  induction stations generalizing last with
  | nil => rfl
  | cons station stations ih =>
    simp only [List.cons_append, course, ih, List.append_assoc]
    rfl

/-- Stations with comments between them, by their offsets. -/
def interleave : List Station → List Lexeme → List Station
  | [], comments => comments.map .comment
  | station :: stations, comments =>
    (CommentGap.inFront station.span.start comments).map .comment ++
      station :: interleave stations (CommentGap.beyond station.span.start comments)

/-- The course past a station goes on behind it. -/
theorem course_interleave (line : Nat → Nat) (last : Option Nat) (station : Station)
    (stations : List Station) (comments : List Lexeme) :
    course line last (interleave (station :: stations) comments) =
      course line last
          ((CommentGap.inFront station.span.start comments).map .comment ++ [station]) ++
        course line (some (line station.span.stop))
          (interleave stations (CommentGap.beyond station.span.start comments)) := by
  rw [interleave, List.append_cons, course_append, rowBehind, List.foldl_append]
  rfl

/-- The stations of a stop, given what is written there. -/
def Stop.stations (steps : List Step) : Stop → List Station
  | token lexeme => [⟨lexeme.span, true, steps⟩]
  | place offset => [⟨.point offset, true, steps⟩]
  | last offset => [⟨.point offset, true, steps⟩]
  | element offset separator _ => [⟨.point offset, true, []⟩, ⟨separator, false, steps⟩]

/-- The stations of stops, given what is written there. -/
def stationsOf (stops : List Stop) (marks : List (List Mark)) : List Station :=
  (stops.zip marks).flatMap fun (stop, marks) => stop.stations (stepsOf marks)

/-- Decorations around the marks of their points. -/
def pour : List Decoration → List (List Mark) → List Step
  | decoration :: decorations, marks :: rest =>
    triviaSteps decoration.before ++ stepsOf marks ++ triviaSteps decoration.after ++
      pour decorations rest
  | _, _ => []

theorem pour_append {decorations more : List Decoration} {marks rest : List (List Mark)}
    (lengths : decorations.length = marks.length) :
    pour (decorations ++ more) (marks ++ rest) = pour decorations marks ++ pour more rest := by
  induction decorations generalizing marks with
  | nil =>
    obtain rfl := List.length_eq_zero_iff.mp lengths.symm
    rfl
  | cons decoration decorations ih =>
    cases marks with
    | nil => simp at lengths
    | cons mark marks =>
      simp only [List.cons_append, pour, ih (by simpa using lengths), List.append_assoc]

/-! ## What a course writes -/

theorem written_lead (line : Nat → Nat) (last : Option Nat) (station : Station) :
    written (station.lead line last) = [] := by
  unfold Station.lead
  split <;> rfl

theorem written_course (line : Nat → Nat) (last : Option Nat) (stations : List Station) :
    written (course line last stations) = stations.flatMap fun station => written station.steps := by
  induction stations generalizing last with
  | nil => rfl
  | cons station stations ih =>
    rw [course, written_append, written_append, written_lead, ih]
    rfl

namespace CommentGap

variable {resolver : LineResolver} {line : Nat → Nat}

/-! ## Single gaps -/

theorem loud_addComment (groups : List TriviaGroup) (delta : Nat) (text : String) :
    loud (triviaSteps (addComment groups delta text)) =
      loud (triviaSteps groups ++ [.gap (.ofLineDelta delta), .comment text]) := by
  unfold addComment
  split
  · next last found =>
    obtain ⟨front, rfl⟩ := List.getLast?_eq_some_iff.mp found
    have silent : (.ofLineDelta 0 : Spacing) = .sameLine := rfl
    rw [silent, List.dropLast_concat, loud_append, loud_silent, ← loud_append]
    simp [triviaSteps, TriviaGroup.steps]
  · simp [triviaSteps, TriviaGroup.steps, TriviaGroup.comment]

/-- The groups of comments lead past the comments. -/
theorem loud_group (placed : ∀ offset row, resolver.lineOf? offset = some row → line offset = row)
    {last last' : Option Nat} {groups groups' : List TriviaGroup} {comments : List Lexeme}
    (grouped : group resolver last groups comments = .ok (groups', last')) :
    loud (triviaSteps groups') =
        loud (triviaSteps groups ++ course line last (comments.map .comment)) ∧
      last' = rowBehind line last (comments.map .comment) := by
  induction comments generalizing last groups with
  | nil =>
    cases grouped
    exact ⟨congrArg loud (List.append_nil _).symm, rfl⟩
  | cons comment comments ih =>
    unfold group at grouped
    obtain ⟨first, begins, grouped⟩ := Except.bind_eq_ok.mp grouped
    obtain ⟨stop, ends, grouped⟩ := Except.bind_eq_ok.mp grouped
    obtain ⟨same, row⟩ := ih grouped
    obtain rfl := placed _ _ (lineOf_eq_ok.mp begins)
    obtain rfl := placed _ _ (lineOf_eq_ok.mp ends)
    refine ⟨?_, row⟩
    rw [same, loud_append, loud_addComment, ← loud_append, List.append_assoc]
    rfl

/-- The two sides of a gap in front of a point hold its groups and the line break behind them. -/
theorem loud_split (prev : Option Fragment) (next : Span) (groups : List TriviaGroup) (delta : Nat) :
    loud (triviaSteps (split prev (some (.point next)) groups delta).after ++
        triviaSteps (split prev (some (.point next)) groups delta).before) =
      loud (triviaSteps groups ++ [.gap (.ofLineDelta delta)]) := by
  have broken : loud (triviaSteps (lineBreak delta)) = loud [.gap (.ofLineDelta delta)] := by
    unfold lineBreak
    split
    · rfl
    · next none =>
      obtain rfl : delta = 0 := by omega
      rfl
  have cut : ∀ n, loud (triviaSteps (groups.take n) ++
      triviaSteps (groups.drop n ++ lineBreak delta)) =
        loud (triviaSteps groups ++ [.gap (.ofLineDelta delta)]) := by
    intro n
    rw [← triviaSteps_append, ← List.append_assoc, List.take_append_drop, triviaSteps_append,
      loud_append, broken, loud_append]
  cases prev with
  | none => exact cut 0
  | some prev => cases prev <;> exact cut _

section Assigned

variable (placed : ∀ offset row, resolver.lineOf? offset = some row → line offset = row)
  {prev : Option Fragment} {point next : Span} {comments : List Lexeme} {assignment : Assignment}
include placed

theorem eq_of_lineBefore {row : Option Nat} (found : lineBefore resolver prev = .ok row) :
    row = prev.map (line ·.span.stop) := by
  cases prev with
  | none =>
    cases found
    rfl
  | some prev =>
    cases ends : lineOf resolver prev.span.stop with
    | error error => simp [lineBefore, ends, Except.map] at found
    | ok row =>
      rw [lineBefore, ends] at found
      cases found
      exact congrArg some (placed _ _ (lineOf_eq_ok.mp ends)).symm

theorem eq_of_deltaBehind {last : Option Nat} {next : Fragment} {delta : Nat}
    (counted : deltaBehind resolver last (some next) = .ok delta) :
    delta = (last.map (line next.span.start - ·)).getD 0 := by
  cases last with
  | none =>
    cases counted
    rfl
  | some row =>
    obtain ⟨first, begins, counted⟩ := Except.bind_eq_ok.mp counted
    rw [Option.map_some, Option.getD_some, placed _ _ (lineOf_eq_ok.mp begins)]
    exact (Except.ok.inj counted).symm

/-- A gap in front of a point leads past its comments to the point. -/
theorem loud_assign_point
    (assigned : assign resolver ⟨prev, some (.point next), comments⟩ = .ok assignment)
    (steps : List Step) :
    loud (triviaSteps assignment.after ++ triviaSteps assignment.before ++ steps) =
      loud (course line (prev.map (line ·.span.stop))
        (comments.map .comment ++ [⟨next, true, steps⟩])) := by
  obtain ⟨row, groups, last, delta, before, grouped, behind, rfl⟩ := assign_eq_ok.mp assigned
  obtain rfl := eq_of_lineBefore placed before
  obtain ⟨same, rfl⟩ := loud_group placed grouped
  obtain rfl := eq_of_deltaBehind placed behind
  have same : loud (triviaSteps groups) =
      loud (course line (prev.map (line ·.span.stop)) (comments.map .comment)) := same
  rw [loud_append, loud_split, loud_append, same, course_append, ← loud_append, ← loud_append,
    List.append_assoc]
  refine congrArg (fun steps => loud (_ ++ steps)) ?_
  exact congrArg (_ :: ·) (List.append_nil steps).symm

/-- A gap in front of a separator leads past its comments to the separator. -/
theorem loud_assign_separator {groups : List TriviaGroup}
    (assigned : assign resolver ⟨some (.point point), some (.separator next), comments⟩ =
      .ok ⟨[], groups⟩) (steps : List Step) :
    loud (triviaSteps groups ++ steps) =
      loud (course line (some (line point.stop)) (comments.map .comment ++ [⟨next, false, steps⟩])) := by
  obtain ⟨row, groups', last, delta, before, grouped, behind, same⟩ := assign_eq_ok.mp assigned
  obtain rfl : groups' = groups := congrArg Assignment.before same
  obtain rfl := eq_of_lineBefore placed before
  rw [loud_append, (loud_group placed grouped).1, course_append, ← loud_append]
  exact congrArg (fun steps => loud (_ ++ steps)) (List.append_nil steps).symm

/-- The gap behind the last point leads past the last comments. -/
theorem loud_assign_end {groups : List TriviaGroup}
    (assigned : assign resolver ⟨some (.point point), none, comments⟩ = .ok ⟨groups, []⟩) :
    loud (triviaSteps groups) =
      loud (course line (some (line point.stop)) (comments.map .comment)) := by
  obtain ⟨row, groups', last, delta, before, grouped, behind, same⟩ := assign_eq_ok.mp assigned
  obtain rfl : groups' = groups := congrArg Assignment.after same
  obtain rfl := eq_of_lineBefore placed before
  exact (loud_group placed grouped).1

end Assigned

/-! ## All gaps -/

/-- What decorations pour out for stops behind an open point. -/
def Pours (resolver : LineResolver) (line : Nat → Nat) (stops : List Stop)
    (marks : List (List Mark)) : Prop :=
  ∀ {prev : Fragment} {comments : List Lexeme} {assignments : List (CommentGap × Assignment)}
    (decoration : Decoration),
    (assignAll resolver (ofFragments (some prev) (stops.flatMap Stop.fragments) comments)).result =
      .ok assignments →
    ∃ first rest, decorations (some decoration) assignments = first :: rest ∧
      first.before = decoration.before ∧ rest.length = stops.length ∧
      loud (triviaSteps first.after ++ pour rest marks) =
        loud (triviaSteps decoration.after ++
          course line (some (line prev.span.stop)) (interleave (stationsOf stops marks) comments))

/-- What is poured out in front of a station, at the station and behind it. -/
theorem loud_pour {last : Option Nat} (station : Station) {stations : List Station}
    {comments : List Lexeme} {after before : List TriviaGroup} {steps later : List Step}
    (here : loud (triviaSteps after ++ triviaSteps before ++ steps) =
      loud (course line last ((inFront station.span.start comments).map .comment ++ [station])))
    (behind : loud later = loud (course line (some (line station.span.stop))
      (interleave stations (beyond station.span.start comments)))) (groups : List TriviaGroup) :
    loud (triviaSteps (groups ++ after) ++ (triviaSteps before ++ steps ++ later)) =
      loud (triviaSteps groups ++ course line last (interleave (station :: stations) comments)) := by
  simp only [course_interleave, triviaSteps_append, loud_append, List.append_assoc] at here ⊢
  rw [← here, ← behind]
  simp only [List.append_assoc]

section Pouring

variable (placed : ∀ offset row, resolver.lineOf? offset = some row → line offset = row)
include placed

/-- The last point of a tree. -/
theorem pours_finish (offset : Nat) : Pours resolver line [.place offset] [[]] := by
  intro prev comments assignments decoration assigned
  obtain ⟨assignment, rest, here, behind, closed⟩ := decorations_point assigned
  obtain ⟨after, ended, last⟩ := decorations_end behind ⟨assignment.before, []⟩
  refine ⟨⟨decoration.before, decoration.after ++ assignment.after⟩, [⟨assignment.before, after⟩],
    by rw [closed, ended]; rfl, rfl, rfl, ?_⟩
  have later : loud (triviaSteps after ++ pour [] []) = loud (course line (some (line offset))
      (interleave [] (beyond offset comments))) := by
    rw [show pour [] [] = [] from rfl, List.append_nil]
    rcases last with ⟨none, rfl⟩ | last
    · rw [show beyond offset comments = [] from none]
      rfl
    · exact loud_assign_end placed last
  rw [pour, List.append_assoc]
  exact loud_pour ⟨.point offset, true, []⟩ (loud_assign_point placed here []) later decoration.after

/-- A point without a separator behind it. -/
theorem Pours.point {stop : Stop} {stops : List Stop} {marks : List Mark}
    {rest : List (List Mark)} {span : Span} (pours : Pours resolver line stops rest)
    (fragments : stop.fragments = [.point span])
    (stations : stop.stations (stepsOf marks) = [⟨span, true, stepsOf marks⟩]) :
    Pours resolver line (stop :: stops) (marks :: rest) := by
  intro prev comments assignments decoration assigned
  rw [List.flatMap_cons, fragments] at assigned
  obtain ⟨assignment, others, here, behind, closed⟩ := decorations_point assigned
  obtain ⟨first, others, opened, before, length, poured⟩ := pours ⟨assignment.before, []⟩ behind
  refine ⟨⟨decoration.before, decoration.after ++ assignment.after⟩, first :: others,
    by rw [closed, opened]; rfl, rfl, by simp [length], ?_⟩
  have whole : stationsOf (stop :: stops) (marks :: rest) =
      ⟨span, true, stepsOf marks⟩ :: stationsOf stops rest := congrArg (· ++ _) stations
  rw [whole, pour, before, List.append_assoc]
  exact loud_pour ⟨span, true, stepsOf marks⟩ (loud_assign_point placed here (stepsOf marks)) poured
    decoration.after

/-- The finish of a list element with its separator. -/
theorem Pours.element {offset : Nat} {separator : Span} {isLast : Bool} {stops : List Stop}
    {marks : List Mark} {rest : List (List Mark)} (pours : Pours resolver line stops rest) :
    Pours resolver line (.element offset separator isLast :: stops) (marks :: rest) := by
  intro prev comments assignments decoration assigned
  obtain ⟨assignment, others, here, behind, closed⟩ := decorations_point assigned
  obtain ⟨groups, others', between, behind, added⟩ := decorations_separator behind
  obtain ⟨first, others'', opened, before, length, poured⟩ :=
    pours ⟨assignment.before ++ groups, []⟩ behind
  refine ⟨⟨decoration.before, decoration.after ++ assignment.after⟩, first :: others'',
    by rw [closed, added, opened]; rfl, rfl, by simp [length], ?_⟩
  have whole : stationsOf (.element offset separator isLast :: stops) (marks :: rest) =
    ⟨.point offset, true, []⟩ :: ⟨separator, false, stepsOf marks⟩ :: stationsOf stops rest := rfl
  have inside : loud (triviaSteps [] ++ triviaSteps groups ++ stepsOf marks) = _ :=
    loud_assign_separator placed between (stepsOf marks)
  have second := loud_pour ⟨separator, false, stepsOf marks⟩ inside poured []
  have both := loud_pour ⟨.point offset, true, []⟩ (loud_assign_point placed here []) second
    decoration.after
  rw [whole, pour, before]
  refine Eq.trans ?_ both
  simp only [triviaSteps_append, loud_append, List.append_assoc, triviaSteps_nil, List.nil_append]

/-- Behind an open point, decorations lead past what is left of the comments. -/
theorem pours_of_shows {finish : Nat} {stops : List Stop} {marks : List (List Mark)}
    (shows : List.Forall₂ Shows stops marks) :
    Pours resolver line (stops ++ [.place finish]) (marks ++ [[]]) := by
  induction shows with
  | nil => exact pours_finish placed finish
  | cons shows rest pours =>
    cases shows with
    | token lexeme => exact pours.point placed rfl rfl
    | place offset => exact pours.point placed rfl rfl
    | last offset => exact pours.point placed rfl rfl
    | kept offset separator isLast => exact pours.element placed
    | dropped offset separator => exact pours.element placed

/-- **The course of a tree.** The decorations of a tree, written around what stands at its stops,
lead past its stops and its comments in the order of their offsets. -/
theorem pour_decorations {start finish : Nat} {stops : List Stop} {marks : List (List Mark)}
    {comments : List Lexeme} {assignments : List (CommentGap × Assignment)}
    (shows : List.Forall₂ Shows stops marks)
    (assigned : (assignAll resolver (ofFragments none
      ((.place start :: (stops ++ [.place finish])).flatMap Stop.fragments) comments)).result =
        .ok assignments) :
    loud (pour (decorations none assignments) ([] :: (marks ++ [[]]))) =
      loud (course line none (interleave
        (stationsOf (.place start :: (stops ++ [.place finish])) ([] :: (marks ++ [[]])))
          comments)) := by
  obtain ⟨assignment, others, here, behind, closed⟩ := decorations_point assigned
  obtain ⟨first, others, opened, before, -, poured⟩ :=
    pours_of_shows placed shows ⟨assignment.before, []⟩ behind
  have none : assignment.after = [] := by
    obtain ⟨line, groups, last, delta, -, -, -, rfl⟩ := assign_eq_ok.mp here
    rfl
  have whole := loud_pour ⟨.point start, true, []⟩ (loud_assign_point placed here []) poured []
  rw [closed, opened, Option.map_none, Option.toList_none, List.nil_append, pour, before,
    List.append_assoc]
  rw [none] at whole
  exact whole

end Pouring

end CommentGap

end GoTrivia
