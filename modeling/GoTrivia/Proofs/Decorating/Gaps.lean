import GoTrivia.Proofs.Decorating.Stops

/-!
# Comments in gaps

Each comment stays between the two fragments it was found between.  A gap hands its
comments to the two points around it in their order, so writing the decorations of all
points one after the other weaves the comments into the tokens by their offsets.
-/

set_option autoImplicit false

namespace GoTrivia

open Print (Mark)

/-- A sequence of two steps succeeds exactly if both do. -/
theorem Except.bind_eq_ok {ε α β : Type} {first : Except ε α} {next : α → Except ε β} {result : β} :
    (first >>= next) = .ok result ↔ ∃ value, first = .ok value ∧ next value = .ok result := by
  cases first with
  | error error => exact ⟨nofun, nofun⟩
  | ok value =>
    constructor
    · exact fun ok => ⟨value, rfl, ok⟩
    · rintro ⟨_, ⟨⟩, ok⟩
      exact ok

/-! ## Single gaps -/

@[simp]
theorem commentMarks_append (groups more : List TriviaGroup) :
    commentMarks (groups ++ more) = commentMarks groups ++ commentMarks more :=
  List.flatMap_append

@[simp]
theorem commentMarks_nil : commentMarks [] = [] := rfl

@[simp]
theorem commentMarks_lineBreak (delta : Nat) : commentMarks (CommentGap.lineBreak delta) = [] := by
  unfold CommentGap.lineBreak
  split <;> rfl

/-- Comments as marks. -/
def lexemeMarks (comments : List Lexeme) : List Mark := comments.map (.comment ·.text)

namespace CommentGap

variable {resolver : LineResolver}

theorem commentMarks_addComment (groups : List TriviaGroup) (delta : Nat) (text : String) :
    commentMarks (addComment groups delta text) = commentMarks groups ++ [.comment text] := by
  unfold addComment
  split
  · next last found =>
    obtain ⟨front, rfl⟩ := List.getLast?_eq_some_iff.mp found
    simp [commentMarks]
  · simp [commentMarks, TriviaGroup.comment]

theorem commentMarks_group {line line' : Option Nat} {groups groups' : List TriviaGroup}
    {comments : List Lexeme} (grouped : group resolver line groups comments = .ok (groups', line')) :
    commentMarks groups' = commentMarks groups ++ lexemeMarks comments := by
  induction comments generalizing line groups with
  | nil =>
    cases grouped
    simp [lexemeMarks]
  | cons comment comments ih =>
    unfold group at grouped
    obtain ⟨first, -, grouped⟩ := Except.bind_eq_ok.mp grouped
    obtain ⟨last, -, grouped⟩ := Except.bind_eq_ok.mp grouped
    rw [ih grouped, commentMarks_addComment]
    simp [lexemeMarks]

/-- Splitting groups between the sides of a gap keeps the comments in order. -/
theorem commentMarks_split (prev next : Option Fragment) (groups : List TriviaGroup) (delta : Nat) :
    commentMarks (split prev next groups delta).after ++
      commentMarks (split prev next groups delta).before = commentMarks groups := by
  have cut : ∀ n, commentMarks (groups.take n) ++ commentMarks (groups.drop n) =
      commentMarks groups := by
    intro n
    rw [← commentMarks_append, List.take_append_drop]
  unfold split
  split <;> simp [cut]

/-- The line in front of a gap. -/
def lineBefore (resolver : LineResolver) : Option Fragment → Except TreeError (Option Nat)
  | some prev => (lineOf resolver prev.span.stop).map some
  | none => .ok none

theorem assign_eq_bind (gap : CommentGap) :
    gap.assign resolver = lineBefore resolver gap.prev >>= fun line =>
      group resolver line [] gap.comments >>= fun grouped =>
        deltaBehind resolver grouped.2 gap.next >>= fun delta =>
          pure (split gap.prev gap.next grouped.1 delta) := by
  unfold assign lineBefore
  cases gap.prev with
  | none => rfl
  | some prev =>
    dsimp only
    cases lineOf resolver prev.span.stop <;> rfl

theorem assign_eq_ok {gap : CommentGap} {assignment : Assignment} :
    gap.assign resolver = .ok assignment ↔ ∃ line groups last delta,
      lineBefore resolver gap.prev = .ok line ∧
      group resolver line [] gap.comments = .ok (groups, last) ∧
      deltaBehind resolver last gap.next = .ok delta ∧
      split gap.prev gap.next groups delta = assignment := by
  rw [assign_eq_bind]
  simp only [Except.bind_eq_ok]
  constructor
  · rintro ⟨line, before, ⟨groups, last⟩, grouped, delta, behind, ok⟩
    exact ⟨line, groups, last, delta, before, grouped, behind, Except.ok.inj ok⟩
  · rintro ⟨line, groups, last, delta, before, grouped, behind, ok⟩
    exact ⟨line, before, ⟨groups, last⟩, grouped, delta, behind, congrArg _ ok⟩

/-- A gap hands out its comments in order. -/
theorem commentMarks_assign {gap : CommentGap} {assignment : Assignment}
    (assigned : gap.assign resolver = .ok assignment) :
    commentMarks assignment.after ++ commentMarks assignment.before =
      lexemeMarks gap.comments := by
  obtain ⟨line, groups, last, delta, -, grouped, -, rfl⟩ := assign_eq_ok.mp assigned
  rw [commentMarks_split, commentMarks_group grouped]
  rfl

/-- Comments in front of a separator stay in front of it. -/
theorem after_assign_separator {prev separator : Span} {comments : List Lexeme}
    {assignment : Assignment}
    (assigned : assign resolver ⟨some (.point prev), some (.separator separator), comments⟩ =
      .ok assignment) : assignment.after = [] := by
  obtain ⟨line, groups, last, delta, -, -, -, rfl⟩ := assign_eq_ok.mp assigned
  rfl

/-- Comments behind the last point stay behind it. -/
theorem before_assign_end {prev : Span} {comments : List Lexeme} {assignment : Assignment}
    (assigned : assign resolver ⟨some (.point prev), none, comments⟩ = .ok assignment) :
    assignment.before = [] := by
  obtain ⟨line, groups, last, delta, -, -, -, rfl⟩ := assign_eq_ok.mp assigned
  rfl

/-! ## All gaps -/

/-- The part of comments in front of an offset. -/
def inFront (offset : Nat) (comments : List Lexeme) : List Lexeme :=
  comments.takeWhile fun comment => comment.span.start < offset

/-- The part of comments behind an offset. -/
def beyond (offset : Nat) (comments : List Lexeme) : List Lexeme :=
  comments.dropWhile fun comment => comment.span.start < offset

theorem inFront_append_beyond (offset : Nat) (comments : List Lexeme) :
    inFront offset comments ++ beyond offset comments = comments :=
  List.takeWhile_append_dropWhile

theorem ofFragments_cons (prev : Option Fragment) (next : Fragment) (fragments : List Fragment)
    (comments : List Lexeme) :
    ofFragments prev (next :: fragments) comments =
      ⟨prev, some next, inFront next.span.start comments⟩ ::
        ofFragments (some next) fragments (beyond next.span.start comments) := rfl

theorem result_assignAll_cons (gap : CommentGap) (gaps : List CommentGap) :
    (assignAll resolver (gap :: gaps)).result = gap.assign resolver >>= fun assignment =>
      (assignAll resolver gaps).result >>= fun rest => .ok ((gap, assignment) :: rest) := by
  rw [assignAll]
  cases gap.assign resolver with
  | error error => rfl
  | ok assignment =>
    show (assignAll resolver gaps).result.map _ = _
    cases (assignAll resolver gaps).result <;> rfl

theorem assignAll_cons_eq_ok {gap : CommentGap} {gaps : List CommentGap}
    {assignments : List (CommentGap × Assignment)} :
    (assignAll resolver (gap :: gaps)).result = .ok assignments ↔
      ∃ assignment rest, gap.assign resolver = .ok assignment ∧
        (assignAll resolver gaps).result = .ok rest ∧ assignments = (gap, assignment) :: rest := by
  rw [result_assignAll_cons]
  simp only [Except.bind_eq_ok, Except.ok.injEq, eq_comm (a := assignments), exists_and_left]

/-- Both ends of a span lie on lines. -/
def Resolves (resolver : LineResolver) (span : Span) : Prop :=
  (∃ line, resolver.lineOf? span.start = some line) ∧ ∃ line, resolver.lineOf? span.stop = some line

theorem lineOf_eq_ok {offset line : Nat} :
    lineOf resolver offset = .ok line ↔ resolver.lineOf? offset = some line := by
  unfold lineOf
  cases resolver.lineOf? offset with
  | none => exact ⟨nofun, nofun⟩
  | some found => simp

theorem exists_group {comments : List Lexeme}
    (resolves : ∀ comment ∈ comments, Resolves resolver comment.span) :
    ∀ (line : Option Nat) (groups : List TriviaGroup),
      ∃ result, group resolver line groups comments = .ok result := by
  induction comments with
  | nil => exact fun line groups => ⟨_, rfl⟩
  | cons comment comments ih =>
    intro line groups
    obtain ⟨⟨⟨first, begins⟩, ⟨last, ends⟩⟩, others⟩ := List.forall_mem_cons.mp resolves
    obtain ⟨result, grouped⟩ := ih others (some last)
      (addComment groups ((line.map (first - ·)).getD 0) comment.text)
    refine ⟨result, ?_⟩
    unfold group
    rw [lineOf_eq_ok.mpr begins, lineOf_eq_ok.mpr ends]
    exact grouped

theorem exists_assign {gap : CommentGap}
    (before : ∀ prev ∈ gap.prev, Resolves resolver prev.span)
    (behind : ∀ next ∈ gap.next, Resolves resolver next.span)
    (resolves : ∀ comment ∈ gap.comments, Resolves resolver comment.span) :
    ∃ assignment, gap.assign resolver = .ok assignment := by
  obtain ⟨line, found⟩ : ∃ line, lineBefore resolver gap.prev = .ok line := by
    cases prev : gap.prev with
    | none => exact ⟨none, rfl⟩
    | some prev' =>
      obtain ⟨line, ends⟩ := (before prev' prev).2
      refine ⟨some line, ?_⟩
      rw [lineBefore, lineOf_eq_ok.mpr ends]
      rfl
  obtain ⟨⟨groups, last⟩, grouped⟩ := exists_group resolves line []
  obtain ⟨delta, counted⟩ : ∃ delta, deltaBehind resolver last gap.next = .ok delta := by
    unfold deltaBehind
    split
    · next line next found =>
      obtain ⟨line', begins⟩ := (behind next found).1
      rw [lineOf_eq_ok.mpr begins]
      exact ⟨_, rfl⟩
    · exact ⟨0, rfl⟩
  exact ⟨_, assign_eq_ok.mpr ⟨line, groups, last, delta, found, grouped, counted, rfl⟩⟩

/-- All gaps are assigned if everything lies on lines. -/
theorem exists_assignAll {fragments : List Fragment} :
    ∀ {prev : Option Fragment} {comments : List Lexeme},
      (∀ fragment ∈ prev.toList ++ fragments, Resolves resolver fragment.span) →
      (∀ comment ∈ comments, Resolves resolver comment.span) →
      ∃ assignments, (assignAll resolver (ofFragments prev fragments comments)).result =
        .ok assignments := by
  induction fragments with
  | nil =>
    intro prev comments fragments resolves
    cases comments with
    | nil => exact ⟨[], rfl⟩
    | cons comment comments =>
      have gap : ∃ assignment, assign resolver ⟨prev, none, comment :: comments⟩ = .ok assignment :=
        exists_assign (fun _ found => fragments _ (by simp_all)) (by simp) resolves
      obtain ⟨assignment, here⟩ := gap
      exact ⟨_, assignAll_cons_eq_ok.mpr ⟨assignment, [], here, rfl, rfl⟩⟩
  | cons next fragments ih =>
    intro prev comments resolves commented
    have gap : ∃ assignment, assign resolver
        ⟨prev, some next, inFront next.span.start comments⟩ = .ok assignment := by
      refine exists_assign (fun _ found => resolves _ (by simp_all))
        (fun _ found => resolves _ (by simp_all)) fun comment mem => commented comment ?_
      exact (List.takeWhile_sublist _).mem mem
    obtain ⟨assignment, here⟩ := gap
    have later : ∃ assignments, (assignAll resolver (ofFragments (some next) fragments
        (beyond next.span.start comments))).result = .ok assignments := by
      refine ih (fun fragment mem => resolves fragment ?_) fun comment mem => commented comment ?_
      · rw [List.mem_append]
        exact .inr (by simpa using mem)
      · exact (List.dropWhile_sublist _).mem mem
    obtain ⟨rest, assigned⟩ := later
    rw [ofFragments_cons]
    exact ⟨_, assignAll_cons_eq_ok.mpr ⟨assignment, rest, here, assigned, rfl⟩⟩

end CommentGap

/-! ## What stands at stops -/

/-- What may be written at a stop.  A separator behind the last element of a list may be
left out. -/
inductive Shows : Stop → List Mark → Prop
  | token (lexeme : Lexeme) : Shows (.token lexeme) [.token lexeme.text]
  | place (offset : Nat) : Shows (.place offset) []
  | last (offset : Nat) : Shows (.last offset) []
  | kept (offset : Nat) (separator : Span) (isLast : Bool) :
      Shows (.element offset separator isLast) [.token ","]
  | dropped (offset : Nat) (separator : Span) : Shows (.element offset separator true) []

namespace CommentGap

variable {resolver : LineResolver}

section Steps

variable {prev : Option Fragment} {span : Span} {fragments : List Fragment}
  {comments : List Lexeme} {assignments : List (CommentGap × Assignment)}

/-- The gap in front of a point closes the point before it and opens the next one. -/
theorem decorations_point
    (assigned : (assignAll resolver (ofFragments prev (.point span :: fragments) comments)).result =
      .ok assignments) :
    ∃ assignment rest,
      assign resolver ⟨prev, some (.point span), inFront span.start comments⟩ = .ok assignment ∧
      (assignAll resolver (ofFragments (some (.point span)) fragments
        (beyond span.start comments))).result = .ok rest ∧
      ∀ open?, decorations open? assignments =
        (open?.map fun decoration => ⟨decoration.before, decoration.after ++ assignment.after⟩).toList ++
          decorations (some ⟨assignment.before, []⟩) rest := by
  rw [ofFragments_cons] at assigned
  obtain ⟨assignment, rest, here, behind, rfl⟩ := assignAll_cons_eq_ok.mp assigned
  exact ⟨assignment, rest, here, behind, fun open? => rfl⟩

/-- The gap in front of a separator adds to what is in front of the point. -/
theorem decorations_separator {point : Span}
    (assigned : (assignAll resolver (ofFragments (some (.point point))
      (.separator span :: fragments) comments)).result = .ok assignments) :
    ∃ groups rest,
      assign resolver ⟨some (.point point), some (.separator span), inFront span.start comments⟩ =
        .ok ⟨[], groups⟩ ∧
      (assignAll resolver (ofFragments (some (.separator span)) fragments
        (beyond span.start comments))).result = .ok rest ∧
      ∀ decoration, decorations (some decoration) assignments =
        decorations (some ⟨decoration.before ++ groups, decoration.after⟩) rest := by
  rw [ofFragments_cons] at assigned
  obtain ⟨⟨after, before⟩, rest, here, behind, rfl⟩ := assignAll_cons_eq_ok.mp assigned
  obtain rfl : after = [] := after_assign_separator here
  exact ⟨before, rest, here, behind, fun decoration => by simp [decorations]⟩

/-- Comments behind the last point go behind it. -/
theorem decorations_end {point : Span}
    (assigned : (assignAll resolver (ofFragments (some (.point point)) [] comments)).result =
      .ok assignments) (decoration : Decoration) :
    ∃ after, decorations (some decoration) assignments =
        [⟨decoration.before, decoration.after ++ after⟩] ∧
      (comments = [] ∧ after = [] ∨
        assign resolver ⟨some (.point point), none, comments⟩ = .ok ⟨after, []⟩) := by
  cases comments with
  | nil =>
    cases assigned
    exact ⟨[], by simp [decorations], .inl ⟨rfl, rfl⟩⟩
  | cons comment comments =>
    unfold ofFragments at assigned
    obtain ⟨⟨after, before⟩, rest, here, behind, rfl⟩ := assignAll_cons_eq_ok.mp assigned
    cases behind
    obtain rfl : before = [] := before_assign_end here
    exact ⟨after, rfl, .inr here⟩

end Steps

end CommentGap

end GoTrivia
