import GoTrivia.Proofs.Printing.Pacing
import GoTrivia.Proofs.Restoring.Placement

/-!
# Where the printer stands in the walk

Placing a tree hands out offsets, and printing compares them.  This module says what the
printer has written when the walk has come to some counter, and how single steps of
placing and printing move it along.

**The invariant.** While a tree is printed, some comments that the walk has passed are
still in the table, because only the next token flushes them.  The printer stands at a
counter `n` with a trail behind it (`Stands`) if the steps it has told, followed by the rows
at the front of its table that are not above `n`, are that trail.  Placing trivia moves the
counter over rows; writing a token writes the rows that were passed and then the token.

**The last separator.** Whether the last element of a list gets a separator is decided by
looking ahead in the table, up to the token that closes the list.  The rows found there
are those behind the element and those in front of the closing token (`Closes`).
-/

set_option autoImplicit false

namespace GoTrivia

open Print Restore Decorated

/-! ## Cutting a table in two -/

section Cutting

variable {α : Type} {p : α → Bool} {front back : List α}

theorem takeWhile_append_of_cut (holds : ∀ a ∈ front, p a = true)
    (fails : ∀ a ∈ back, p a = false) : (front ++ back).takeWhile p = front := by
  rw [List.takeWhile_append_of_pos holds]
  cases back with
  | nil => simp
  | cons a back => simp [fails a (by simp)]

theorem dropWhile_append_of_cut (holds : ∀ a ∈ front, p a = true)
    (fails : ∀ a ∈ back, p a = false) : (front ++ back).dropWhile p = back := by
  rw [List.dropWhile_append_of_pos holds]
  cases back with
  | nil => simp
  | cons a back => simp [fails a (by simp)]

end Cutting

/-! ## Standing somewhere in the walk -/

/-- Of the rows of a whole table, the printer has told a trail up to some that are not above
`n` and still head its table, in front of the rows `ahead`. -/
def Stands (whole : List CommentEntry) (state : State) (n : Nat) (trail : List Step)
    (ahead : List CommentEntry) : Prop :=
  ∃ (gone pending : List CommentEntry) (told : List Step), whole = gone ++ (pending ++ ahead) ∧
    state.table = pending ++ ahead ∧ (∀ row ∈ pending, row.offset ≤ n) ∧
    state.Tells told ∧ told ++ pending.flatMap CommentEntry.steps = trail

/-- The rows of trivia groups have the steps of the groups. -/
theorem flatMap_steps_rows (groups : List TriviaGroup) (n : Nat) :
    (rows n groups).flatMap CommentEntry.steps = triviaSteps groups := by
  induction groups generalizing n with
  | nil => rfl
  | cons group groups ih => exact congrArg (group.steps ++ ·) (ih _)

theorem rows_le_behind {groups : List TriviaGroup} {n : Nat} {row : CommentEntry}
    (mem : row ∈ rows n groups) : row.offset ≤ behind n groups :=
  (lays_placeGroups groups n).ascends.below (.group row) (List.mem_map_of_mem mem)

theorem lt_rows {groups : List TriviaGroup} {n : Nat} {row : CommentEntry}
    (mem : row ∈ rows n groups) : n < row.offset :=
  (lays_placeGroups groups n).ascends.above (.group row) (List.mem_map_of_mem mem)

namespace Stands

variable {whole : List CommentEntry} {state other : State} {n m : Nat} {trail : List Step}
  {ahead : List CommentEntry}

theorem start (table : List CommentEntry) : Stands table (State.start table) 0 [] table :=
  ⟨[], [], [], rfl, rfl, List.forall_mem_nil _, .start table, rfl⟩

/-- Changing the layout alone changes nothing. -/
theorem relaid (stands : Stands whole state n trail ahead) (relaid : state.Relaid other)
    (table : other.table = state.table) : Stands whole other n trail ahead := by
  obtain ⟨gone, pending, told, parts, split, low, tells, all⟩ := stands
  exact ⟨gone, pending, told, parts, table.trans split, low, tells.relaid relaid, all⟩

theorem mono (stands : Stands whole state n trail ahead) (le : n ≤ m) :
    Stands whole state m trail ahead := by
  obtain ⟨gone, pending, told, parts, split, low, tells, all⟩ := stands
  exact ⟨gone, pending, told, parts, split, fun row mem => Nat.le_trans (low row mem) le, tells, all⟩

/-- Passing trivia moves its rows from what is ahead to what was told. -/
theorem pass {groups : List TriviaGroup}
    (stands : Stands whole state n trail (rows n groups ++ ahead)) :
    Stands whole state (behind n groups) (trail ++ triviaSteps groups) ahead := by
  obtain ⟨gone, pending, told, parts, split, low, tells, all⟩ := stands
  refine ⟨gone, pending ++ rows n groups, told, by simp [parts], by simp [split], ?_, tells, ?_⟩
  · intro row mem
    rcases List.mem_append.mp mem with here | there
    · exact Nat.le_trans (low row here) (lays_placeGroups groups n).ascends.le
    · exact rows_le_behind there
  · rw [List.flatMap_append, flatMap_steps_rows, ← List.append_assoc, all]

/-- Flushing up to an offset tells what was passed. -/
theorem flush (stands : Stands whole state n trail ahead) {offset : Nat}
    (lt : n < offset) (above : ∀ row ∈ ahead, offset ≤ row.offset) :
    (state.flush offset).Tells trail ∧ state.table.dropWhile (·.offset < offset) = ahead := by
  obtain ⟨gone, pending, told, parts, split, low, tells, all⟩ := stands
  have passed : ∀ row ∈ pending, decide (row.offset < offset) = true := by
    intro row mem
    have := low row mem
    simp only [decide_eq_true_eq]
    omega
  have kept : ∀ row ∈ ahead, decide (row.offset < offset) = false := by
    intro row mem
    have := above row mem
    simp only [decide_eq_false_iff_not]
    omega
  have flushed := tells.flushRows offset state.table
  rw [split, takeWhile_append_of_cut passed kept, all] at flushed
  rw [State.flush, split, dropWhile_append_of_cut passed kept]
  exact ⟨flushed, rfl⟩

/-- Writing a token tells what was passed and then the token. -/
theorem token (stands : Stands whole state n trail ahead) {offset : Nat} (lt : n < offset)
    (above : ∀ row ∈ ahead, offset ≤ row.offset) (text : String) :
    Stands whole (state.token offset text) offset (trail ++ [.token text]) ahead := by
  obtain ⟨tells, dropped⟩ := stands.flush lt above
  obtain ⟨gone, pending, -, parts, -, -, -, -⟩ := stands
  refine ⟨gone ++ pending, [], _, by simp [parts], ?_, by simp, tells.token text, ?_⟩
  · rw [State.table_token, dropped, List.nil_append]
  · exact List.append_nil _

end Stands

/-! ## Printing what was placed -/

/-- A printing step that carries the printer over what a placing step put down between
two counters, telling steps. -/
def Prints (step : Printer Unit) (low : Nat) (steps : List Step) (placed : List Placed)
    (high : Nat) : Prop :=
  ∀ (whole : List CommentEntry) (state : State) (trail : List Step) (ahead : List CommentEntry),
    Stands whole state low trail (Restore.table placed ++ ahead) →
    (∀ row ∈ ahead, high < row.offset) →
    ∃ after, step.run state = .ok ((), after) ∧ Stands whole after high (trail ++ steps) ahead

/-- Rows placed above a counter, and rows further up, all lie above it. -/
theorem Restore.Ascends.table_above {low high : Nat} {placed : List Placed}
    (ascends : Ascends low placed high) {ahead : List CommentEntry}
    (above : ∀ row ∈ ahead, high < row.offset) :
    ∀ row ∈ Restore.table placed ++ ahead, low < row.offset := by
  intro row mem
  rcases List.mem_append.mp mem with here | there
  · obtain ⟨thing, inside, same⟩ := mem_table_offset here
    exact same ▸ ascends.above thing inside
  · exact Nat.lt_of_le_of_lt ascends.le (above row there)

theorem Prints.andThen {first second : Printer Unit} {low middle high : Nat}
    {steps more : List Step} {placed further : List Placed}
    (left : Prints first low steps placed middle) (right : Prints second middle more further high)
    (ascends : Ascends middle further high) :
    Prints (do first; second) low (steps ++ more) (placed ++ further) high := by
  intro whole state trail ahead stands above
  rw [table_append, List.append_assoc] at stands
  obtain ⟨between, run, stands⟩ := left whole state trail _ stands (ascends.table_above above)
  obtain ⟨after, run', stands⟩ := right whole between _ ahead stands above
  refine ⟨after, ?_, by simpa using stands⟩
  rw [StateT.run_bind, run]
  exact run'

/-! ## Points -/

theorem lt_anchorOffset (decorations : Decorations) (anchor : Anchor) (n : Nat) :
    n < anchorOffset decorations anchor n :=
  Nat.lt_succ_of_le (lays_placeGroups _ n).ascends.le

/-- Passing an anchor that writes nothing. -/
theorem Stands.anchor {whole : List CommentEntry} {state : State} {n : Nat} {trail : List Step} {ahead : List CommentEntry}
    (kind : NodeKind) {decorations : Decorations} {anchor : Anchor}
    (stands : Stands whole state n trail
      (Restore.table (anchorPlaced kind decorations anchor n) ++ ahead)) :
    Stands whole state (anchorOffset decorations anchor n)
      (trail ++ triviaSteps (decorations.ofAnchor anchor).before) ahead := by
  simp only [anchorPlaced, table_append, table_groups, table_anchor, List.append_nil] at stands
  exact stands.pass.mono (Nat.le_succ _)

/-- Passing a point that writes nothing. -/
theorem Stands.point {whole : List CommentEntry} {state : State} {n : Nat} {trail : List Step} {ahead : List CommentEntry}
    (kind : NodeKind) {decorations : Decorations} {anchor : Anchor}
    (stands : Stands whole state n trail
      (Restore.table (pointPlaced kind decorations anchor n) ++ ahead)) :
    Stands whole state (pointEnd decorations anchor n) (trail ++ decorations.stepsAround anchor []) ahead := by
  rw [pointPlaced, table_append, List.append_assoc, table_groups] at stands
  have passed := (stands.anchor kind).pass
  simpa [Decorations.stepsAround, pointEnd] using passed

/-- Writing the token of an anchor carries the printer over the point. -/
theorem prints_token (kind : NodeKind) (decorations : Decorations) (anchor : Anchor) (n : Nat)
    (text : String) (tokens : Nat) (gap : Gap) (content : Bool) :
    Prints
      (modify fun state =>
        (state.askGap tokens gap content).token (anchorOffset decorations anchor n) text)
      n (decorations.stepsAround anchor [.token text]) (pointPlaced kind decorations anchor n)
      (pointEnd decorations anchor n) := by
  intro whole state trail ahead stands above
  refine ⟨_, rfl, ?_⟩
  have asked := stands.relaid (State.relaid_askGap state tokens gap content)
    (State.table_askGap state tokens gap content)
  simp only [pointPlaced, anchorPlaced, table_append, table_groups, table_anchor,
    List.append_assoc] at asked
  have behindAnchor : ∀ row ∈ rows (anchorOffset decorations anchor n)
      (decorations.ofAnchor anchor).after ++ ahead,
      anchorOffset decorations anchor n ≤ row.offset := by
    intro row mem
    rcases List.mem_append.mp mem with here | there
    · exact Nat.le_of_lt (lt_rows here)
    · have last := above row there
      have ascends := (lays_placeAfter decorations anchor (anchorOffset decorations anchor n)).ascends
      exact Nat.le_of_lt (Nat.lt_of_le_of_lt ascends.le last)
  have written := asked.pass.token (Nat.lt_succ_self _) behindAnchor text
  have passed := written.pass
  simpa [Decorations.stepsAround, pointEnd, anchorOffset] using passed

/-! ## The token that closes a list -/

/-- The rows ahead begin with the trivia in front of a token, if a token comes next. -/
def Closes (bound : Option Nat) (closing : Option (List TriviaGroup)) (n : Nat)
    (ahead : List CommentEntry) : Prop :=
  match closing with
  | none => bound = none
  | some groups => ∃ offset rest, bound = some offset ∧ ahead = rows n groups ++ rest ∧
      n < offset ∧ (∀ row ∈ rows n groups, row.offset < offset) ∧ ∀ row ∈ rest, offset < row.offset

theorem any_breaksLine_rows (groups : List TriviaGroup) (n : Nat) :
    (rows n groups).any CommentEntry.breaksLine = groups.any TriviaGroup.breaksLine := by
  induction groups generalizing n with
  | nil => rfl
  | cons group groups ih =>
    simp only [rows, List.any_cons, ih]
    rfl

/-- Looking ahead from a separator finds the trivia up to the token that closes the
list. -/
theorem breaksBetween_eq_closesLater {whole : List CommentEntry} {state : State} {n : Nat} {trail : List Step}
    {tree : Decorated} {ahead : List CommentEntry} {bound : Option Nat}
    {closing : Option (List TriviaGroup)}
    (stands : Stands whole state n trail (rows (n + 1) (trailing tree) ++ ahead))
    (closes : Closes bound closing (behind (n + 1) (trailing tree)) ahead) :
    bound.any (state.breaksBetween (n + 1)) = closesLater tree closing := by
  obtain ⟨-, pending, -, -, split, low, -, -⟩ := stands
  cases closing with
  | none => simp only [Closes] at closes; simp [closes, closesLater]
  | some groups =>
    obtain ⟨offset, rest, rfl, rfl, lt, inside, beyond⟩ := closes
    have passed : ∀ row ∈ pending, decide (row.offset ≤ n + 1) = true := by
      intro row mem
      have := low row mem
      simp only [decide_eq_true_eq]
      omega
    have kept : ∀ row ∈ rows (n + 1) (trailing tree) ++
        (rows (behind (n + 1) (trailing tree)) groups ++ rest),
        decide (row.offset ≤ n + 1) = false := by
      intro row mem
      have le := (lays_placeGroups (trailing tree) (n + 1)).ascends.le
      simp only [decide_eq_false_iff_not, Nat.not_le]
      simp only [List.mem_append] at mem
      rcases mem with mem | mem | mem
      · exact lt_rows mem
      · exact Nat.lt_of_le_of_lt le (lt_rows mem)
      · have := beyond row mem
        omega
    have found : ∀ row ∈ rows (n + 1) (trailing tree) ++
        rows (behind (n + 1) (trailing tree)) groups, decide (row.offset < offset) = true := by
      intro row mem
      simp only [decide_eq_true_eq]
      rcases List.mem_append.mp mem with mem | mem
      · exact Nat.lt_of_le_of_lt (rows_le_behind mem) lt
      · exact inside row mem
    have ended : ∀ row ∈ rest, decide (row.offset < offset) = false := by
      intro row mem
      have := beyond row mem
      simp only [decide_eq_false_iff_not]
      omega
    simp only [Option.any_some, State.breaksBetween, closesLater]
    rw [split, dropWhile_append_of_cut passed kept, ← List.append_assoc,
      takeWhile_append_of_cut found ended]
    simp [any_breaksLine_rows]

end GoTrivia
