import GoTrivia.Proofs.Decorating.Agreement
import GoTrivia.Proofs.Decorating.Courses
import GoTrivia.Proofs.Decorating.Parsed
import GoTrivia.Proofs.Decorating.Quiet
import GoTrivia.Proofs.Decorating.Threading
import GoTrivia.Proofs.Token.Seams

/-!
# The items on the way past stations

The stations of a text, its comments among them, stand one behind the other, and on the way past
them the items of the text are met in their order (`Meets`).  Nothing is written at the others:
they are ends of tokens that lie between two items, and a line on which neither of the two ends
or begins is never touched there.

**Passed items.** A semicolon of the text need not be written anywhere, and neither need a
separator behind the last element of a list.
-/

set_option autoImplicit false

namespace GoTrivia

open Print (Mark)
open Positional (stops)

/-! ## Items at stations -/

/-- The step that writes an item. -/
def Item.step : Item → Step
  | token found => .token found.text
  | comment lexeme _ => .comment lexeme.text

/-- Whether an item may be left out: a semicolon, or one of certain tokens. -/
def Item.MayPass (mayOmit : List Span) : Item → Prop
  | token found => found.text = ";" ∨ found.span ∈ mayOmit
  | comment _ _ => False

namespace Station

/-- Whether an item is written at a station. -/
structure Writes (station : Station) (item : Item) : Prop where
  span : station.span = item.span
  steps : station.steps = [item.step]

/-- Whether nothing is written at a station.  It is an end of a token, or an item left out. -/
structure IsBare (text : String) (station : Station) : Prop where
  steps : station.steps = []
  seam : IsSeam text station.span.start
  span : station.span.start = station.span.stop ∨
    ∃ item ∈ shownItems text, item.span = station.span

end Station

/-- The items of a text are met in order on the way past stations, given the item that was met
last if nothing was left out behind it.  Between it and the next item a station touches only
their lines. -/
inductive Meets (text : String) (mayOmit : List Span) :
    Option Item → List Station → List Item → Prop
  | nil {last : Option Item} : Meets text mayOmit last [] []
  | bare {last : Option Item} {station : Station} {stations : List Station} {items : List Item}
      (steps : station.steps = [])
      (between : ∀ before ∈ last, ∀ next ∈ items.head?,
        station.span.start = station.span.stop ∧
          (lineAt text station.span.start = lineAt text before.span.stop ∨
            lineAt text station.span.start = lineAt text next.span.start))
      (rest : Meets text mayOmit last stations items) :
      Meets text mayOmit last (station :: stations) items
  | item {last : Option Item} {item : Item} {station : Station} {stations : List Station}
      {items : List Item} (writes : station.Writes item)
      (rest : Meets text mayOmit (some item) stations items) :
      Meets text mayOmit last (station :: stations) (item :: items)
  | passed {last : Option Item} {item : Item} {stations : List Station} {items : List Item}
      (may : item.MayPass mayOmit) (rest : Meets text mayOmit none stations items) :
      Meets text mayOmit last stations (item :: items)

/-! ## Stations one behind the other -/

/-- Stations one behind the other. -/
structure InFile (stations : List Station) : Prop where
  ordered : ∀ station ∈ stations, station.span.start ≤ station.span.stop
  apart : stations.Pairwise fun station next => station.span.stop ≤ next.span.start

namespace InFile

variable {station : Station} {stations : List Station}

theorem tail (inFile : InFile (station :: stations)) : InFile stations :=
  ⟨(List.forall_mem_cons.mp inFile.ordered).2, (List.pairwise_cons.mp inFile.apart).2⟩

theorem head_ordered (inFile : InFile (station :: stations)) :
    station.span.start ≤ station.span.stop :=
  (List.forall_mem_cons.mp inFile.ordered).1

theorem head_apart (inFile : InFile (station :: stations)) :
    ∀ next ∈ stations, station.span.stop ≤ next.span.start :=
  (List.pairwise_cons.mp inFile.apart).1

/-- An item that begins in front of the end of a station is written at none behind it. -/
theorem not_writes_of_lt (inFile : InFile (station :: stations)) {item : Item}
    (early : item.span.start < station.span.stop) : ∀ other ∈ stations, ¬other.Writes item := by
  intro other mem writes
  have apart := inFile.head_apart other mem
  rw [writes.span] at apart
  omega

end InFile

/-- The lines only go down on the way past stations, given the line where what precedes them ends.
A station whose line breaks are not kept stands on that line. -/
inductive Descends (line : Nat → Nat) : Option Nat → List Station → Prop
  | nil {last : Option Nat} : Descends line last []
  | cons {last : Option Nat} {station : Station} {stations : List Station}
      (down : ∀ row ∈ last, row ≤ line station.span.start)
      (level : ∀ row ∈ last, station.spaced = false → line station.span.start = row)
      (rest : Descends line (some (line station.span.stop)) stations) :
      Descends line last (station :: stations)

/-- Past stations one behind the other the lines go down, if something in front of each station
whose line breaks are not kept ends on its line. -/
theorem InFile.descends {line : Nat → Nat} {stations : List Station} (inFile : InFile stations)
    (mono : ∀ {first second : Nat}, first ≤ second → line first ≤ line second)
    (near : ∀ station ∈ stations, station.spaced = false →
      station.span.start < station.span.stop ∧ ∃ other ∈ stations,
        other.span.stop ≤ station.span.start ∧ line other.span.stop = line station.span.start) :
    Descends line none stations := by
  suffices past : ∀ done ahead, stations = done ++ ahead →
      Descends line (done.getLast?.map (line ·.span.stop)) ahead from past [] stations rfl
  intro done ahead whole
  induction ahead generalizing done with
  | nil => exact .nil
  | cons station ahead ih =>
    have behind := ih (done ++ [station]) (by simpa using whole)
    rw [List.getLast?_concat] at behind
    have ordered := inFile.ordered
    have apart := inFile.apart
    rw [whole] at ordered apart near
    obtain ⟨early, late, across⟩ := List.pairwise_append.mp apart
    refine .cons (fun row known => ?_) (fun row known close => ?_) behind
    · obtain ⟨before, isLast, rfl⟩ := Option.map_eq_some_iff.mp known
      exact mono (across before (List.mem_of_getLast? isLast) station List.mem_cons_self)
    · obtain ⟨before, isLast, rfl⟩ := Option.map_eq_some_iff.mp known
      have here := across before (List.mem_of_getLast? isLast) station List.mem_cons_self
      obtain ⟨filled, other, mem, within, same⟩ := near station (by simp) close
      refine Nat.le_antisymm (same ▸ mono ?_) (mono here)
      -- What ends on the line of the station stands in front of it, so not behind the last one.
      rcases List.mem_append.mp mem with mem | mem
      · obtain ⟨front, rfl⟩ := List.getLast?_eq_some_iff.mp isLast
        rcases List.mem_append.mp mem with mem | mem
        · have := (List.pairwise_append.mp early).2.2 other mem before (by simp)
          have := ordered before (by simp)
          omega
        · exact Nat.le_of_eq (congrArg (·.span.stop) (List.mem_singleton.mp mem))
      · rcases List.mem_cons.mp mem with rfl | inside
        · omega
        · have := (List.pairwise_cons.mp late).1 other inside
          have := ordered other (List.mem_append_right _ mem)
          omega

section Interleaving

open CommentGap

variable {station : Station} {stations : List Station} {comments : List Lexeme}

/-- Stations with comments between them are the stations and the comments. -/
theorem mem_interleave :
    station ∈ interleave stations comments ↔
      station ∈ stations ∨ ∃ comment ∈ comments, .comment comment = station := by
  induction stations generalizing comments with
  | nil => simp [interleave]
  | cons first stations ih =>
    have parts : (∃ comment ∈ comments, .comment comment = station) ↔
        (∃ comment ∈ inFront first.span.start comments, .comment comment = station) ∨
          ∃ comment ∈ beyond first.span.start comments, .comment comment = station := by
      rw [← exists_or]
      refine exists_congr fun comment => ?_
      rw [← or_and_right, ← List.mem_append, inFront_append_beyond]
    rw [interleave, List.mem_append, List.mem_cons, ih, parts, List.mem_map, List.mem_cons, or_assoc]
    exact or_left_comm.trans (or_congr_right or_left_comm)

/-- Comments that no station reaches into come one behind the other with the stations. -/
theorem InFile.interleave (inFile : InFile stations)
    (behind : comments.Pairwise fun comment next => comment.span.stop ≤ next.span.start)
    (filled : ∀ comment ∈ comments, comment.span.start < comment.span.stop)
    (clear : ∀ station ∈ stations, ∀ comment ∈ comments,
      station.span.stop ≤ comment.span.start ∨ comment.span.stop ≤ station.span.start) :
    InFile (interleave stations comments) := by
  constructor
  case ordered =>
    intro station mem
    rcases mem_interleave.mp mem with known | ⟨comment, known, rfl⟩
    · exact inFile.ordered station known
    · exact Nat.le_of_lt (filled comment known)
  case apart =>
    induction stations generalizing comments with
    | nil => exact List.pairwise_map.mpr behind
    | cons first stations ih =>
      obtain ⟨here, later⟩ := List.forall_mem_cons.mp clear
      have ordered := inFile.head_ordered
      have ascending : comments.Pairwise fun comment next => comment.span.start ≤ next.span.start :=
        behind.imp_of_mem fun mem _ apart => Nat.le_trans (Nat.le_of_lt (filled _ mem)) apart
      have before : ∀ comment ∈ inFront first.span.start comments,
          comment.span.stop ≤ first.span.start := by
        intro comment mem
        have := here comment (List.takeWhile_subset _ mem)
        have : comment.span.start < first.span.start := by simpa using List.mem_takeWhile_imp mem
        omega
      have after : ∀ comment ∈ beyond first.span.start comments,
          first.span.stop ≤ comment.span.start := by
        intro comment mem
        have inside := List.dropWhile_subset _ mem
        have := here comment inside
        have := filled comment inside
        have := le_of_mem_beyond ascending mem
        omega
      have rest := @ih (beyond first.span.start comments) inFile.tail (behind.sublist (List.dropWhile_sublist _))
        (fun comment mem => filled comment (List.dropWhile_subset _ mem))
        (fun station mem comment mem' => later station mem comment (List.dropWhile_subset _ mem'))
      refine List.pairwise_append.mpr ⟨?_, List.pairwise_cons.mpr ⟨?_, rest⟩, ?_⟩
      · exact List.pairwise_map.mpr (behind.sublist (List.takeWhile_sublist _))
      · intro next mem
        rcases mem_interleave.mp mem with known | ⟨comment, known, rfl⟩
        · exact inFile.head_apart next known
        · exact after comment known
      · intro station mem next mem'
        obtain ⟨comment, known, rfl⟩ := List.mem_map.mp mem
        have short := before comment known
        rcases List.mem_cons.mp mem' with rfl | mem'
        · exact short
        · rcases mem_interleave.mp mem' with known' | ⟨other, known', rfl⟩
          · exact Nat.le_trans short (Nat.le_trans ordered (inFile.head_apart next known'))
          · exact Nat.le_trans short (Nat.le_trans ordered (after other known'))

end Interleaving

/-! ## Meeting items -/

/-- Stations and items that belong together: what is written at the stations are the items, and
what is not written may be left out. -/
structure Faces (text : String) (mayOmit : List Span) (stations : List Station)
    (items : List Item) : Prop where
  inFile : InFile stations
  filled : ∀ item ∈ items, item.span.start < item.span.stop
  behind : items.Pairwise fun item next => item.span.stop ≤ next.span.start
  station : ∀ station ∈ stations, (∃ item ∈ items, station.Writes item) ∨ station.IsBare text
  item : ∀ item ∈ items, (∃ station ∈ stations, station.Writes item) ∨ item.MayPass mayOmit

namespace Faces

variable {text : String} {mayOmit : List Span} {station : Station} {stations : List Station}
  {item : Item} {items : List Item}

/-- An item that is written nowhere may be left out. -/
theorem pass (faces : Faces text mayOmit stations (item :: items))
    (unwritten : ∀ station ∈ stations, ¬station.Writes item) :
    item.MayPass mayOmit ∧ Faces text mayOmit stations items := by
  refine ⟨?_, faces.inFile, (List.forall_mem_cons.mp faces.filled).2,
    (List.pairwise_cons.mp faces.behind).2, fun station mem => ?_,
    (List.forall_mem_cons.mp faces.item).2⟩
  · rcases (List.forall_mem_cons.mp faces.item).1 with ⟨station, mem, writes⟩ | may
    · exact absurd writes (unwritten station mem)
    · exact may
  · rcases faces.station station mem with ⟨other, inside, writes⟩ | bare
    · rcases List.mem_cons.mp inside with rfl | inside
      · exact absurd writes (unwritten station mem)
      · exact .inl ⟨other, inside, writes⟩
    · exact .inr bare

/-- A station where no item is written is bare. -/
theorem bare (faces : Faces text mayOmit (station :: stations) items)
    (idle : ∀ item ∈ items, ¬station.Writes item) :
    station.IsBare text ∧ Faces text mayOmit stations items := by
  refine ⟨?_, faces.inFile.tail, faces.filled, faces.behind,
    (List.forall_mem_cons.mp faces.station).2, fun item mem => ?_⟩
  · rcases (List.forall_mem_cons.mp faces.station).1 with ⟨item, mem, writes⟩ | bare
    · exact absurd writes (idle item mem)
    · exact bare
  · rcases faces.item item mem with ⟨other, inside, writes⟩ | may
    · rcases List.mem_cons.mp inside with rfl | inside
      · exact absurd writes (idle item mem)
      · exact .inl ⟨other, inside, writes⟩
    · exact .inr may

/-- Behind a station and its item the others belong together. -/
theorem meet (faces : Faces text mayOmit (station :: stations) (item :: items))
    (writes : station.Writes item) : Faces text mayOmit stations items := by
  obtain ⟨filled, others⟩ := List.forall_mem_cons.mp faces.filled
  obtain ⟨short, behind⟩ := List.pairwise_cons.mp faces.behind
  have span := writes.span
  refine ⟨faces.inFile.tail, others, behind, fun other mem => ?_, fun next mem => ?_⟩
  · rcases faces.station other (List.mem_cons_of_mem _ mem) with ⟨next, inside, writes'⟩ | bare
    · rcases List.mem_cons.mp inside with rfl | inside
      · have apart := faces.inFile.head_apart other mem
        rw [writes'.span, ← span] at apart
        rw [← span] at filled
        omega
      · exact .inl ⟨next, inside, writes'⟩
    · exact .inr bare
  · rcases faces.item next (List.mem_cons_of_mem _ mem) with ⟨other, inside, writes'⟩ | may
    · rcases List.mem_cons.mp inside with rfl | inside
      · have apart := short next mem
        rw [← writes'.span, span] at apart
        omega
      · exact .inl ⟨other, inside, writes'⟩
    · exact .inr may

/-- A station that ends in front of an item writes none behind the item. -/
theorem not_writes_of_le (faces : Faces text mayOmit (station :: stations) (item :: items))
    (late : station.span.stop ≤ item.span.start) : ∀ other ∈ items, ¬station.Writes other := by
  intro other mem writes
  have filled := (List.forall_mem_cons.mp faces.filled).1
  have ordered := faces.inFile.head_ordered
  have apart := (List.pairwise_cons.mp faces.behind).1 other mem
  rw [← writes.span] at apart
  omega

end Faces

/-- A bare station between two neighbours touches only their lines. -/
theorem Station.IsBare.between {text : String} {station : Station} (bare : station.IsBare text)
    {front back : List Item} {item next : Item}
    (split : shownItems text = front ++ item :: next :: back)
    (behind : item.span.stop ≤ station.span.start) (before : station.span.stop ≤ next.span.start)
    (ordered : station.span.start ≤ station.span.stop) :
    station.span.start = station.span.stop ∧
      (lineAt text station.span.start = lineAt text item.span.stop ∨
        lineAt text station.span.start = lineAt text next.span.start) := by
  refine ⟨?_, lineAt_seam split bare.seam behind (Nat.le_trans ordered before)⟩
  rcases bare.span with empty | ⟨other, mem, span⟩
  · exact empty
  · rw [← span] at behind before
    have := lt_of_mem_shownItems mem
    rcases apart_of_neighbours split mem with early | late
    · omega
    · omega

/-- The item that was met last, if nothing was left out behind it, ends in front of the stations
ahead. -/
def EndsBefore (done : List Item) (stations : List Station) (last : Option Item) : Prop :=
  ∀ before ∈ last, done.getLast? = some before ∧
    ∀ station ∈ stations, before.span.stop ≤ station.span.start

theorem EndsBefore.tail {done : List Item} {station : Station} {stations : List Station}
    {last : Option Item} (ends : EndsBefore done (station :: stations) last) :
    EndsBefore done stations last := by
  intro before known
  obtain ⟨isLast, reached⟩ := ends before known
  exact ⟨isLast, (List.forall_mem_cons.mp reached).2⟩

/-- Nothing is met yet, or something was left out. -/
theorem endsBefore_none (done : List Item) (stations : List Station) :
    EndsBefore done stations none := by
  intro before known
  cases known

/-- The items of a text are met on the way past the stations that belong to them. -/
theorem Faces.meets {text : String} {mayOmit : List Span} {stations : List Station}
    {items done : List Item} {last : Option Item} (faces : Faces text mayOmit stations items)
    (whole : shownItems text = done ++ items) (ends : EndsBefore done stations last) :
    Meets text mayOmit last stations items := by
  induction stations generalizing items done last with
  | nil =>
    clear ends
    induction items generalizing done last with
    | nil => exact .nil
    | cons item items ih =>
      obtain ⟨may, faces⟩ := faces.pass (by simp)
      exact .passed may (@ih (done ++ [item]) none faces (by simpa using whole))
  | cons station stations ih =>
    have ordered := faces.inFile.head_ordered
    induction items generalizing done last with
    | nil =>
      obtain ⟨bare, faces⟩ := faces.bare (by simp)
      exact .bare bare.steps (by simp) (@ih [] done last faces whole ends.tail)
    | cons item items next =>
      by_cases writes : station.Writes item
      · refine .item writes (@ih items (done ++ [item]) (some item) (faces.meet writes)
          (by simpa using whole) fun before known => ?_)
        obtain rfl : item = before := by simpa using known
        refine ⟨by simp, fun station mem => ?_⟩
        rw [← writes.span]
        exact faces.inFile.head_apart station mem
      · by_cases early : item.span.start < station.span.stop
        · -- The station and all behind it are too late for the item.
          obtain ⟨may, faces⟩ := faces.pass
            (List.forall_mem_cons.mpr ⟨writes, faces.inFile.not_writes_of_lt early⟩)
          exact .passed may
            (@next (done ++ [item]) none faces (by simpa using whole) (endsBefore_none _ _))
        · -- All items ahead are too late for the station.
          have before := Nat.le_of_not_lt early
          obtain ⟨bare, faces⟩ := faces.bare
            (List.forall_mem_cons.mpr ⟨writes, faces.not_writes_of_le before⟩)
          refine .bare bare.steps (fun last known following first => ?_)
            (@ih (item :: items) done last faces whole ends.tail)
          obtain rfl : item = following := by simpa using first
          obtain ⟨isLast, reached⟩ := ends last known
          obtain ⟨front, split⟩ := List.getLast?_eq_some_iff.mp isLast
          have split : shownItems text = front ++ last :: item :: items := by
            rw [whole, split, List.append_assoc, List.singleton_append]
          exact bare.between split (reached station List.mem_cons_self) before ordered

end GoTrivia
