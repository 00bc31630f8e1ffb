import GoTrivia.Proofs.Decorating.Homes

/-!
# The comments of a part of a tree

The homes of the comments ascend with the comments.  So the comments at home in a part of the
fragments stand side by side in the text, and the points of that part hold just these
(`texts_of_split`).
-/

set_option autoImplicit false

namespace GoTrivia

theorem forall₂_of_append {α β : Type} {related : α → β → Prop} {front back : List α}
    {front' back' : List β} (lengths : front.length = front'.length)
    (pairs : List.Forall₂ related (front ++ back) (front' ++ back')) :
    List.Forall₂ related front front' ∧ List.Forall₂ related back back' := by
  have first := List.forall₂_take_append _ _ _ pairs
  have last := List.forall₂_drop_append _ _ _ pairs
  rw [← lengths] at first last
  exact ⟨by rwa [List.take_left] at first, by rwa [List.drop_left] at last⟩

namespace Layout

variable {layout : Layout} {resolver : LineResolver} {line : Nat → Nat}

/-! ## Homes in order -/

namespace Lawful

variable (lawful : layout.Lawful resolver line) {first second : Lexeme}
include lawful

/-- Homes ascend in a gap. -/
theorem home_le_of_same (mem : first ∈ layout.comments) (mem' : second ∈ layout.comments)
    (same : layout.gapOf first = layout.gapOf second) (apart : first.span.stop ≤ second.span.start) :
    (layout.home first).1 ≤ (layout.home second).1 := by
  have front : ∀ prev, layout.prev? (layout.gapOf second) = some prev →
      layout.feeds prev.span.stop second.span.start =
        layout.feeds prev.span.stop first.span.start +
          layout.feeds first.span.stop second.span.start := fun prev before =>
    lawful.feeds_past mem (lawful.stop_le_start mem (same ▸ before)) apart
  have back : ∀ next, layout.next? (layout.gapOf second) = some next →
      layout.feeds first.span.stop next.span.start =
        layout.feeds first.span.stop second.span.start +
          layout.feeds second.span.stop next.span.start := fun next found =>
    lawful.feeds_past mem' apart (lawful.stop_le_next mem' found (Nat.le_refl _))
  unfold home
  rw [same]
  dsimp only
  split
  · exact Nat.le_refl _
  · exact Nat.le_refl _
  · next prev _ before _ =>
    have ahead : layout.feeds prev.stop _ = layout.feeds prev.stop _ + _ := front _ before
    split <;> split <;> (dsimp only; omega)
  · next prev next before found =>
    have ahead : layout.feeds prev.stop _ = layout.feeds prev.stop _ + _ := front _ before
    have behind : layout.feeds _ next.start = _ + layout.feeds _ next.start := back _ found
    split <;> split <;> (dsimp only; omega)
  · exact Nat.le_refl _

/-- Homes ascend from gap to gap. -/
theorem home_le_of_lt (mem : first ∈ layout.comments) (mem' : second ∈ layout.comments)
    (before : layout.gapOf first < layout.gapOf second) :
    (layout.home first).1 ≤ (layout.home second).1 := by
  have low : (layout.home first).1 ≤ layout.gapOf first := by
    cases lawful.housed mem with
    | behind _ _ home => simp [home]
    | front place _ _ gap _ _ home => simp [home, gap]
    | preceding place _ _ gap _ _ home => simp [home, gap]
    | following place _ _ _ gap _ _ _ home => simp [home, gap]
  cases lawful.housed mem' with
  | behind _ _ home => simp only [home]; omega
  | front place _ _ gap _ _ home => simp only [home]; omega
  | preceding place _ _ gap _ _ home => simp only [home]; omega
  | following place prev separator next gap _ between _ home =>
    simp only [home]
    rcases Nat.lt_or_ge (layout.gapOf first) (place + 1) with less | more
    · omega
    -- The first comment stands in front of the separator, at home where the second one is.
    · have here : layout.gapOf first = place + 1 := by omega
      cases lawful.housed mem with
      | behind _ found _ => simp [here, between] at found
      | front _ _ _ gap' _ found _ =>
        obtain rfl : _ = place := Nat.succ.inj (gap'.symm.trans here)
        simp [between] at found
      | preceding _ _ _ gap' _ _ home' => simp only [home']; omega
      | following _ _ _ _ gap' _ _ _ home' => simp only [home']; omega

/-- **Homes in order.** The homes of the comments ascend. -/
theorem pairwise_home : layout.comments.Pairwise fun comment next =>
    (layout.home comment).1 ≤ (layout.home next).1 := by
  refine lawful.behind.imp_of_mem fun {comment next} mem mem' apart => ?_
  have filled := lawful.filled comment mem
  have le : comment.span.start ≤ next.span.start := by omega
  rcases Nat.lt_or_eq_of_le (lawful.gapOf_mono mem le) with before | same
  · exact lawful.home_le_of_lt mem mem' before
  · exact lawful.home_le_of_same mem mem' same apart

end Lawful

/-! ## Comments of groups -/

theorem comments_groupsOf (comments : List Lexeme) :
    (layout.groupsOf comments).flatMap TriviaGroup.comments = comments.map Lexeme.text := by
  have runs : ∀ runs : List (List Lexeme),
      (runs.filterMap layout.groupOf).flatMap TriviaGroup.comments =
        runs.flatten.map Lexeme.text := by
    intro runs
    induction runs with
    | nil => rfl
    | cons run runs ih => cases run <;> simpa [List.filterMap_cons, groupOf] using ih
  rw [groupsOf, runs, List.flatten_splitBy]

theorem comments_commented (groups : List TriviaGroup) :
    (commented groups).flatMap TriviaGroup.comments = groups.flatMap TriviaGroup.comments := by
  induction groups with
  | nil => rfl
  | cons group groups ih =>
    obtain ⟨spacing, comments⟩ := group
    cases comments <;> simpa [commented] using ih

theorem Holds.comments {place : Nat} {decoration : Decoration}
    (holds : layout.Holds place decoration) :
    decoration.comments =
      (layout.homed place .before ++ layout.homed place .after).map Lexeme.text := by
  rw [Decoration.comments, ← comments_commented decoration.before,
    ← comments_commented decoration.after, holds.before, holds.after, comments_groupsOf,
    comments_groupsOf, List.map_append]

/-! ## Comments at home in a part -/

/-- The comments at home from one place up to another one. -/
def within (layout : Layout) (low high : Nat) : List Lexeme :=
  layout.comments.filter fun comment =>
    decide (low ≤ (layout.home comment).1) && decide ((layout.home comment).1 < high)

theorem mem_within {low high : Nat} {comment : Lexeme} :
    comment ∈ layout.within low high ↔ comment ∈ layout.comments ∧
      low ≤ (layout.home comment).1 ∧ (layout.home comment).1 < high := by
  simp [within]

theorem Holds.length {place : Nat} {decoration : Decoration}
    (holds : layout.Holds place decoration) :
    decoration.comments.length = (layout.within place (place + 1)).length := by
  have here : layout.within place (place + 1) =
      layout.comments.filter fun comment => (layout.home comment).1 == place := by
    refine List.filter_congr fun comment _ => ?_
    rw [Bool.eq_iff_iff]
    simp only [Bool.and_eq_true, decide_eq_true_eq, beq_iff_eq]
    omega
  rw [holds.comments, List.length_map, List.length_append, here, homed, homed]
  simp only [← List.countP_eq_length_filter]
  induction layout.comments with
  | nil => rfl
  | cons comment comments ih =>
    simp only [List.countP_cons]
    cases home : layout.home comment with
    | mk place' side => cases side <;> by_cases same : place' = place <;> simp [same] <;> omega

theorem pointPlaces_append (first : Nat) (front back : List Fragment) :
    pointPlaces first (front ++ back) =
      pointPlaces first front ++ pointPlaces (first + front.length) back := by
  induction front generalizing first with
  | nil => rfl
  | cons fragment front ih =>
    have shift : first + (front.length + 1) = first + 1 + front.length := by omega
    cases fragment <;> simp [pointPlaces, ih, shift]

theorem length_pointPlaces (first : Nat) (fragments : List Fragment) :
    (pointPlaces first fragments).length = (pointFragments fragments).length := by
  induction fragments generalizing first with
  | nil => rfl
  | cons fragment fragments ih => cases fragment <;> simp [pointPlaces, ih]

namespace Lawful

variable (lawful : layout.Lawful resolver line)
include lawful

theorem within_append {low middle high : Nat} (first : low ≤ middle) (second : middle ≤ high) :
    layout.within low high = layout.within low middle ++ layout.within middle high := by
  have order := lawful.pairwise_home.imp (S := fun comment next =>
      (decide (middle ≤ (layout.home comment).1) && decide ((layout.home comment).1 < high)) = true →
      (decide (low ≤ (layout.home next).1) && decide ((layout.home next).1 < middle)) = false)
    fun le => by
      simp only [Bool.and_eq_true, decide_eq_true_eq, Bool.and_eq_false_iff, decide_eq_false_iff_not]
      omega
  have apart : ∀ comment ∈ layout.comments,
      (decide (middle ≤ (layout.home comment).1) && decide ((layout.home comment).1 < high)) = true →
      (decide (low ≤ (layout.home comment).1) && decide ((layout.home comment).1 < middle)) = false := by
    intro comment _
    simp only [Bool.and_eq_true, decide_eq_true_eq, Bool.and_eq_false_iff, decide_eq_false_iff_not]
    omega
  rw [within, within, within, ← filter_or_eq_append order apart]
  refine List.filter_congr fun comment _ => ?_
  rw [Bool.eq_iff_iff]
  simp only [Bool.and_eq_true, Bool.or_eq_true, decide_eq_true_eq]
  omega

/-- The points of a part hold as many comments as are at home there. -/
theorem length_comments {part : List Fragment} :
    ∀ {front back : List Fragment} {decorations : List Decoration},
      layout.fragments = front ++ part ++ back →
      List.Forall₂ layout.Holds (pointPlaces front.length part) decorations →
      (decorations.flatMap Decoration.comments).length =
        (layout.within front.length (front.length + part.length)).length := by
  induction part with
  | nil =>
    intro front back decorations _ holds
    cases holds
    refine (List.length_eq_zero_iff.mpr (List.filter_eq_nil_iff.mpr fun comment _ => ?_)).symm
    simp
  | cons fragment part ih =>
    intro front back decorations whole holds
    have behind := fun decorations => @ih (front ++ [fragment]) back decorations (by simp [whole])
    simp only [List.length_append, List.length_singleton] at behind
    rw [List.length_cons, show front.length + (part.length + 1) = front.length + 1 + part.length by omega,
      lawful.within_append (Nat.le_add_right front.length 1) (Nat.le_add_right _ part.length),
      List.length_append]
    cases fragment with
    | point span =>
      obtain ⟨decoration, decorations, here, later, rfl⟩ := List.forall₂_cons_left_iff.mp holds
      rw [List.flatMap_cons, List.length_append, here.length, behind _ later]
    | separator span =>
      -- No comment is at home at a separator.
      have none : layout.within front.length (front.length + 1) = [] := by
        refine List.eq_nil_iff_forall_not_mem.mpr fun comment mem => ?_
        obtain ⟨mem, low, high⟩ := mem_within.mp mem
        obtain ⟨-, point, found⟩ := mem_pointPlaces.mp (lawful.home_mem_pointPlaces mem)
        rw [show (layout.home comment).1 - 0 = front.length by omega, whole] at found
        simp at found
      rw [none, behind _ holds, List.length_nil, Nat.zero_add]

theorem comments_eq_within : layout.comments = layout.within 0 layout.fragments.length := by
  refine (List.filter_eq_self.mpr fun comment mem => ?_).symm
  obtain ⟨-, point, found⟩ := mem_pointPlaces.mp (lawful.home_mem_pointPlaces mem)
  have := (List.getElem?_eq_some_iff.mp found).1
  simp only [Bool.and_eq_true, decide_eq_true_eq]
  omega

/-- **Parts.** If the points of a layout hold its comments, those of a part hold the comments at
home there, and the points around it hold the others. -/
theorem texts_of_split {front part back : List Fragment} {before inner after : List Decoration}
    (whole : layout.fragments = front ++ part ++ back)
    (holds : List.Forall₂ layout.Holds (pointPlaces 0 layout.fragments) (before ++ inner ++ after))
    (lengths : before.length = (pointFragments front).length)
    (lengths' : after.length = (pointFragments back).length)
    (texts : (before ++ inner ++ after).flatMap Decoration.comments =
      layout.comments.map Lexeme.text) :
    before.flatMap Decoration.comments = (layout.within 0 front.length).map Lexeme.text ∧
      inner.flatMap Decoration.comments =
        (layout.within front.length (front.length + part.length)).map Lexeme.text ∧
      after.flatMap Decoration.comments =
        (layout.within (front.length + part.length) layout.fragments.length).map Lexeme.text := by
  have size : layout.fragments.length = front.length + part.length + back.length := by
    simp [whole, Nat.add_assoc]
  rw [whole, pointPlaces_append, pointPlaces_append, Nat.zero_add, List.append_assoc,
    List.append_assoc] at holds
  obtain ⟨first, holds⟩ := forall₂_of_append (by rw [length_pointPlaces, lengths]) holds
  have sum := holds.length_eq
  simp only [List.length_append, length_pointPlaces, lengths'] at sum
  obtain ⟨middle, -⟩ := forall₂_of_append (by rw [length_pointPlaces]; omega) holds
  have beforeLength := lawful.length_comments
    (show layout.fragments = [] ++ front ++ (part ++ back) by simpa using whole) first
  have innerLength := lawful.length_comments whole middle
  have comments := lawful.comments_eq_within
  rw [lawful.within_append (Nat.zero_le front.length) (by omega),
    lawful.within_append (Nat.le_add_right front.length part.length) (by omega)] at comments
  rw [comments, List.map_append, List.map_append, List.flatMap_append, List.flatMap_append,
    List.append_assoc] at texts
  obtain ⟨isBefore, texts⟩ := List.append_inj texts (by simpa using beforeLength)
  obtain ⟨isInner, isAfter⟩ := List.append_inj texts (by simpa using innerLength)
  exact ⟨isBefore, isInner, isAfter⟩

end Lawful

end Layout

end GoTrivia
