import GoTrivia.Grammar.File
import GoTrivia.Proofs.Decorating.Gaps
import GoTrivia.Proofs.Decorating.Points
import GoTrivia.Proofs.Grammar.AbreastTrees

/-!
# Decorating abreast

Decorating looks at which fragments a comment stands in front of, and at how many lines two
things are apart, where two are as good as more.  So trees that agree but for where they
stand are decorated the same, as long as their comments are in front of the same fragments and
the lines between things are as many where they count.
-/

set_option autoImplicit false

namespace GoTrivia

namespace Grammar.Pairing

variable {pairing : Pairing}

/-- Comments that agree but for where they stand, in front of the same things. -/
structure Comments (pairing : Pairing) (comment comment' : Lexeme) : Prop
    extends pairing.Lexemes comment comment' where
  begins : ∀ {a a'}, pairing.offset a a' → (comment.span.start < a ↔ comment'.span.start < a')
  ends : ∀ {a a'}, pairing.offset a a' → (comment.span.stop ≤ a ↔ comment'.span.stop ≤ a')

/-- Offsets that stand for each other lie on lines, and two of them as many lines apart in
either text, if more than two count as two. -/
structure Lined (pairing : Pairing) (resolver resolver' : LineResolver) (line line' : Nat → Nat) :
    Prop where
  placed : ∀ {a a'}, pairing.offset a a' →
    resolver.lineOf? a = some (line a) ∧ resolver'.lineOf? a' = some (line' a')
  apart : ∀ {a a' b b'}, pairing.offset a a' → pairing.offset b b' →
    min (line b - line a) 2 = min (line' b' - line' a') 2

/-- The lines of offsets that stand for each other, if anything precedes. -/
inductive LastLines (pairing : Pairing) (line line' : Nat → Nat) : Option Nat → Option Nat → Prop
  | none : LastLines pairing line line' none none
  | some {a a' : Nat} : pairing.offset a a' →
      LastLines pairing line line' (some (line a)) (some (line' a'))

/-- Gaps that agree but for where they stand. -/
structure Gaps (pairing : Pairing) (gap gap' : CommentGap) : Prop where
  prev : Option.Rel pairing.Fragments gap.prev gap'.prev
  next : Option.Rel pairing.Fragments gap.next gap'.next
  comments : List.Forall₂ pairing.Comments gap.comments gap'.comments

end Grammar.Pairing

open Grammar

variable {pairing : Pairing} {resolver resolver' : LineResolver} {line line' : Nat → Nat}

/-! ## Two lines are as good as more -/

theorem Spacing.ofLineDelta_congr {delta delta' : Nat} (same : min delta 2 = min delta' 2) :
    ofLineDelta delta = ofLineDelta delta' := by
  rcases delta with _ | _ | delta <;> rcases delta' with _ | _ | delta' <;>
    first | rfl | omega

namespace CommentGap

theorem addComment_congr {delta delta' : Nat} (same : min delta 2 = min delta' 2)
    (groups : List TriviaGroup) (text : String) :
    addComment groups delta text = addComment groups delta' text := by
  have spacing := Spacing.ofLineDelta_congr same
  rcases delta with _ | delta <;> rcases delta' with _ | delta'
  · rfl
  · omega
  · omega
  · cases last : groups.getLast? with
    | none => simp only [addComment, last, spacing]
    | some group => simp only [addComment, last, spacing]

theorem lineBreak_congr {delta delta' : Nat} (same : min delta 2 = min delta' 2) :
    lineBreak delta = lineBreak delta' := by
  have positive : 0 < delta ↔ 0 < delta' := by omega
  rw [lineBreak, lineBreak, Spacing.ofLineDelta_congr same]
  simp only [positive]

/-! ## Splitting gaps -/

/-- On which side of a gap something goes depends on what kinds of fragments are around it. -/
theorem split_congr {prev prev' next next' : Option Fragment} {delta delta' : Nat}
    (prevs : Option.Rel pairing.Fragments prev prev')
    (nexts : Option.Rel pairing.Fragments next next') (same : min delta 2 = min delta' 2)
    (groups : List TriviaGroup) :
    split prev next groups delta = split prev' next' groups delta' := by
  have positive : 0 < delta ↔ 0 < delta' := by omega
  cases prevs with
  | none => simp only [split, lineBreak_congr same]
  | some before =>
    cases before with
    | separator _ => simp only [split, lineBreak_congr same, positive]
    | point _ =>
      cases nexts with
      | none => rfl
      | some behind =>
        cases behind with
        | separator _ => rfl
        | point _ => simp only [split, lineBreak_congr same]

/-! ## Gaps side by side -/

/-- Comments are grouped the same. -/
theorem group_abreast (lined : pairing.Lined resolver resolver' line line')
    {comments comments' : List Lexeme} (related : List.Forall₂ pairing.Comments comments comments')
    {last last' : Option Nat} (lasts : pairing.LastLines line line' last last')
    (groups : List TriviaGroup) :
    ∃ grouped stop stop', group resolver last groups comments = .ok (grouped, stop) ∧
      group resolver' last' groups comments' = .ok (grouped, stop') ∧
      pairing.LastLines line line' stop stop' := by
  induction related generalizing last last' groups with
  | nil => exact ⟨groups, last, last', rfl, rfl, lasts⟩
  | @cons comment comment' comments comments' here _ ih =>
    obtain ⟨starts, starts'⟩ := lined.placed here.spans.1
    obtain ⟨stops, stops'⟩ := lined.placed here.spans.2
    have deltas : min ((last.map (line comment.span.start - ·)).getD 0) 2 =
        min ((last'.map (line' comment'.span.start - ·)).getD 0) 2 := by
      cases lasts with
      | none => rfl
      | some behind => exact lined.apart behind here.spans.1
    obtain ⟨grouped, stop, stop', run, run', ended⟩ := ih (.some here.spans.2)
      (addComment groups ((last.map (line comment.span.start - ·)).getD 0) comment.text)
    refine ⟨grouped, stop, stop', ?_, ?_, ended⟩
    · rw [group, lineOf_eq_ok.mpr starts, lineOf_eq_ok.mpr stops]
      exact run
    · rw [group, lineOf_eq_ok.mpr starts', lineOf_eq_ok.mpr stops', ← here.text]
      rw [addComment_congr deltas] at run'
      exact run'

theorem deltaBehind_abreast (lined : pairing.Lined resolver resolver' line line')
    {last last' : Option Nat} (lasts : pairing.LastLines line line' last last')
    {next next' : Option Fragment} (nexts : Option.Rel pairing.Fragments next next') :
    ∃ delta delta', deltaBehind resolver last next = .ok delta ∧
      deltaBehind resolver' last' next' = .ok delta' ∧ min delta 2 = min delta' 2 := by
  cases lasts with
  | none => exact ⟨0, 0, rfl, rfl, rfl⟩
  | some behind =>
    cases nexts with
    | none => exact ⟨0, 0, rfl, rfl, rfl⟩
    | @some fragment fragment' fragments =>
      obtain ⟨starts, starts'⟩ := lined.placed fragments.spans.1
      refine ⟨_, _, ?_, ?_, lined.apart behind fragments.spans.1⟩
      · rw [deltaBehind, lineOf_eq_ok.mpr starts]
        rfl
      · rw [deltaBehind, lineOf_eq_ok.mpr starts']
        rfl

theorem lineBefore_abreast (lined : pairing.Lined resolver resolver' line line')
    {prev prev' : Option Fragment} (prevs : Option.Rel pairing.Fragments prev prev') :
    ∃ last last', lineBefore resolver prev = .ok last ∧ lineBefore resolver' prev' = .ok last' ∧
      pairing.LastLines line line' last last' := by
  cases prevs with
  | none => exact ⟨none, none, rfl, rfl, .none⟩
  | @some fragment fragment' fragments =>
    obtain ⟨stops, stops'⟩ := lined.placed fragments.spans.2
    refine ⟨_, _, ?_, ?_, .some fragments.spans.2⟩
    · rw [lineBefore, lineOf_eq_ok.mpr stops]
      rfl
    · rw [lineBefore, lineOf_eq_ok.mpr stops']
      rfl

/-- The trivia of a gap is split the same. -/
theorem assign_abreast (lined : pairing.Lined resolver resolver' line line') {gap gap' : CommentGap}
    (gaps : pairing.Gaps gap gap') :
    ∃ assignment, gap.assign resolver = .ok assignment ∧ gap'.assign resolver' = .ok assignment := by
  obtain ⟨begun, begun', found, found', lasts⟩ := lineBefore_abreast lined gaps.prev
  obtain ⟨groups, last, last', grouped, grouped', ended⟩ :=
    group_abreast lined gaps.comments lasts []
  obtain ⟨delta, delta', counted, counted', same⟩ := deltaBehind_abreast lined ended gaps.next
  have sides := split_congr gaps.prev gaps.next same groups
  exact ⟨_, assign_eq_ok.mpr ⟨begun, groups, last, delta, found, grouped, counted, rfl⟩,
    assign_eq_ok.mpr ⟨begun', groups, last', delta', found', grouped', counted', sides.symm⟩⟩

/-- Lists that agree element by element are cut in the same place. -/
theorem forall₂_takeWhile_dropWhile {α β : Type} {relation : α → β → Prop} {p : α → Bool}
    {q : β → Bool} (same : ∀ a b, relation a b → p a = q b) {list : List α} {list' : List β}
    (related : List.Forall₂ relation list list') :
    List.Forall₂ relation (list.takeWhile p) (list'.takeWhile q) ∧
      List.Forall₂ relation (list.dropWhile p) (list'.dropWhile q) := by
  induction related with
  | nil => exact ⟨.nil, .nil⟩
  | @cons a b rest rest' here others ih =>
    rw [List.takeWhile_cons, List.takeWhile_cons, List.dropWhile_cons, List.dropWhile_cons,
      same a b here]
    cases q b with
    | true => exact ⟨.cons here ih.1, ih.2⟩
    | false => exact ⟨.nil, .cons here others⟩

/-- Comments fall into the same gaps. -/
theorem ofFragments_abreast {fragments fragments' : List Fragment}
    (related : List.Forall₂ pairing.Fragments fragments fragments')
    {prev prev' : Option Fragment} (prevs : Option.Rel pairing.Fragments prev prev')
    {comments comments' : List Lexeme}
    (lexemes : List.Forall₂ pairing.Comments comments comments') :
    List.Forall₂ pairing.Gaps (ofFragments prev fragments comments)
      (ofFragments prev' fragments' comments') := by
  induction related generalizing prev prev' comments comments' with
  | nil =>
    cases lexemes with
    | nil => exact .nil
    | cons comment rest => exact .cons ⟨prevs, .none, .cons comment rest⟩ .nil
  | @cons next next' fragments fragments' here _ ih =>
    rw [ofFragments, ofFragments]
    have same : ∀ comment comment', pairing.Comments comment comment' →
        decide (comment.span.start < next.span.start) =
          decide (comment'.span.start < next'.span.start) :=
      fun _ _ lexemes => decide_eq_decide.mpr (lexemes.begins here.spans.1)
    have cut := forall₂_takeWhile_dropWhile same lexemes
    exact .cons ⟨prevs, .some here, cut.1⟩ (ih (.some here) cut.2)

/-- All gaps are assigned the same. -/
theorem assignAll_abreast (lined : pairing.Lined resolver resolver' line line')
    {gaps gaps' : List CommentGap} (related : List.Forall₂ pairing.Gaps gaps gaps') :
    ∃ assignments assignments', (assignAll resolver gaps).result = .ok assignments ∧
      (assignAll resolver' gaps').result = .ok assignments' ∧
      List.Forall₂ (fun row row' => pairing.Gaps row.1 row'.1 ∧ row.2 = row'.2)
        assignments assignments' := by
  induction related with
  | nil => exact ⟨[], [], rfl, rfl, .nil⟩
  | @cons gap gap' gaps gaps' here _ ih =>
    obtain ⟨assignment, assigned, assigned'⟩ := assign_abreast lined here
    obtain ⟨rest, rest', run, run', rows⟩ := ih
    exact ⟨_, _, assignAll_cons_eq_ok.mpr ⟨assignment, rest, assigned, run, rfl⟩,
      assignAll_cons_eq_ok.mpr ⟨assignment, rest', assigned', run', rfl⟩, .cons ⟨here, rfl⟩ rows⟩

/-- The points get the same decorations. -/
theorem decorations_abreast {assignments assignments' : List (CommentGap × Assignment)}
    (related : List.Forall₂ (fun row row' => pairing.Gaps row.1 row'.1 ∧ row.2 = row'.2)
      assignments assignments') (open? : Option Decoration) :
    decorations open? assignments = decorations open? assignments' := by
  induction related generalizing open? with
  | nil => rfl
  | @cons row row' rows rows' here _ ih =>
    obtain ⟨gap, assignment⟩ := row
    obtain ⟨gap', assignment'⟩ := row'
    obtain ⟨⟨-, nexts, -⟩, same⟩ := here
    obtain rfl : assignment = assignment' := same
    obtain ⟨prev, next, comments⟩ := gap
    obtain ⟨prev', next', comments'⟩ := gap'
    replace nexts : Option.Rel pairing.Fragments next next' := nexts
    cases nexts with
    | none =>
      unfold decorations
      exact ih _
    | some fragments =>
      cases fragments with
      | point _ =>
        unfold decorations
        exact congrArg (_ ++ ·) (ih _)
      | separator _ =>
        unfold decorations
        exact ih _

end CommentGap

/-! ## Building trees up again -/

namespace Grammar.Pairing

open Decorate

mutual
theorem Trees.rebuild_eq {tree tree' : Positional} (trees : pairing.Trees tree tree')
    (registry : Registry) (supply : List Decoration) :
    rebuild registry tree supply = rebuild registry tree' supply := by
  cases trees with
  | node _ slots =>
    rw [rebuild, rebuild]
    simp only [slots.rebuild_eq]

theorem SlotLists.rebuild_eq {sorts : List SlotSort} {slots slots' : List PositionalSlot}
    (lists : pairing.SlotLists sorts slots slots') (registry : Registry) (shapes : List AnchorShape)
    (decorations : Decorations) (supply : List Decoration) :
    rebuildSlots registry shapes slots decorations supply =
      rebuildSlots registry shapes slots' decorations supply := by
  cases lists with
  | nil => rfl
  | cons slot rest =>
    cases shapes with
    | nil => rw [rebuildSlots, rebuildSlots]
    | cons shape shapes =>
      rw [rebuildSlots, rebuildSlots]
      simp only [slot.rebuild_eq, rest.rebuild_eq]

theorem Slots.rebuild_eq {sort : SlotSort} {slot slot' : PositionalSlot}
    (slots : pairing.Slots sort slot slot') (registry : Registry) (anchor : Anchor)
    (decorations : Decorations) (supply : List Decoration) :
    rebuildSlot registry anchor slot decorations supply =
      rebuildSlot registry anchor slot' decorations supply := by
  cases slots with
  | vacant => rfl
  | token lexemes => rw [rebuildSlot, rebuildSlot, lexemes.text]
  | childless => rfl
  | child trees => rw [rebuildSlot, rebuildSlot, trees.rebuild_eq]
  | list trees _ => rw [rebuildSlot, rebuildSlot, trees.rebuild_eq]

theorem TreeLists.rebuild_eq {trees trees' : List Positional}
    (lists : pairing.TreeLists trees trees') (registry : Registry) (supply : List Decoration) :
    rebuildElements registry trees supply = rebuildElements registry trees' supply := by
  cases lists with
  | nil => rfl
  | cons tree rest =>
    rw [rebuildElements, rebuildElements]
    simp only [tree.rebuild_eq, rest.rebuild_eq]
end

/-! ## The language version -/

theorem SlotLists.getElem? {sorts : List SlotSort} {slots slots' : List PositionalSlot}
    (lists : pairing.SlotLists sorts slots slots') (index : Nat) :
    slots[index]? = none ∧ slots'[index]? = none ∨ ∃ sort slot slot',
      slots[index]? = some slot ∧ slots'[index]? = some slot' ∧ pairing.Slots sort slot slot' := by
  induction sorts generalizing slots slots' index with
  | nil =>
    cases lists
    exact .inl ⟨rfl, rfl⟩
  | cons sort sorts ih =>
    cases lists with
    | cons slot rest =>
      cases index with
      | zero => exact .inr ⟨_, _, _, rfl, rfl, slot⟩
      | succ index => exact ih rest index

/-- The same token stands at an anchor. -/
theorem Trees.token? {tree tree' : Positional} (trees : pairing.Trees tree tree')
    (anchor : Anchor) : Option.Rel pairing.Lexemes (tree.token? anchor) (tree'.token? anchor) := by
  cases trees with
  | @node kind info info' slots slots' _ lists =>
    unfold SlotTree.token? SlotTree.slot? SlotTree.indexOf?
    dsimp only [SlotTree.kind, SlotTree.slots]
    cases (standardShape kind).indexOf? anchor with
    | none => exact .none
    | some index =>
      rw [Option.bind_some, Option.bind_some]
      rcases lists.getElem? index with ⟨found, found'⟩ | ⟨sort, slot, slot', found, found', slots⟩
      · rw [found, found']
        exact .none
      · rw [found, found']
        cases slots with
        | vacant => exact .none
        | token lexemes => exact .some lexemes
        | childless => exact .none
        | child _ => exact .none
        | list _ _ => exact .none

/-- The comments in front of a place ask for the same language version. -/
theorem goVersion?_congr {comments comments' : List Lexeme}
    (lexemes : List.Forall₂ pairing.Comments comments comments') {offset offset' : Nat}
    (place : pairing.offset offset offset') :
    goVersion? comments offset = goVersion? comments' offset' := by
  have same : ∀ comment comment', pairing.Comments comment comment' →
      decide (comment.span.stop ≤ offset) = decide (comment'.span.stop ≤ offset') :=
    fun _ _ lexemes => decide_eq_decide.mpr (lexemes.ends place)
  have header := (CommentGap.forall₂_takeWhile_dropWhile same lexemes).1
  have constraints : ∀ {list list' : List Lexeme}, List.Forall₂ pairing.Comments list list' →
      list.filterMap (buildConstraint? ·.text) = list'.filterMap (buildConstraint? ·.text) := by
    intro list list' related
    induction related with
    | nil => rfl
    | cons here _ ih => rw [List.filterMap_cons, List.filterMap_cons, here.text, ih]
  rw [goVersion?, goVersion?, constraints header]

/-- The header asks for the same language version. -/
theorem Trees.fileMetadata_eq {tree tree' : Positional} (trees : pairing.Trees tree tree')
    {comments comments' : List Lexeme}
    (lexemes : List.Forall₂ pairing.Comments comments comments') :
    fileMetadata tree comments = fileMetadata tree' comments' := by
  have place : pairing.offset
      (((tree.token? .packageKw).map (·.span.start)).getD tree.span.stop)
      (((tree'.token? .packageKw).map (·.span.start)).getD tree'.span.stop) := by
    have keywords := trees.token? .packageKw
    generalize tree.token? .packageKw = keyword at keywords ⊢
    generalize tree'.token? .packageKw = keyword' at keywords ⊢
    cases keywords with
    | none => exact trees.spans.2
    | some keyword => exact keyword.spans.1
  rw [fileMetadata, fileMetadata, goVersion?_congr lexemes place]

end Grammar.Pairing

/-! ## Decorating -/

/-- Trees that agree but for where they stand are decorated the same. -/
theorem decorate_abreast {source source' : SourceTree}
    (stands : resolver.resolve = Positional.span) (stands' : resolver'.resolve = Positional.span)
    (lined : pairing.Lined resolver resolver' line line')
    (roots : pairing.Trees source.root source'.root)
    (kinded : Decorate.Kinded .standard source'.root.preorder)
    (comments : List.Forall₂ pairing.Comments source.comments source'.comments)
    (metadata : source.metadata = source'.metadata) :
    ∃ tree, (source.decorate .standard resolver).result = .ok tree ∧
      (source'.decorate .standard resolver').result = .ok tree := by
  obtain ⟨assignments, assignments', assigned, assigned', rows⟩ :=
    CommentGap.assignAll_abreast lined
      (CommentGap.ofFragments_abreast roots.fragments .none comments)
  refine ⟨_, (decorate_eq_ok_of_eq stands).mpr ⟨roots.kinded, assignments, assigned, rfl⟩,
    (decorate_eq_ok_of_eq stands').mpr ⟨kinded, assignments', assigned', ?_⟩⟩
  rw [CommentGap.decorations_abreast rows, roots.rebuild_eq, metadata]

end GoTrivia
