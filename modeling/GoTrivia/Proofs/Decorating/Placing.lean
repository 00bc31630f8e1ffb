import GoTrivia.Proofs.Decorating.Anchors
import GoTrivia.Proofs.Decorating.AnyText
import GoTrivia.Proofs.Decorating.Homes

/-!
# The homes of the comments of a text

The layout of a text that parses is lawful: its fragments and comments come one behind the
other, and the lines of their ends tell the line feeds between them.  So every comment of the
text goes to its home, and to no other place.

**Elements.** What is around a separator is at home at the point in front of it.  That point is
the finish of the element that the separator follows.
-/

set_option autoImplicit false

namespace GoTrivia

open Positional

/-! ## The layout of a text -/

/-- The layout of a text. -/
def Layout.ofText (text : String) : Layout :=
  ⟨(parse text).tree.root.fragments, (lex text).comments, feedsBetween text⟩

/-- A span that no comment reaches into. -/
def IsClear (comments : List Lexeme) (span : Span) : Prop :=
  ∀ comment ∈ comments, span.stop ≤ comment.span.start ∨ comment.span.stop ≤ span.start

theorem IsClear.marked {comments : List Lexeme} {span : Span} (clear : IsClear comments span)
    (ordered : span.start ≤ span.stop) : Marked (IsClear comments) span := by
  refine ⟨clear, fun comment mem => ?_, fun comment mem => ?_⟩
  · have := clear comment mem
    simp only [Span.point]
    omega
  · have := clear comment mem
    simp only [Span.point]
    omega

/-- Both ends of a span are placed on their lines. -/
def IsPlaced (resolver : LineResolver) (text : String) (span : Span) : Prop :=
  resolver.lineOf? span.start = some (lineAt text span.start) ∧
    resolver.lineOf? span.stop = some (lineAt text span.stop)

theorem Spaced.pointed {fragments : List Fragment} (spaced : Spaced fragments) {gap : Nat}
    {separator : Span} (found : fragments[gap]? = some (.separator separator)) :
    ∃ place point, gap = place + 1 ∧ fragments[place]? = some (.point point) := by
  induction spaced generalizing gap with
  | nil => simp at found
  | point span rest ih =>
    cases gap with
    | zero => simp at found
    | succ gap =>
      obtain ⟨place, point, rfl, pointed⟩ := ih (by simpa using found)
      exact ⟨place + 1, point, rfl, by simpa using pointed⟩
  | element span other rest ih =>
    match gap, found with
    | 1, _ => exact ⟨0, span, rfl, rfl⟩
    | gap + 2, found =>
      obtain ⟨place, point, rfl, pointed⟩ := ih (by simpa using found)
      exact ⟨place + 2, point, rfl, by simpa using pointed⟩

section Texts

variable {text : String} {resolver : LineResolver}

/-- Items stand one behind the other. -/
theorem clear_tokens (text : String) :
    ∀ token ∈ (lex text).tokens, Marked (IsClear (lex text).comments) token.span := by
  intro token mem
  have ordered : token.span.start ≤ token.span.stop := ordered_of_mem_items (mem_items_of_token mem)
  refine IsClear.marked (fun comment mem' => ?_) ordered
  obtain ⟨closed, mem'⟩ := mem_items_of_comment mem'
  have apart := pairwise_items text
  rw [List.pairwise_iff_getElem] at apart
  obtain ⟨i, bound, atToken⟩ := List.getElem_of_mem (mem_items_of_token mem)
  obtain ⟨j, bound', atComment⟩ := List.getElem_of_mem mem'
  rcases Nat.lt_trichotomy i j with before | rfl | after
  · have := apart i j bound bound' before
    rw [atToken, atComment] at this
    exact .inl this
  · simp [atToken] at atComment
  · have := apart j i bound' bound after
    rw [atToken, atComment] at this
    exact .inr this

theorem placed_tokens (indexes : resolver.Indexes text) :
    ∀ token ∈ (lex text).tokens, Marked (IsPlaced resolver text) token.span := by
  intro token mem
  obtain ⟨begins, ends⟩ := lineOf?_eq_lineAt indexes (mem_items_of_token mem)
  exact ⟨⟨begins, ends⟩, ⟨begins, begins⟩, ⟨ends, ends⟩⟩

/-- A layout whose last fragment starts behind a comment has a gap for it. -/
theorem Layout.gapOf_lt_length {layout : Layout} {comment : Lexeme} {front : List Fragment}
    {last : Fragment} (whole : layout.fragments = front ++ [last])
    (before : comment.span.start < last.span.start) :
    layout.gapOf comment < layout.fragments.length := by
  have := (List.rdropWhile_prefix (fun fragment : Fragment =>
    decide (comment.span.start < fragment.span.start)) front).length_le
  rw [Layout.gapOf, whole, List.rdropWhile_concat_pos _ _ _ (by simpa using before),
    List.length_append, List.length_singleton]
  omega

/-- **Lawful texts.** A text without diagnostics has a lawful layout. -/
theorem Layout.lawful_ofText (indexes : resolver.Indexes text)
    (clean : (parse text).diagnostics = []) :
    (Layout.ofText text).Lawful resolver (lineAt text) := by
  have clear := ranged_parse clean (clear_tokens text)
  have placed := ranged_parse clean (placed_tokens indexes)
  have early := lt_stop_of_mem_comments clean
  have commented : ∀ comment ∈ (lex text).comments,
      ∃ closed, .comment comment closed ∈ items text := fun _ mem => mem_items_of_comment mem
  have whole : (Layout.ofText text).fragments = (parse text).tree.root.fragments := by
    simp only [Layout.ofText]
  generalize (parse text).tree.root = root at clear placed early whole
  have spaced : Spaced root.fragments := by
    rw [fragments_eq_inner]
    exact (spaced_innerFragments root).append (.point _ .nil)
  constructor
  case apart => exact whole ▸ clear.pairwise
  case ordered => exact fun fragment mem => (clear.bounds fragment (whole ▸ mem)).2.1
  case behind => exact pairwise_comments text
  case filled =>
    intro comment mem
    obtain ⟨closed, mem⟩ := commented comment mem
    exact lt_of_mem_items mem
  case clear =>
    intro comment mem fragment mem'
    exact clear.places fragment (whole ▸ mem') comment mem
  case early =>
    intro comment mem
    exact Layout.gapOf_lt_length (whole.trans (fragments_eq_inner root)) (early comment mem)
  case pointed =>
    intro gap separator found
    rw [Layout.next?, whole] at found
    obtain ⟨place, point, rfl, pointed⟩ := spaced.pointed found
    exact ⟨point, by rw [Layout.prev?, whole, pointed]⟩
  case places => exact fun fragment mem => placed.places fragment (whole ▸ mem)
  case lines =>
    intro comment mem
    obtain ⟨closed, mem⟩ := commented comment mem
    exact lineOf?_eq_lineAt indexes mem
  case add => exact feedsBetween_add text
  case inside => exact fun comment mem => feedsBetween_comment mem
  case feeds_eq => exact feedsBetween_eq_sub

end Texts

/-! ## Every comment at home -/

namespace Layout

/-- The point in front of a separator is the finish of an element. -/
def Finishes (layout : Layout) (place : Nat) (anchor : Anchor) : Prop :=
  layout.isSeparator (place + 1) = true → anchor = .finish

theorem finishes_of_anchored {layout : Layout} {rest : List Fragment} {anchors : List Anchor}
    (anchored : Anchored rest anchors) {front : List Fragment}
    (whole : front ++ rest = layout.fragments) :
    List.Forall₂ layout.Finishes (pointPlaces front.length rest) anchors := by
  induction anchored generalizing front with
  | nil => exact .nil
  | @point span anchor fragments anchors rest ih =>
    have later := @ih (front ++ [.point span]) (by simpa using whole)
    rw [List.length_append] at later
    refine .cons (fun separated => ?_) later
    -- What is behind the point is another point, if anything.
    have next : layout.next? (front.length + 1) = fragments[0]? := by
      rw [next?, ← whole, List.getElem?_append_right (by omega)]
      simp
    cases rest <;> simp [isSeparator, next, Fragment.isPoint] at separated
  | @element span separator fragments anchors rest ih =>
    have later := @ih (front ++ [.point span, .separator separator]) (by simpa using whole)
    rw [List.length_append] at later
    exact .cons (fun _ => rfl) later

/-- A decorated tree with every comment of a layout at home: its points hold the comments at
home there, in their groups, and there is a point for every home. -/
structure Houses (layout : Layout) (root : Decorated) : Prop where
  points : List.Forall₂ layout.Holds (pointPlaces 0 layout.fragments) (root.points .standard)
  anchors : List.Forall₂ layout.Finishes (pointPlaces 0 layout.fragments)
    (root.walkAnchors .standard)
  homes : ∀ comment ∈ layout.comments,
    (layout.home comment).1 ∈ pointPlaces 0 layout.fragments
  groups : ∀ first ∈ layout.comments, ∀ second ∈ layout.comments,
    layout.gapOf first = layout.gapOf second → first.span.stop ≤ second.span.start →
    (layout.Share first second ↔ layout.feeds first.span.stop second.span.start = 0)

end Layout

/-- **Comments stay where they are.** Decorating a text without diagnostics brings every comment
to its home, with the comments that no line feed parts from it, and to no other place. -/
theorem houses_decorate (text : String) (resolver : LineResolver)
    (indexes : resolver.Indexes text) (clean : (parse text).diagnostics = []) :
    ∃ tree, decorateWith resolver text = .ok tree ∧ (Layout.ofText text).Houses tree.root := by
  obtain ⟨assignments, assigned, decorated⟩ := exists_decorate clean
  have kinded := kinded_parse clean
  have lawful := Layout.lawful_ofText (indexes_ofText text) clean
  rw [decorateWith_eq indexes]
  refine ⟨_, decorated, ?_⟩
  have fragments : (Layout.ofText text).fragments = (parse text).tree.root.fragments := by
    simp only [Layout.ofText]
  have comments : (Layout.ofText text).comments = (lex text).comments := by
    simp only [Layout.ofText]
  rw [← comments] at assigned
  generalize Layout.ofText text = layout at lawful fragments assigned comments ⊢
  generalize (parse text).tree.root = root at fragments assigned kinded ⊢
  have length := (CommentGap.conserved_decorations assigned).1
  constructor
  case points =>
    rw [points_rebuild Registry.distinct_standard kinded length]
    rw [← fragments] at assigned
    exact lawful.forall₂_holds assigned
  case anchors =>
    rw [walkAnchors_rebuild kinded, fragments]
    exact Layout.finishes_of_anchored (anchored_fragments kinded)
      (show [] ++ root.fragments = layout.fragments from fragments.symm)
  case homes => exact fun comment mem => lawful.home_mem_pointPlaces mem
  case groups => exact fun first mem second mem' same apart => lawful.share_iff mem mem' same apart

/-- A call with comments on both sides of a separator. -/
def commentedSeparator : String := "package p\n\nvar x = f(a /* 1 */, // 2\n\tb)\n"

theorem houses_commentedSeparator :
    (lex commentedSeparator).comments.map (Layout.ofText commentedSeparator).home =
        [(21, .before), (21, .after)] ∧
      ∃ tree, decorate commentedSeparator = .ok tree ∧
        (Layout.ofText commentedSeparator).Houses tree.root :=
  ⟨by decide +kernel, houses_decorate commentedSeparator _ (indexes_ofText _) (by decide +kernel)⟩

end GoTrivia
