import GoTrivia.Proofs.Decorating.Gaps
import GoTrivia.Proofs.Decorating.Ordering
import GoTrivia.Proofs.Decorating.Points
import GoTrivia.Proofs.Token.Items
import GoTrivia.RoundTrip

/-!
# Decorating the tree of a text

A text without diagnostics is decorated: its nodes have slots of the right kinds, and all
fragments and comments begin and end between two characters, so on lines of the text.
-/

set_option autoImplicit false

namespace GoTrivia

open CommentGap (Resolves)

variable {text : String}

/-- Items begin and end on lines of the text. -/
theorem resolves_of_mem_items {item : Item} (mem : item ∈ items text) :
    Resolves (.ofText text) item.span := lineOf?_of_mem_items mem

/-! ## Decorating -/

theorem marked_of_resolves {resolver : LineResolver} {span : Span}
    (resolves : Resolves resolver span) : Marked (Resolves resolver) span :=
  ⟨resolves, ⟨resolves.1, resolves.1⟩, ⟨resolves.2, resolves.2⟩⟩

/-- Every node of the tree of a text was read from tokens. -/
theorem spelledNode_of_mem (clean : (parse text).diagnostics = []) :
    ∀ node ∈ (parse text).tree.root.preorder, SpelledNode node := by
  have spells := spellsFile_parse (lawful_lex text) clean
  generalize (parse text).tree.root = root at spells ⊢
  exact spells.nodes (lawful_lex text)

theorem kinded_parse (clean : (parse text).diagnostics = []) :
    Decorate.Kinded .standard (parse text).tree.root.preorder := by
  have spelled := spelledNode_of_mem clean
  generalize (parse text).tree.root = root at spelled ⊢
  exact fun node mem => (spelled node mem).kindFault?

/-- The fragments of a text lie on its lines. -/
theorem resolves_fragments (clean : (parse text).diagnostics = []) :
    ∀ fragment ∈ (parse text).tree.root.fragments, Resolves (.ofText text) fragment.span := by
  have marked : ∀ token ∈ (lex text).tokens, Marked (Resolves (.ofText text)) token.span := by
    intro token mem
    have resolves := resolves_of_mem_items (mem_items_of_token mem)
    rw [Item.span] at resolves
    exact marked_of_resolves resolves
  exact (ranged_parse clean marked).places

theorem resolves_comments (text : String) :
    ∀ comment ∈ (lex text).comments, Resolves (.ofText text) comment.span := by
  intro comment mem
  obtain ⟨closed, mem⟩ := mem_items_of_comment mem
  exact resolves_of_mem_items mem

theorem comments_parse (text : String) : (parse text).tree.comments = (lex text).comments := by
  obtain ⟨state, -, -, comments, -⟩ := run_parse text
  exact comments

theorem metadata_parse (text : String) :
    (parse text).tree.metadata = fileMetadata (parse text).tree.root (lex text).comments := by
  obtain ⟨state, -, -, -, metadata⟩ := run_parse text
  exact metadata

theorem decorate_of_clean (clean : (parse text).diagnostics = []) :
    decorate text = ((parse text).tree.decorate .standard (.ofText text)).result := by
  have source : sourceTree text = .ok (parse text).tree := by
    simp only [sourceTree, clean, List.isEmpty_nil, if_true]
  rw [decorate, decorateWith, source]
  generalize (parse text).tree = source
  rfl

/-- **Decorated texts.** A text without diagnostics is decorated. -/
theorem exists_decorate (clean : (parse text).diagnostics = []) :
    ∃ assignments,
      (CommentGap.assignAll (.ofText text) (CommentGap.ofFragments none
        (parse text).tree.root.fragments (lex text).comments)).result = .ok assignments ∧
      decorate text = .ok ⟨(Decorate.rebuild .standard (parse text).tree.root
        (CommentGap.decorations none assignments)).1, (parse text).tree.metadata⟩ := by
  have kinded := kinded_parse clean
  have resolves := resolves_fragments clean
  have commented := resolves_comments text
  rw [decorate_of_clean clean]
  rw [← comments_parse] at commented ⊢
  generalize (parse text).tree = source at kinded resolves commented ⊢
  obtain ⟨assignments, assigned⟩ := @CommentGap.exists_assignAll (.ofText text)
    source.root.fragments none source.comments resolves commented
  exact ⟨assignments, assigned, (decorate_eq_ok_of_eq rfl).mpr ⟨kinded, assignments, assigned, rfl⟩⟩

/-- Comments stand in front of the end of the tree. -/
theorem lt_stop_of_mem_comments (clean : (parse text).diagnostics = []) :
    ∀ comment ∈ (lex text).comments, comment.span.start < (parse text).tree.root.info.stop := by
  have spells := spellsFile_parse (lawful_lex text) clean
  intro comment mem
  obtain ⟨closed, mem⟩ := mem_items_of_comment mem
  have inside := Nat.lt_of_lt_of_le (lt_of_mem_items mem) (stop_le_of_mem_items mem)
  generalize (parse text).tree.root = root at spells ⊢
  generalize (lex text).tokens = tokens at spells
  cases spells with
  | @file slots front first last content filled begins isEnd =>
    exact Nat.lt_of_lt_of_le inside (Nat.le_max_left _ _)

end GoTrivia
