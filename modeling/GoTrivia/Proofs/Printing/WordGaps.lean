import GoTrivia.Proofs.Printing.Touching
import GoTrivia.RoundTrip

/-!
# Words are kept apart

A token is written right behind the one before it, unless the layout has asked for a space or a line
in between.  Where two words might meet, a shape asks for that: between the anchors of a shape no
seam has words on both of its sides.
-/

set_option autoImplicit false

namespace GoTrivia

open Print (Mark slotToken?)

/-! ## Texts that are not both words -/

/-- At least one of two texts is no word. -/
def NotBothWords (text next : String) : Prop := isWord text = true → isWord next = false

theorem lenient_notBothWords : Print.Lenient NotBothWords where
  empty _ word := by simp [isWord, pieces] at word
  opening _ _ c last opens word := (getLast?_of_isWord word c last opens).elim
  comma _ word := (Bool.false_ne_true ((isWord_punctuation "," (by decide)).symm.trans word)).elim
  follower _ next mem _ :=
    isWord_punctuation next ((by decide : Print.followers ⊆ punctuation) mem)

/-- Between two words with no token in between there is a blank. -/
theorem exists_blank_of_beside {front between back : List Mark} {word next : String}
    (beside : (front ++ .token word :: (between ++ .token next :: back)).IsChain
      (Print.Beside NotBothWords))
    (noToken : ∀ text, .token text ∉ between) (isWord : isWord word = true)
    (isNext : GoTrivia.isWord next = true) : .space ∈ between ∨ .lineFeed ∈ between := by
  have behind := (List.isChain_append.mp beside).2.1
  cases between with
  | nil =>
    have other : GoTrivia.isWord next = false := (List.isChain_cons_cons.mp behind).1 isWord
    cases isNext.symm.trans other
  | cons mark between =>
    have here := (List.isChain_cons_cons.mp behind).1
    cases mark with
    | token text => exact (noToken text List.mem_cons_self).elim
    | comment | tab => exact here.elim
    | space => exact .inl List.mem_cons_self
    | lineFeed => exact .inr List.mem_cons_self

/-! ## Words in shapes -/

/-- Where a token is an operator, of the tokens that may have any text and are not set off by
spaces. -/
def isOperator : NodeKind → Anchor → Bool
  | .unaryExpr, .op | .incDecStmt, .tok => true
  | _, _ => false

/-- Such operators are no words. -/
def operatorsFree : FreeTexts := fun kind anchor text =>
  isOperator kind anchor = true → isWord text = false

/-- Whether an anchor holds a token that is no word. -/
def AnchorShape.isSharp (kind : NodeKind) (shape : AnchorShape) : Bool :=
  match shape.slot with
  | .token (.fixed text) => punctuation.contains text
  | .token .free => isOperator kind shape.anchor
  | _ => false

/-- At every seam that is not set off there is an anchor without a word. -/
theorem joinsAll_isSharp (kind : NodeKind) :
    joinsAll (fun previous shape => previous.isSharp kind || shape.isSharp kind) []
      (standardShape kind).anchors = true := by
  cases kind <;> decide

namespace Fitted

variable {kind : NodeKind} {filled : Anchor → Bool} {shape : AnchorShape}

theorem isWord_eq_false {lexeme : Lexeme}
    (fitted : Fitted (operatorsFree kind) filled shape (.token (some lexeme)))
    (sharp : shape.isSharp kind = true) : isWord lexeme.text = false := by
  unfold AnchorShape.isSharp at sharp
  split at sharp
  · next text isToken =>
    rw [fitted.fixed text lexeme isToken rfl]
    exact isWord_punctuation text (List.contains_iff_mem.mp sharp)
  · next isFree => exact fitted.free lexeme isFree rfl sharp
  · cases sharp

/-- A sharp anchor holds a token, if anything. -/
theorem exists_token_of_isSharp {slot : PositionalSlot}
    (fitted : Fitted (operatorsFree kind) filled shape slot) (sharp : shape.isSharp kind = true) :
    ∃ token, slot = .token token := by
  have isKind := fitted.kind
  unfold AnchorShape.isSharp at sharp
  cases slot with
  | token token => exact ⟨token, rfl⟩
  | child | list =>
    split at sharp
    · next isToken => simp [isToken, Slot.fits] at isKind
    · next isToken => simp [isToken, Slot.fits] at isKind
    · cases sharp

/-- A sharp anchor has no word at either end. -/
theorem edged {slot : PositionalSlot} (fitted : Fitted (operatorsFree kind) filled shape slot) :
    Edged (fun shape text => shape.isSharp kind = true → isWord text = false)
      (fun shape text => shape.isSharp kind = true → isWord text = false) (operatorsFree kind)
      filled shape slot where
  toFitted := fitted
  begins lexeme starts sharp := by
    obtain ⟨token, rfl⟩ := fitted.exists_token_of_isSharp sharp
    obtain rfl : token = some lexeme := starts
    exact fitted.isWord_eq_false sharp
  ends text last sharp := by
    obtain ⟨token, rfl⟩ := fitted.exists_token_of_isSharp sharp
    cases token with
    | none => cases last
    | some lexeme =>
      obtain rfl : lexeme.text = text := Option.some.inj last
      exact fitted.isWord_eq_false sharp

end Fitted

/-- No seam of a node that fits has words on both of its sides. -/
theorem FitsShape.seamed {node : Positional} (fits : FitsShape operatorsFree node) :
    Seamed NotBothWords none (standardShape node.kind).anchors node.slots := by
  obtain ⟨filled, fitted⟩ := fits
  refine seamed_of_joinsAll (fun previous shape text next joins isEnd begins word => ?_)
    (fitted.imp fun _ _ fits => fits.edged) (joinsAll_isSharp node.kind) (by simp)
  rcases Bool.or_eq_true_iff.mp joins with sharp | sharp
  · cases word.symm.trans (isEnd sharp)
  · exact begins sharp

/-! ## Printed trees -/

/-- **Words never fuse.** When a restored tree is printed whose unary and step operators are no
words, any two words that are printed one after the other have a space or a line feed in
between. -/
theorem exists_blank_between_words {tree : DecoratedTree} {restored : Restored}
    (accepted : (tree.restore .standard).result = .ok restored)
    (unary : ∀ node ∈ tree.root.preorder, node.kind = .unaryExpr →
      ∀ text ∈ node.token? .op, isWord text = false)
    (steps : ∀ node ∈ tree.root.preorder, node.kind = .incDecStmt →
      ∀ text ∈ node.token? .tok, isWord text = false) :
    ∃ marks, Print.marks .standard restored.root restored.comments = .ok marks ∧
      GoTrivia.print tree = .ok (Print.finish marks) ∧
      ∀ front word between next back,
        marks = front ++ .token word :: (between ++ .token next :: back) →
        (∀ text, .token text ∉ between) → isWord word = true → isWord next = true →
        .space ∈ between ∨ .lineFeed ∈ between := by
  have texts : ∀ node ∈ tree.root.preorder, HasTexts operatorsFree node := by
    intro node mem shape _ _ text isText isOp
    unfold isOperator at isOp
    split at isOp
    · next isKind isAnchor => exact unary node mem isKind text (isAnchor ▸ isText)
    · next isKind isAnchor => exact steps node mem isKind text (isAnchor ▸ isText)
    · cases isOp
  have fits := allFit_of_restore accepted texts
  obtain ⟨marks, printed, beside⟩ := exists_marks_beside lenient_notBothWords fits
    (fun node mem => (fits node mem).seamed) restored.comments
  refine ⟨marks, printed, ?_, ?_⟩
  · show ((tree.restore .standard).result >>= _) = _
    rw [accepted]
    show (Print.marks _ _ _).map _ = _
    rw [printed]
    rfl
  · rintro front word between next back rfl noToken isWord isNext
    exact exists_blank_of_beside beside noToken isWord isNext

/-- A statement where the shape only asks for some node: three words stand one behind the other,
and an operator in front of the last name. -/
def deferredReturn : DecoratedTree :=
  let negation : Decorated :=
    (Decorated.vacant .unaryExpr).fill .op (.token (some "-"))
      |>.fill .x (.child (some (Decorated.ident "y")))
  let results := Decorated.returnStmt [.ident "x", negation]
  ⟨(Decorated.vacant .deferStmt).fillFixed .deferKw |>.fill .call (.child (some results)), .empty⟩

theorem exists_blank_between_words_deferredReturn :
    isWord "defer" = true ∧ isWord "return" = true ∧ isWord "x" = true ∧
      GoTrivia.print deferredReturn = .ok "defer return x, -y\n" ∧
      ∃ marks between between' back, Print.marks .standard (deferredReturn.place .standard).root
          (deferredReturn.place .standard).comments = .ok marks ∧
        marks = .token "defer" :: (between ++ .token "return" :: (between' ++ .token "x" :: back)) ∧
        (.space ∈ between ∨ .lineFeed ∈ between) ∧ (.space ∈ between' ∨ .lineFeed ∈ between') := by
  have words : isWord "defer" = true ∧ isWord "return" = true ∧ isWord "x" = true := by
    decide +kernel
  have marked : Print.marks .standard (deferredReturn.place .standard).root
      (deferredReturn.place .standard).comments = .ok [.token "defer", .space, .token "return",
        .space, .token "x", .token ",", .space, .token "-", .token "y"] := by decide +kernel
  have accepted : (deferredReturn.restore .standard).result =
      .ok (deferredReturn.place .standard) := restore_eq_ok_iff.mpr ⟨by decide +kernel, rfl⟩
  obtain ⟨marks, same, printed, apart⟩ :=
    exists_blank_between_words accepted (by decide +kernel) (by decide +kernel)
  obtain rfl := Except.ok.inj (marked.symm.trans same)
  have text : Print.finish [.token "defer", .space, .token "return", .space, .token "x",
      .token ",", .space, .token "-", .token "y"] = "defer return x, -y\n" := by decide +kernel
  refine ⟨words.1, words.2.1, words.2.2, text ▸ printed, _, [.space], [.space], _, marked, rfl,
    apart [] "defer" [.space] "return" _ rfl (by simp) words.1 words.2.1,
    apart [.token "defer", .space] "return" [.space] "x" _ rfl (by simp) words.2.1 words.2.2⟩

end GoTrivia
