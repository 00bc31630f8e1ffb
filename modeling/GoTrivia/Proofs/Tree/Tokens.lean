import GoTrivia.Proofs.Tree.Erasing

/-!
# The tokens of a tree

The tokens that fill the slots of a tree, in order.  Separators of lists are no tokens of the tree.
-/

set_option autoImplicit false

namespace GoTrivia

namespace SlotTree

variable {ν τ σ ν' τ' σ' : Type}

mutual
/-- The tokens of a tree. -/
def tokens : SlotTree ν τ σ → List τ
  | .node _ _ slots => tokensSlots slots

/-- The tokens in a list of slots. -/
def tokensSlots : List (Slot ν τ σ) → List τ
  | [] => []
  | slot :: slots => tokensSlot slot ++ tokensSlots slots

/-- The tokens in a slot. -/
def tokensSlot : Slot ν τ σ → List τ
  | .token token => token.toList
  | .child none => []
  | .child (some child) => child.tokens
  | .list elements _ => tokensElements elements

/-- The tokens of a list of trees. -/
def tokensElements : List (SlotTree ν τ σ) → List τ
  | [] => []
  | tree :: trees => tree.tokens ++ tokensElements trees
end

variable (onNode : ν → ν') (onToken : τ → τ') (onList : σ → σ')

mutual
theorem tokens_map : ∀ tree : SlotTree ν τ σ,
    (tree.map onNode onToken onList).tokens = tree.tokens.map onToken
  | .node kind info slots => by
      rw [map, tokens, tokens, mapSlots_eq_map, tokensSlots_map slots]

theorem tokensSlots_map : ∀ slots : List (Slot ν τ σ),
    tokensSlots (slots.map (mapSlot onNode onToken onList)) = (tokensSlots slots).map onToken
  | [] => by rw [List.map_nil, tokensSlots, tokensSlots, List.map_nil]
  | slot :: slots => by
      rw [List.map_cons, tokensSlots, tokensSlots, tokensSlot_map slot, tokensSlots_map slots,
        List.map_append]

theorem tokensSlot_map : ∀ slot : Slot ν τ σ,
    tokensSlot (mapSlot onNode onToken onList slot) = (tokensSlot slot).map onToken
  | .token token => by cases token <;> rfl
  | .child none => rfl
  | .child (some child) => by
      rw [mapSlot, Option.map_some, tokensSlot, tokensSlot, tokens_map child]
  | .list elements separators => by
      rw [mapSlot, tokensSlot, tokensSlot, ← mapElements_eq_map, tokensElements_map elements]

theorem tokensElements_map : ∀ trees : List (SlotTree ν τ σ),
    tokensElements (mapElements onNode onToken onList trees) =
      (tokensElements trees).map onToken
  | [] => by rw [mapElements, tokensElements, tokensElements, List.map_nil]
  | tree :: trees => by
      rw [mapElements, tokensElements, tokensElements, tokens_map tree, tokensElements_map trees,
        List.map_append]
end

end SlotTree

end GoTrivia
