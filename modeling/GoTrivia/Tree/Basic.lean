import GoTrivia.Tree.StandardShape

/-!
# Trees with slots

A tree is a node of some kind with one slot for each anchor of its shape, in shape
order.  A slot holds a token, a child or a list of trees, and the first two may be
empty.  What nodes, tokens and lists carry besides is left open: the tree of a
source text has spans on its nodes and its list separators, an editable tree has
trivia on its nodes, and the two are related by forgetting what they carry
(`SlotTree.map`).

Every operation below walks nodes, slots and list elements in source order, by
mutual recursion on the three.
-/

set_option autoImplicit false

namespace GoTrivia

mutual
/-- A tree whose nodes carry a `ν`, whose tokens are `τ` and whose lists carry a
`σ` beside their elements. -/
inductive SlotTree (ν τ σ : Type) where
  | node (kind : NodeKind) (info : ν) (slots : List (Slot ν τ σ))

/-- The content of one anchor. -/
inductive Slot (ν τ σ : Type) where
  | token (token : Option τ)
  | child (child : Option (SlotTree ν τ σ))
  | list (elements : List (SlotTree ν τ σ)) (separators : σ)
end

/-- A tree that carries its token texts and nothing else. -/
abbrev Bare := SlotTree Unit String Unit

variable {ν τ σ ν' τ' σ' : Type}

/-! ## Slots -/

namespace Slot

/-- Tokens and children are present when given, lists when not empty. -/
def isPresent : Slot ν τ σ → Bool
  | .token content => content.isSome
  | .child content => content.isSome
  | .list elements _ => !elements.isEmpty

/-- Whether the slot holds one token or one node, to which trivia can attach. -/
def isAttached : Slot ν τ σ → Bool
  | .token content => content.isSome
  | .child content => content.isSome
  | .list _ _ => false

/-- Whether the slot is of the kind a shape asks for. -/
def fits : SlotShape → Slot ν τ σ → Bool
  | .token _, .token _ => true
  | .child, .child _ => true
  | .list _, .list _ _ => true
  | _, _ => false

/-- The empty slot of a given kind. -/
def vacant [Inhabited σ] : SlotShape → Slot ν τ σ
  | .token _ => .token none
  | .child => .child none
  | .list _ => .list [] default

theorem fits_vacant [Inhabited σ] (shape : SlotShape) :
    (vacant shape : Slot ν τ σ).fits shape = true := by
  cases shape <;> rfl

end Slot

/-! ## Nodes -/

namespace SlotTree

/-- The construct the root stands for. -/
def kind : SlotTree ν τ σ → NodeKind
  | .node kind _ _ => kind

/-- What the root carries. -/
def info : SlotTree ν τ σ → ν
  | .node _ info _ => info

/-- The slots of the root. -/
def slots : SlotTree ν τ σ → List (Slot ν τ σ)
  | .node _ _ slots => slots

/-- The same slots under another kind. -/
def withKind (tree : SlotTree ν τ σ) (kind : NodeKind) : SlotTree ν τ σ :=
  .node kind tree.info tree.slots

/-- The same node carrying something else. -/
def withInfo (tree : SlotTree ν τ σ) (info : ν) : SlotTree ν τ σ :=
  .node tree.kind info tree.slots

/-- The same node with other slots. -/
def withSlots (tree : SlotTree ν τ σ) (slots : List (Slot ν τ σ)) : SlotTree ν τ σ :=
  .node tree.kind tree.info slots

/-- A node with every slot of its shape empty. -/
def vacant [Inhabited σ] (kind : NodeKind) (info : ν) : SlotTree ν τ σ :=
  .node kind info ((standardShape kind).anchors.map fun shape => Slot.vacant shape.slot)

/-- The place of an anchor's slot. -/
def indexOf? (tree : SlotTree ν τ σ) (anchor : Anchor) : Option Nat :=
  (standardShape tree.kind).indexOf? anchor

/-- The slot of an anchor. -/
def slot? (tree : SlotTree ν τ σ) (anchor : Anchor) : Option (Slot ν τ σ) :=
  (tree.indexOf? anchor).bind fun index => tree.slots[index]?

/-- The tree with the slot of an anchor replaced.  An anchor without a slot
changes nothing. -/
def setSlot (tree : SlotTree ν τ σ) (anchor : Anchor) (slot : Slot ν τ σ) : SlotTree ν τ σ :=
  match tree.indexOf? anchor with
  | some index => tree.withSlots (tree.slots.set index slot)
  | none => tree

/-- The token of an anchor. -/
def token? (tree : SlotTree ν τ σ) (anchor : Anchor) : Option τ :=
  match tree.slot? anchor with
  | some (.token token) => token
  | _ => none

/-- The child of an anchor. -/
def child? (tree : SlotTree ν τ σ) (anchor : Anchor) : Option (SlotTree ν τ σ) :=
  match tree.slot? anchor with
  | some (.child child) => child
  | _ => none

/-- The elements of an anchor's list, if it has one. -/
def elements? (tree : SlotTree ν τ σ) (anchor : Anchor) : Option (List (SlotTree ν τ σ)) :=
  match tree.slot? anchor with
  | some (.list elements _) => some elements
  | _ => none

/-- The elements of an anchor's list, none if it has no list. -/
def elements (tree : SlotTree ν τ σ) (anchor : Anchor) : List (SlotTree ν τ σ) :=
  (tree.elements? anchor).getD []

/-- The token of a name or a literal. -/
def leaf? (tree : SlotTree ν τ σ) : Option τ :=
  match tree.kind with
  | .ident => tree.token? .name
  | .basicLit => tree.token? .value
  | _ => none

/-! ## All nodes in source order -/

mutual
/-- The subtrees, each before its own subtrees. -/
def preorder : SlotTree ν τ σ → List (SlotTree ν τ σ)
  | .node kind info slots => .node kind info slots :: preorderSlots slots

/-- The subtrees below a list of slots. -/
def preorderSlots : List (Slot ν τ σ) → List (SlotTree ν τ σ)
  | [] => []
  | .token _ :: slots => preorderSlots slots
  | .child none :: slots => preorderSlots slots
  | .child (some child) :: slots => child.preorder ++ preorderSlots slots
  | .list elements _ :: slots => preorderElements elements ++ preorderSlots slots

/-- The subtrees of a list of trees. -/
def preorderElements : List (SlotTree ν τ σ) → List (SlotTree ν τ σ)
  | [] => []
  | tree :: trees => tree.preorder ++ preorderElements trees
end

/-! ## Forgetting and comparing -/

mutual
/-- The tree with everything it carries replaced. -/
def map (onNode : ν → ν') (onToken : τ → τ') (onList : σ → σ') :
    SlotTree ν τ σ → SlotTree ν' τ' σ'
  | .node kind info slots => .node kind (onNode info) (mapSlots onNode onToken onList slots)

/-- A list of slots with everything it carries replaced. -/
def mapSlots (onNode : ν → ν') (onToken : τ → τ') (onList : σ → σ') :
    List (Slot ν τ σ) → List (Slot ν' τ' σ')
  | [] => []
  | .token token :: slots =>
    .token (token.map onToken) :: mapSlots onNode onToken onList slots
  | .child none :: slots => .child none :: mapSlots onNode onToken onList slots
  | .child (some child) :: slots =>
    .child (some (child.map onNode onToken onList)) :: mapSlots onNode onToken onList slots
  | .list elements separators :: slots =>
    .list (mapElements onNode onToken onList elements) (onList separators) ::
      mapSlots onNode onToken onList slots

/-- A list of trees with everything they carry replaced. -/
def mapElements (onNode : ν → ν') (onToken : τ → τ') (onList : σ → σ') :
    List (SlotTree ν τ σ) → List (SlotTree ν' τ' σ')
  | [] => []
  | tree :: trees => tree.map onNode onToken onList :: mapElements onNode onToken onList trees
end

mutual
/-- Whether two trees agree, given when what they carry agrees. -/
def agrees (onNode : ν → ν' → Bool) (onToken : τ → τ' → Bool) (onList : σ → σ' → Bool) :
    SlotTree ν τ σ → SlotTree ν' τ' σ' → Bool
  | .node kind info slots, .node kind' info' slots' =>
    kind == kind' && onNode info info' && agreesSlots onNode onToken onList slots slots'

/-- Whether two lists of slots agree. -/
def agreesSlots (onNode : ν → ν' → Bool) (onToken : τ → τ' → Bool) (onList : σ → σ' → Bool) :
    List (Slot ν τ σ) → List (Slot ν' τ' σ') → Bool
  | [], [] => true
  | .token none :: slots, .token none :: slots' => agreesSlots onNode onToken onList slots slots'
  | .token (some token) :: slots, .token (some token') :: slots' =>
    onToken token token' && agreesSlots onNode onToken onList slots slots'
  | .child none :: slots, .child none :: slots' => agreesSlots onNode onToken onList slots slots'
  | .child (some child) :: slots, .child (some child') :: slots' =>
    child.agrees onNode onToken onList child' && agreesSlots onNode onToken onList slots slots'
  | .list elements separators :: slots, .list elements' separators' :: slots' =>
    agreesElements onNode onToken onList elements elements' && onList separators separators' &&
      agreesSlots onNode onToken onList slots slots'
  | _, _ => false

/-- Whether two lists of trees agree. -/
def agreesElements (onNode : ν → ν' → Bool) (onToken : τ → τ' → Bool) (onList : σ → σ' → Bool) :
    List (SlotTree ν τ σ) → List (SlotTree ν' τ' σ') → Bool
  | [], [] => true
  | tree :: trees, tree' :: trees' =>
    tree.agrees onNode onToken onList tree' && agreesElements onNode onToken onList trees trees'
  | _, _ => false
end

end SlotTree

end GoTrivia
