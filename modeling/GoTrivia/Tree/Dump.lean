import GoTrivia.Tree.Basic

/-!
# Dumps of trees

A dump shows a tree one line per node, token and list, indented by depth.  What
the tree carries is shown as a style says: behind the kind of a node, as the text
of a token, and on note lines around each anchor.  Empty slots are left out.
-/

set_option autoImplicit false

namespace GoTrivia

/-- The two sides of an anchor. -/
inductive Side
  | before
  | after
deriving DecidableEq, Repr

/-- The name of a side in dumps. -/
def Side.text : Side → String
  | before => "before"
  | after => "after"

/-- How what a tree carries is shown. -/
structure DumpStyle (ν τ : Type) where
  heading : ν → String
  token : τ → String
  notes : ν → Anchor → Side → List String

/-- A line of a dump and how many levels it is indented. -/
structure DumpLine where
  level : Nat
  text : String
deriving DecidableEq, Repr

/-- The line with its indentation of two spaces a level. -/
def DumpLine.render (line : DumpLine) : String :=
  String.ofList (List.replicate (2 * line.level) ' ') ++ line.text ++ "\n"

namespace SlotTree

variable {ν τ σ : Type}

/-- The notes on one side of an anchor. -/
def noteLines (style : DumpStyle ν τ) (level : Nat) (info : ν) (anchor : Anchor) (side : Side) :
    List DumpLine :=
  (style.notes info anchor side).map fun text => ⟨level, text⟩

mutual
/-- The lines of a node behind a label. -/
def dumpLines (style : DumpStyle ν τ) (level : Nat) (label : String) :
    SlotTree ν τ σ → List DumpLine
  | .node kind info slots =>
    ⟨level, label ++ kind.text ++ style.heading info⟩ ::
      (noteLines style (level + 1) info .start .before ++
        noteLines style (level + 1) info .start .after ++
        dumpSlots style (level + 1) info (standardShape kind).anchors slots ++
        noteLines style (level + 1) info .finish .before ++
        noteLines style (level + 1) info .finish .after)

/-- The lines of the slots of a node, each with the notes of its anchor around it. -/
def dumpSlots (style : DumpStyle ν τ) (level : Nat) (info : ν) (shapes : List AnchorShape) :
    List (Slot ν τ σ) → List DumpLine
  | [] => []
  | slot :: slots =>
    match shapes with
    | [] => []
    | shape :: shapes =>
      noteLines style level info shape.anchor .before ++
        dumpSlot style level shape.anchor slot ++
        noteLines style level info shape.anchor .after ++
        dumpSlots style level info shapes slots

/-- The lines of one slot. -/
def dumpSlot (style : DumpStyle ν τ) (level : Nat) (anchor : Anchor) :
    Slot ν τ σ → List DumpLine
  | .token none => []
  | .token (some token) => [⟨level, anchor.text ++ ": " ++ style.token token⟩]
  | .child none => []
  | .child (some child) => child.dumpLines style level (anchor.text ++ ": ")
  | .list [] _ => []
  | .list (element :: elements) _ =>
    ⟨level, anchor.text ++ ":"⟩ ::
      (element.dumpLines style (level + 1) "" ++ dumpElements style (level + 1) elements)

/-- The lines of a list of trees. -/
def dumpElements (style : DumpStyle ν τ) (level : Nat) : List (SlotTree ν τ σ) → List DumpLine
  | [] => []
  | tree :: trees => tree.dumpLines style level "" ++ dumpElements style level trees
end

/-- The dump of a tree. -/
def dump (style : DumpStyle ν τ) (tree : SlotTree ν τ σ) : String :=
  String.join ((tree.dumpLines style 0 "").map DumpLine.render)

end SlotTree

end GoTrivia
