import GoTrivia.Error
import GoTrivia.Text.Quoted
import GoTrivia.Tree.Dump
import GoTrivia.Trivia.Decoration

/-!
# Decorated trees

The tree that is edited: it has no offsets, and its trivia hangs on the anchors of
its nodes.  A node can be moved, copied or dropped, and its comments go with it.

Nodes are built by constructors that fill the prescribed tokens, and changed one
slot at a time.  A change of the wrong kind is refused and leaves the tree as it
was; a change of a list is refused if it names a place the list does not have.
-/

set_option autoImplicit false

namespace GoTrivia

/-- A tree with trivia. -/
abbrev Decorated := SlotTree Decorations String Unit

/-- A slot of a decorated tree. -/
abbrev DecoratedSlot := Slot Decorations String Unit

namespace Decorated

/-! ## Construction -/

/-- A node with every slot empty and no trivia. -/
def vacant (kind : NodeKind) : Decorated := SlotTree.vacant kind .empty

/-- The node with the slot of an anchor filled. -/
def fill (tree : Decorated) (anchor : Anchor) (slot : DecoratedSlot) : Decorated :=
  tree.setSlot anchor slot

/-- The node with the token its shape prescribes for an anchor.  Where the text is free
nothing is filled. -/
def fillFixed (tree : Decorated) (anchor : Anchor) : Decorated :=
  match (standardShape tree.kind).find? anchor with
  | some ⟨_, .token (.fixed text), _, _⟩ => tree.fill anchor (.token (some text))
  | _ => tree

/-- A name. -/
def ident (name : String) : Decorated := (vacant .ident).fill .name (.token (some name))

/-- A literal, spelled with its quotes. -/
def basicLit (value : String) : Decorated :=
  (vacant .basicLit).fill .value (.token (some value))

/-- An expression as a statement. -/
def exprStmt (x : Decorated) : Decorated := (vacant .exprStmt).fill .x (.child (some x))

/-- A call with its parentheses. -/
def call (callee : Decorated) (args : List Decorated) : Decorated :=
  vacant .callExpr |>.fill .callee (.child (some callee)) |>.fillFixed .lparen
    |>.fill .args (.list args ()) |>.fillFixed .rparen

/-- An assignment with a given operator. -/
def assign (lhs : List Decorated) (tok : String) (rhs : List Decorated) : Decorated :=
  vacant .assignStmt |>.fill .lhs (.list lhs ()) |>.fill .tok (.token (some tok))
    |>.fill .rhs (.list rhs ())

/-- A return statement with its keyword. -/
def returnStmt (results : List Decorated) : Decorated :=
  vacant .returnStmt |>.fillFixed .returnKw |>.fill .results (.list results ())

/-! ## Trivia -/

/-- The decorations of the root. -/
abbrev decorations (tree : Decorated) : Decorations := tree.info

/-- The tree with the decoration of an anchor of its root changed. -/
def modifyDecoration (tree : Decorated) (anchor : Anchor) (change : Decoration → Decoration) :
    Decorated :=
  tree.withInfo (tree.decorations.insert anchor (change (tree.decorations.ofAnchor anchor)))

/-- The groups on one side of a decoration. -/
def groups (decoration : Decoration) : Side → List TriviaGroup
  | .before => decoration.before
  | .after => decoration.after

/-- The decoration with one more group on a side. -/
def addGroup (decoration : Decoration) (group : TriviaGroup) : Side → Decoration
  | .before => { decoration with before := decoration.before ++ [group] }
  | .after => { decoration with after := decoration.after ++ [group] }

/-! ## Changing slots -/

/-- Sets the token of an anchor and gives back the previous one. -/
def setToken (tree : Decorated) (anchor : Anchor) (text : Option String) :
    Except TreeError (Option String × Decorated) :=
  match tree.slot? anchor with
  | some (.token old) => .ok (old, tree.setSlot anchor (.token text))
  | _ => .error (.mismatch tree.kind anchor .notToken)

/-- Sets the child of an anchor and gives back the previous one. -/
def setChild (tree : Decorated) (anchor : Anchor) (child : Option Decorated) :
    Except TreeError (Option Decorated × Decorated) :=
  match tree.slot? anchor with
  | some (.child old) => .ok (old, tree.setSlot anchor (.child child))
  | _ => .error (.mismatch tree.kind anchor .notNode)

/-- A change of a list of trees. -/
inductive ListEdit
  | insert (index : Nat) (node : Decorated)
  | remove (index : Nat)
  | swap (first second : Nat)
  | reverse
  | clear

/-- Why a list was not changed: the anchor has no list, or the list has no such
place.  Places are counted in the order the change names them. -/
inductive ListFault
  | notAList
  | outOfRange (place : Nat)
deriving DecidableEq, Repr

/-- The list after a change. -/
def ListEdit.apply (edit : ListEdit) (nodes : List Decorated) :
    Except ListFault (List Decorated) :=
  match edit with
  | .insert index node =>
    if index ≤ nodes.length then .ok (nodes.take index ++ node :: nodes.drop index)
    else .error (.outOfRange 0)
  | .remove index =>
    if index < nodes.length then .ok (nodes.eraseIdx index) else .error (.outOfRange 0)
  | .swap first second =>
    match nodes[first]?, nodes[second]? with
    | none, _ => .error (.outOfRange 0)
    | _, none => .error (.outOfRange 1)
    | some a, some b => .ok ((nodes.set first b).set second a)
  | .reverse => .ok nodes.reverse
  | .clear => .ok []

/-- The tree with the list of an anchor changed. -/
def editList (tree : Decorated) (anchor : Anchor) (edit : ListEdit) :
    Except ListFault Decorated :=
  match tree.elements? anchor with
  | some nodes => (edit.apply nodes).map fun nodes => tree.setSlot anchor (.list nodes ())
  | none => .error .notAList

/-! ## Views -/

/-- Forgets all trivia. -/
def erase (tree : Decorated) : Bare := tree.map (fun _ => ()) id id

/-- Whether two trees are the same, in whatever order their decorations were
inserted. -/
def sameTree (left right : Decorated) : Bool :=
  left.agrees OrderedMap.sameEntries (· == ·) (fun _ _ => true) right

/-- A trivia group in brackets. -/
def groupText (group : TriviaGroup) : String :=
  "[" ++ group.spacing.text ++ String.join (group.comments.map fun c => " " ++ Text.quote c) ++ "]"

/-- The note line for one side of an anchor. -/
def noteTexts (decorations : Decorations) (anchor : Anchor) (side : Side) : List String :=
  match groups (decorations.ofAnchor anchor) side with
  | [] => []
  | groups =>
    [anchor.text ++ "." ++ side.text ++ ":" ++
      String.join (groups.map fun group => " " ++ groupText group)]

/-- Shows trivia on lines around its anchor. -/
def dumpStyle : DumpStyle Decorations String where
  heading _ := ""
  token := Text.quote
  notes := noteTexts

/-- The dump of a decorated tree. -/
def dump (tree : Decorated) : String := SlotTree.dump dumpStyle tree

end Decorated

/-- A decorated tree with the metadata of its file. -/
structure DecoratedTree where
  root : Decorated
  metadata : Metadata

namespace DecoratedTree

/-- The metadata line by line, then the tree. -/
def dump (tree : DecoratedTree) : String :=
  String.join (tree.metadata.entries.map fun (key, value) =>
    "#" ++ key ++ " = " ++ value ++ "\n") ++ Decorated.dump tree.root

/-- Whether two trees and their metadata are the same. -/
def sameTree (left right : DecoratedTree) : Bool :=
  Decorated.sameTree left.root right.root && left.metadata.sameEntries right.metadata

end DecoratedTree

end GoTrivia
