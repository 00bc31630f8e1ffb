/-!
# Anchors

An anchor names a position inside a node that trivia can attach to.  Every node
has `start` and `finish`; the others belong to the tokens, children and lists that
the shape of the node's kind declares.
-/

set_option autoImplicit false

namespace GoTrivia

/-- A named position inside a node. -/
inductive Anchor
  | start | finish | alternative | args | assign | body | call | caseKw | colon | comma | cond
  | condSemicolon | decl | decls | deferKw | dot | ellipsis | elseKw | elt | elts | fields
  | forKw | callee | funcKw | goKw | high | ifKw | index | indices | init | initSemicolon
  | interfaceKw | key | label | lbrace | lbrack | len | lhs | list | low | lparen | mapKw
  | methods | name | names | op | packageKw | params | paramsClose | paramsOpen | path | post
  | rangeKw | rbrace | rbrack | recv | recvClose | recvOpen | results | resultsClose
  | resultsOpen | returnKw | rhs | rparen | sel | semicolon | specs | star | structKw
  | switchKw | tag | tok | type | typeParams | typeParamsClose | typeParamsOpen | value
  | values | x | y
deriving DecidableEq, Repr, Inhabited

namespace Anchor

/-- Every anchor, in order. -/
def all : List Anchor :=
  [start, finish, alternative, args, assign, body, call, caseKw, colon, comma, cond,
   condSemicolon, decl, decls, deferKw, dot, ellipsis, elseKw, elt, elts, fields, forKw,
   callee, funcKw, goKw, high, ifKw, index, indices, init, initSemicolon, interfaceKw, key,
   label, lbrace, lbrack, len, lhs, list, low, lparen, mapKw, methods, name, names, op,
   packageKw, params, paramsClose, paramsOpen, path, post, rangeKw, rbrace, rbrack, recv,
   recvClose, recvOpen, results, resultsClose, resultsOpen, returnKw, rhs, rparen, sel,
   semicolon, specs, star, structKw, switchKw, tag, tok, type, typeParams, typeParamsClose,
   typeParamsOpen, value, values, x, y]

theorem mem_all (anchor : Anchor) : anchor ∈ all := by
  cases anchor <;> decide

/-- The name of an anchor in dumps and messages. -/
def text : Anchor → String
  | start => "Start" | finish => "End" | alternative => "Alternative" | args => "Args"
  | assign => "Assign" | body => "Body" | call => "Call" | caseKw => "Case" | colon => "Colon"
  | comma => "Comma" | cond => "Cond" | condSemicolon => "CondSemicolon" | decl => "Decl"
  | decls => "Decls" | deferKw => "Defer" | dot => "Dot" | ellipsis => "Ellipsis"
  | elseKw => "Else" | elt => "Elt" | elts => "Elts" | fields => "Fields" | forKw => "For"
  | callee => "Fun" | funcKw => "Func" | goKw => "Go" | high => "High" | ifKw => "If"
  | index => "Index" | indices => "Indices" | init => "Init" | initSemicolon => "InitSemicolon"
  | interfaceKw => "Interface" | key => "Key" | label => "Label" | lbrace => "Lbrace"
  | lbrack => "Lbrack" | len => "Len" | lhs => "Lhs" | list => "List" | low => "Low"
  | lparen => "Lparen" | mapKw => "Map" | methods => "Methods" | name => "Name"
  | names => "Names" | op => "Op" | packageKw => "Package" | params => "Params"
  | paramsClose => "ParamsClose" | paramsOpen => "ParamsOpen" | path => "Path" | post => "Post"
  | rangeKw => "Range" | rbrace => "Rbrace" | rbrack => "Rbrack" | recv => "Recv"
  | recvClose => "RecvClose" | recvOpen => "RecvOpen" | results => "Results"
  | resultsClose => "ResultsClose" | resultsOpen => "ResultsOpen" | returnKw => "Return"
  | rhs => "Rhs" | rparen => "Rparen" | sel => "Sel" | semicolon => "Semicolon"
  | specs => "Specs" | star => "Star" | structKw => "Struct" | switchKw => "Switch"
  | tag => "Tag" | tok => "Tok" | type => "Type" | typeParams => "TypeParams"
  | typeParamsClose => "TypeParamsClose" | typeParamsOpen => "TypeParamsOpen"
  | value => "Value" | values => "Values" | x => "X" | y => "Y"

/-- The anchor with a given name. -/
def ofText? (name : String) : Option Anchor := all.find? (·.text == name)

/-- Whether every node has the anchor. -/
def isImplicit (anchor : Anchor) : Bool := anchor == start || anchor == finish

end Anchor

end GoTrivia
