/-!
# Kinds of node

The syntactic constructs of Go that trees distinguish.  The three `bad` kinds
stand for source text that no rule of the grammar accepts.
-/

set_option autoImplicit false

namespace GoTrivia

/-- The construct a node stands for. -/
inductive NodeKind
  | file | genDecl | importSpec | valueSpec | typeSpec | funcDecl | field
  | ident | basicLit | compositeLit | funcLit | parenExpr | selectorExpr | indexExpr
  | indexListExpr | sliceExpr | typeAssertExpr | callExpr | starExpr | unaryExpr | binaryExpr
  | keyValueExpr
  | arrayType | mapType | funcType | structType | interfaceType | ellipsis
  | blockStmt | exprStmt | assignStmt | incDecStmt | returnStmt | branchStmt | declStmt | goStmt
  | deferStmt | ifStmt | forStmt | rangeStmt | switchStmt | caseClause
  | badExpr | badStmt | badDecl
deriving DecidableEq, Repr, Inhabited

namespace NodeKind

/-- Every kind, in order. -/
def all : List NodeKind :=
  [file, genDecl, importSpec, valueSpec, typeSpec, funcDecl, field,
   ident, basicLit, compositeLit, funcLit, parenExpr, selectorExpr, indexExpr,
   indexListExpr, sliceExpr, typeAssertExpr, callExpr, starExpr, unaryExpr, binaryExpr,
   keyValueExpr,
   arrayType, mapType, funcType, structType, interfaceType, ellipsis,
   blockStmt, exprStmt, assignStmt, incDecStmt, returnStmt, branchStmt, declStmt, goStmt,
   deferStmt, ifStmt, forStmt, rangeStmt, switchStmt, caseClause,
   badExpr, badStmt, badDecl]

theorem mem_all (kind : NodeKind) : kind ∈ all := by
  cases kind <;> decide

/-- The name of a kind in dumps and messages. -/
def text : NodeKind → String
  | file => "File" | genDecl => "GenDecl" | importSpec => "ImportSpec"
  | valueSpec => "ValueSpec" | typeSpec => "TypeSpec" | funcDecl => "FuncDecl"
  | field => "Field" | ident => "Ident" | basicLit => "BasicLit"
  | compositeLit => "CompositeLit" | funcLit => "FuncLit" | parenExpr => "ParenExpr"
  | selectorExpr => "SelectorExpr" | indexExpr => "IndexExpr"
  | indexListExpr => "IndexListExpr" | sliceExpr => "SliceExpr"
  | typeAssertExpr => "TypeAssertExpr" | callExpr => "CallExpr" | starExpr => "StarExpr"
  | unaryExpr => "UnaryExpr" | binaryExpr => "BinaryExpr" | keyValueExpr => "KeyValueExpr"
  | arrayType => "ArrayType" | mapType => "MapType" | funcType => "FuncType"
  | structType => "StructType" | interfaceType => "InterfaceType" | ellipsis => "Ellipsis"
  | blockStmt => "BlockStmt" | exprStmt => "ExprStmt" | assignStmt => "AssignStmt"
  | incDecStmt => "IncDecStmt" | returnStmt => "ReturnStmt" | branchStmt => "BranchStmt"
  | declStmt => "DeclStmt" | goStmt => "GoStmt" | deferStmt => "DeferStmt"
  | ifStmt => "IfStmt" | forStmt => "ForStmt" | rangeStmt => "RangeStmt"
  | switchStmt => "SwitchStmt" | caseClause => "CaseClause"
  | badExpr => "BadExpr" | badStmt => "BadStmt" | badDecl => "BadDecl"

/-- The kind with a given name. -/
def ofText? (name : String) : Option NodeKind := all.find? (·.text == name)

end NodeKind

end GoTrivia
