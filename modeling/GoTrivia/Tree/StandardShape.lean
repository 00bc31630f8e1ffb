import GoTrivia.Tree.Shape

/-!
# The shapes of Go

One shape for every node kind.  Anchors follow the source order of the construct,
delimiters that come in pairs are filled together, and the gaps are those of the
canonical layout.
-/

set_option autoImplicit false

namespace GoTrivia

namespace StandardShape

/-- Elements separated by commas on one line. -/
def commas : ListLayout := ⟨some ",", .inline⟩

/-- Elements on lines of their own. -/
def lines : ListLayout := ⟨none, .lines⟩

/-- Elements on lines of their own when parenthesised. -/
def grouped : ListLayout := ⟨none, .grouped⟩

/-- A token with a prescribed text. -/
def token (anchor : Anchor) (text : String) : AnchorShape := ⟨anchor, .token (.fixed text), .required, .glue⟩

/-- A token spelled as in the source. -/
def free (anchor : Anchor) : AnchorShape := ⟨anchor, .token .free, .required, .glue⟩

/-- A child node. -/
def child (anchor : Anchor) : AnchorShape := ⟨anchor, .child, .required, .glue⟩

/-- A list of nodes. -/
def list (anchor : Anchor) (layout : ListLayout) : AnchorShape :=
  ⟨anchor, .list layout, .required, .glue⟩

/-- The anchors of each kind. -/
def anchors : NodeKind → List AnchorShape
  | .file =>
    [token .packageKw "package", (child .name).spaced, (list .decls lines).optional]
  | .genDecl =>
    [free .tok, (token .lparen "(").optional.spaced, (list .specs grouped).optional.spaced,
     (token .rparen ")").together .lparen]
  | .importSpec => [(child .name).optional, (child .path).spaced]
  | .valueSpec =>
    [list .names commas, (child .type).optional.spaced, (token .assign "=").optional.spaced,
     ((list .values commas).together .assign).spaced]
  | .typeSpec =>
    [child .name, (token .typeParamsOpen "[").optional,
     (list .typeParams commas).together .typeParamsOpen,
     (token .typeParamsClose "]").together .typeParamsOpen,
     (token .assign "=").optional.spaced, (child .value).spaced]
  | .funcDecl =>
    [token .funcKw "func", (token .recvOpen "(").optional.spaced,
     (list .recv commas).together .recvOpen, (token .recvClose ")").together .recvOpen,
     (child .name).spaced, (token .typeParamsOpen "[").optional,
     (list .typeParams commas).together .typeParamsOpen,
     (token .typeParamsClose "]").together .typeParamsOpen,
     token .paramsOpen "(", (list .params commas).optional, token .paramsClose ")",
     (token .resultsOpen "(").optional.spaced, (list .results commas).optional.spaced,
     (token .resultsClose ")").together .resultsOpen, (child .body).optional.spaced]
  | .field =>
    [(list .names commas).optional, (child .type).after .spaceUnlessParen,
     (child .tag).optional.spaced]
  | .ident => [free .name]
  | .basicLit => [free .value]
  | .compositeLit =>
    [(child .type).optional, token .lbrace "\x7b", (list .elts commas).optional,
     token .rbrace "\x7d"]
  | .funcLit => [child .type, (child .body).spaced]
  | .parenExpr => [token .lparen "(", child .x, token .rparen ")"]
  | .selectorExpr => [child .x, token .dot ".", child .sel]
  | .indexExpr => [child .x, token .lbrack "[", child .index, token .rbrack "]"]
  | .indexListExpr =>
    [child .x, token .lbrack "[", list .indices commas, token .rbrack "]"]
  | .sliceExpr =>
    [child .x, token .lbrack "[", (child .low).optional, token .colon ":",
     (child .high).optional, token .rbrack "]"]
  | .typeAssertExpr =>
    [child .x, token .dot ".", token .lparen "(", child .type, token .rparen ")"]
  | .callExpr =>
    [child .callee, token .lparen "(", (list .args commas).optional,
     (token .ellipsis "...").optional, token .rparen ")"]
  | .starExpr => [token .star "*", child .x]
  | .unaryExpr => [free .op, child .x]
  | .binaryExpr => [child .x, (free .op).spaced, (child .y).spaced]
  | .keyValueExpr => [child .key, token .colon ":", (child .value).spaced]
  | .arrayType =>
    [token .lbrack "[", (child .len).optional, token .rbrack "]", child .elt]
  | .mapType =>
    [token .mapKw "map", token .lbrack "[", child .key, token .rbrack "]", child .value]
  | .funcType =>
    [(token .funcKw "func").optional, token .paramsOpen "(", (list .params commas).optional,
     token .paramsClose ")", (token .resultsOpen "(").optional.spaced,
     (list .results commas).optional.spaced, (token .resultsClose ")").together .resultsOpen]
  | .structType =>
    [token .structKw "struct", (token .lbrace "\x7b").after .spaceIfContent,
     (list .fields lines).optional, token .rbrace "\x7d"]
  | .interfaceType =>
    [token .interfaceKw "interface", (token .lbrace "\x7b").after .spaceIfContent,
     (list .methods lines).optional, token .rbrace "\x7d"]
  | .ellipsis => [token .ellipsis "...", (child .elt).optional]
  | .blockStmt => [token .lbrace "\x7b", (list .list lines).optional, token .rbrace "\x7d"]
  | .exprStmt => [child .x]
  | .assignStmt => [list .lhs commas, (free .tok).spaced, (list .rhs commas).spaced]
  | .incDecStmt => [child .x, free .tok]
  | .returnStmt => [token .returnKw "return", (list .results commas).optional.spaced]
  | .branchStmt => [free .tok, (child .label).optional.spaced]
  | .declStmt => [child .decl]
  | .goStmt => [token .goKw "go", (child .call).spaced]
  | .deferStmt => [token .deferKw "defer", (child .call).spaced]
  | .ifStmt =>
    [token .ifKw "if", (child .init).optional.spaced, (token .semicolon ";").together .init,
     (child .cond).spaced, (child .body).spaced, (token .elseKw "else").optional.spaced,
     ((child .alternative).together .elseKw).spaced]
  | .forStmt =>
    [token .forKw "for", (child .init).optional.spaced, (token .initSemicolon ";").optional,
     (child .cond).optional.spaced, (token .condSemicolon ";").together .initSemicolon,
     (child .post).optional.spaced, (child .body).spaced]
  | .rangeStmt =>
    [token .forKw "for", (child .key).optional.spaced, (token .comma ",").together .value,
     (child .value).optional.spaced, ((free .tok).together .key).spaced,
     (token .rangeKw "range").spaced, (child .x).spaced, (child .body).spaced]
  | .switchStmt =>
    [token .switchKw "switch", (child .init).optional.spaced,
     (token .semicolon ";").together .init, (child .tag).optional.spaced, (child .body).spaced]
  | .caseClause =>
    [free .caseKw, (list .list commas).optional.spaced, token .colon ":",
     (list .body lines).optional]
  | .badExpr => []
  | .badStmt => []
  | .badDecl => []

end StandardShape

/-- The shape of a node kind. -/
def standardShape (kind : NodeKind) : Shape := ⟨kind, StandardShape.anchors kind⟩

/-- No shape declares an anchor that every node has. -/
theorem not_isImplicit_standardShape :
    NodeKind.all.all (fun kind =>
      (standardShape kind).anchors.all (fun shape => !shape.anchor.isImplicit)) = true := by
  decide

end GoTrivia
