import BuildTyping.Number.Shortest
import BuildTyping.Syntax.Stmt
import BuildTyping.Text.Outline
import BuildTyping.Text.Quoted

/-!
# The outline of a program

A program as an outline of its tree, with the id of every expression and all spans.
-/

namespace BuildTyping

namespace Outline

def ofString (s : String) : Outline := atom (quote s)

def ofOption : Option Outline → Outline
  | none => atom "None"
  | some value => tuple "Some" [value]

def ofPosition (p : Position) : Outline :=
  tuple "Position" [atom (toString p.offset), ofString p.file]

def ofSpan (span : Span) : Outline :=
  record "Span" [("start", ofPosition span.start), ("end", ofPosition span.stop)]

def ofLiteral : Literal → Outline
  | .string value => tuple "String" [ofString value]
  | .int value => tuple "Int" [atom (toString value)]
  | .float value => tuple "Float" [atom value.text]
  | .bool value => tuple "Bool" [atom (toString value)]
  | .none => atom "None"

mutual

def ofExpr : Expr → Outline
  | ⟨id, span, shape⟩ =>
    record "Expr" [("id", tuple "ExprId" [atom (toString id)]), ("kind", ofShape shape),
      ("span", ofSpan span)]

def ofShape : Shape Expr → Outline
  | .literal value => tuple "Literal" [ofLiteral value]
  | .name name => tuple "Identifier" [ofString name]
  | .list elements => tuple "List" [list (ofExprs elements)]
  | .tuple elements => tuple "Tuple" [list (ofExprs elements)]
  | .dict entries => tuple "Dict" [list (ofEntries entries)]
  | .listComp element clauses =>
    record "ListComprehension"
      [("element", ofExpr element), ("clauses", list (ofClauses clauses))]
  | .dictComp entry clauses =>
    record "DictComprehension"
      [("entry", ofEntry entry), ("clauses", list (ofClauses clauses))]
  | .call callee arguments =>
    record "Call" [("callee", ofExpr callee), ("arguments", list (ofArguments arguments))]
  | .binary op left right =>
    record "Binary"
      [("left", ofExpr left), ("operator", atom op.name), ("right", ofExpr right)]
  | .unary op operand =>
    record "Unary" [("operator", atom op.name), ("operand", ofExpr operand)]
  | .member object name =>
    record "Attribute" [("object", ofExpr object), ("name", ofString name)]
  | .index object key => record "Index" [("object", ofExpr object), ("index", ofExpr key)]
  | .slice object lower upper step =>
    record "Slice" [("object", ofExpr object), ("lower", ofBound lower),
      ("upper", ofBound upper), ("step", ofBound step)]
  | .conditional whenTrue condition whenFalse =>
    record "Conditional" [("then_expr", ofExpr whenTrue), ("condition", ofExpr condition),
      ("else_expr", ofExpr whenFalse)]

def ofExprs : List Expr → List Outline
  | [] => []
  | e :: es => ofExpr e :: ofExprs es

def ofBound : Option Expr → Outline
  | none => ofOption none
  | some e => ofOption (some (ofExpr e))

def ofEntry : Entry Expr → Outline
  | ⟨key, value⟩ => record "DictEntry" [("key", ofExpr key), ("value", ofExpr value)]

def ofEntries : List (Entry Expr) → List Outline
  | [] => []
  | entry :: entries => ofEntry entry :: ofEntries entries

def ofClause : Clause Expr → Outline
  | .each target iterable =>
    record "For" [("target", ofExpr target), ("iterable", ofExpr iterable)]
  | .only condition => tuple "If" [ofExpr condition]

def ofClauses : List (Clause Expr) → List Outline
  | [] => []
  | clause :: clauses => ofClause clause :: ofClauses clauses

def ofArgument : Argument Expr → Outline
  | .positional value => tuple "Positional" [ofExpr value]
  | .keyword name nameSpan value =>
    record "Keyword" [("name", ofString name), ("name_span", ofSpan nameSpan),
      ("value", ofExpr value)]
  | .unpack value => tuple "Unpack" [ofExpr value]
  | .unpackKeywords value => tuple "UnpackKeywords" [ofExpr value]

def ofArguments : List (Argument Expr) → List Outline
  | [] => []
  | argument :: arguments => ofArgument argument :: ofArguments arguments

end

def ofParameterKind : ParameterKind → Outline
  | .normal => atom "Normal"
  | .varArgs => atom "VarArgs"
  | .kwArgs => atom "KwArgs"

def ofParameter (p : Parameter) : Outline :=
  record "Param" [("name", ofString p.name), ("kind", ofParameterKind p.kind),
    ("default", ofOption (p.default.map (ofExpr))), ("span", ofSpan p.span)]

mutual

def ofStmt : Stmt → Outline
  | ⟨span, form⟩ => record "Stmt" [("kind", ofForm form), ("span", ofSpan span)]

def ofForm : Form Stmt → Outline
  | .expression value => tuple "Expression" [ofExpr value]
  | .assign target value =>
    record "Assign" [("target", ofExpr target), ("value", ofExpr value)]
  | .augment op target value =>
    record "AugAssign" [("target", ofExpr target), ("operator", atom op.name),
      ("value", ofExpr value)]
  | .define name parameters body =>
    tuple "Def" [record "FnDeclStmt" [("identifier", ofString name),
      ("parameters", list (parameters.map (ofParameter))), ("body", list (ofStmts body))]]
  | .return_ value => tuple "Return" [ofOption (value.map (ofExpr))]
  | .branch condition body other =>
    record "If" [("condition", ofExpr condition), ("then_body", list (ofStmts body)),
      ("else_body", list (ofStmts other))]
  | .loop target iterable body =>
    record "For" [("target", ofExpr target), ("iterable", ofExpr iterable),
      ("body", list (ofStmts body))]
  | .pass => atom "Pass"
  | .break_ => atom "Break"
  | .continue_ => atom "Continue"

def ofStmts : List Stmt → List Outline
  | [] => []
  | s :: ss => ofStmt s :: ofStmts ss

end

end Outline

def Program.outline (p : Program) : Outline :=
  .record "Module" [("body", .list (Outline.ofStmts p.body)),
    ("file", Outline.ofString p.file), ("span", Outline.ofSpan ⟨.ofOffset 0 p.file, p.stop⟩)]

end BuildTyping
