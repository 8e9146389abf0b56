import CodeAtlas.Syntax.Grammar
import CodeAtlas.Syntax.Go.Lexer

/-!
# The grammar of Go

* `Kind`, `Role`: the nodes and the roles that an outline asks for.
* `Rule`, `rules`: the grammar.
* `parseTree`: the syntax tree of a source text.

Where a block may follow an expression, as in the head of an `if`, no literal of a named type may
stand outside brackets; the rules for expressions take this as an argument.
-/

namespace CodeAtlas.Syntax.Go

/-- The nodes that an outline asks for. -/
inductive Kind where
  | functionDecl
  | methodDecl
  | typeDecl
  | typeSpec
  | importDecl
  | importSpecList
  | importSpec
  | constDecl
  | constSpec
  | varDecl
  | varSpecList
  | varSpec
  | structType
  | fieldList
  | fieldDecl
  | interfaceType
  | methodElem
  | typeElem
  | typeName
  | qualifiedType
  | genericType
  | pointerType
  | call
  | selector
  | composite
  | name
  | dot
  deriving DecidableEq, Inhabited, Repr

/-- The roles that an outline asks for. -/
inductive Role where
  | name
  | type
  | body
  | receiver
  | parameters
  | result
  | path
  | function
  | operand
  | member
  | package
  deriving DecidableEq, Inhabited, Repr

/-- The rules of the grammar. The flag of the rules for expressions says whether a literal of a
named type may stand there. -/
inductive Rule where
  | file
  | terminator
  | declaration
  | statement
  | statements
  | block
  | simple (literals : Bool)
  | expression (literals : Bool)
  | unary (literals : Bool)
  | primary (literals : Bool)
  | operand (literals : Bool)
  | argument
  | literalBody
  | type
  | namedType
  | parameters
  | result
  | constSpec
  | varSpec
  | typeSpec
  | importSpec
  | typeParameters
  | ifStatement
  | caseClause
  deriving DecidableEq, Inhabited, Repr

open Grammar

abbrev G := Grammar Kind Role Rule

def name : G := .leaf (.kind .name) (.wordExcept keywords)

def typeName : G := .leaf (.kind .typeName) (.wordExcept keywords)

/-- A string literal. -/
def text : G := .leaf .plain (.kind .text)

/-- An expression in which literals of named types may stand. -/
def expression : G := .rule (.expression true)

/-- A list of expressions. -/
def expressions (literals : Bool) : G := commas (.rule (.expression literals))

/-- A line end that nobody needs. -/
def blankEnd : G := opt (.silent (.kind .newline))

/-- Entries with a terminator after each, in brackets of the given shape. -/
def entries (left right : String) (g : G) : G :=
  seq [left, .many (seq [g, .rule .terminator]), right]

/-- A list of statements that closes with a brace or with the next clause; what is no statement is
left out token by token. -/
def statementList : G :=
  .many (.either (seq [.rule .statement, opt (.rule .terminator)])
    (.either (.rule .terminator)
      (.leaf .token (.anyExcept [rbrace, "case", "default"]))))

/-- The operators between two operands. -/
def binaryOperators : List String :=
  ["||", "&&", "==", "!=", "<", "<=", ">", ">=", "+", "-", "|", "^", "*", "/", "%", "<<", ">>",
    "&", "&^"]

def assignmentOperators : List String :=
  ["=", ":=", "+=", "-=", "*=", "/=", "%=", "&=", "|=", "^=", "<<=", ">>=", "&^="]

/-- A type written with a keyword or a bracket at its front. -/
def literalType : G :=
  choice [
    plain ["[", "]", .rule .type],
    plain ["[", expression, "]", .rule .type],
    plain ["[", "...", "]", .rule .type],
    plain ["map", "[", .rule .type, "]", .rule .type],
    nodeOf .structType ["struct",
      nodeOf .fieldList [entries lbrace rbrace (nodeOf .fieldDecl [
        choice [
          seq [commas (.field .name name), .field .type (.rule .type)],
          seq [opt "*", .field .type (.rule .namedType)]],
        opt text])]]]

def interfaceElement : G :=
  let term : G := choice [plain ["~", .rule .type], .rule .type]
  choice [
    nodeOf .methodElem [.field .name name, .field .parameters (.rule .parameters),
      opt (.field .result (.rule .result))],
    nodeOf .typeElem [term, .many (seq ["|", term])]]

/-- A function's parameters and result. -/
def signature : G :=
  seq [.field .parameters (.rule .parameters), opt (.field .result (.rule .result))]

def rules : Rule → G
  | .file =>
    seq [
      .many (choice [
        seq [plain ["package", name], .rule .terminator],
        seq [.rule .declaration, .rule .terminator],
        seq [.rule .statement, .rule .terminator],
        .silent (.kind .newline),
        .leaf .token (.anyExcept [])]),
      .silent (.kind .finish)]
  | .terminator =>
    choice [.silent (.kind .newline), ";", .ahead (.leaf .token (.oneOf [")", rbrace])),
      .ahead (.silent (.kind .finish))]
  | .declaration =>
    choice [
      nodeOf .importDecl ["import",
        choice [nodeOf .importSpecList [entries "(" ")" (.rule .importSpec)], .rule .importSpec]],
      nodeOf .constDecl ["const",
        choice [entries "(" ")" (.rule .constSpec), .rule .constSpec]],
      nodeOf .varDecl ["var",
        choice [nodeOf .varSpecList [entries "(" ")" (.rule .varSpec)], .rule .varSpec]],
      nodeOf .typeDecl ["type",
        choice [entries "(" ")" (.rule .typeSpec), .rule .typeSpec]],
      nodeOf .methodDecl ["func", .field .receiver (.rule .parameters), .field .name name, signature,
        opt (.field .body (.rule .block))],
      nodeOf .functionDecl ["func", .field .name name, opt (.rule .typeParameters), signature,
        opt (.field .body (.rule .block))]]
  | .importSpec =>
    nodeOf .importSpec [
      opt (.field .name (.either (.leaf (.kind .dot) (.exact ".")) name)), .field .path text]
  | .constSpec =>
    nodeOf .constSpec [.field .name (commas name),
      opt (seq [opt (.field .type (.rule .type)), "=", expressions true])]
  | .varSpec =>
    nodeOf .varSpec [commas (.field .name name),
      choice [
        seq [.field .type (.rule .type), opt (seq ["=", expressions true])],
        seq ["=", expressions true]]]
  | .typeSpec =>
    nodeOf .typeSpec [.field .name typeName,
      choice [
        seq [.rule .typeParameters, opt "=", .field .type (.rule .type)],
        seq [opt "=", .field .type (.rule .type)]]]
  | .typeParameters =>
    let term : G := choice [plain ["~", .rule .type], .rule .type]
    plain ["[", commas (plain [commas name, term, .many (seq ["|", term])]), opt ",", "]"]
  | .parameters =>
    plain ["(",
      items (choice [
        plain [opt name, "...", .field .type (.rule .type)],
        plain [commas (.field .name name), .field .type (.rule .type)],
        plain [.field .type (.rule .type)]]),
      ")"]
  | .result => choice [.rule .parameters, .rule .type]
  | .namedType =>
    let base : G := choice [
      nodeOf .qualifiedType [.field .package name, ".", .field .name typeName],
      typeName]
    choice [
      nodeOf .genericType [.field .type base,
        plain ["[", commas (seq [.rule .type, .many (seq ["|", .rule .type])]), opt ",", "]"]],
      base]
  | .type =>
    choice [
      plain ["(", .rule .type, ")"],
      nodeOf .pointerType ["*", .rule .type],
      literalType,
      plain ["chan", opt "<-", .rule .type],
      plain ["<-", "chan", .rule .type],
      plain ["func", signature],
      nodeOf .interfaceType ["interface", entries lbrace rbrace interfaceElement],
      .rule .namedType]
  | .block => plain [lbrace, opt (.rule .statements), rbrace]
  | .statements => .node .plain (seq [.ahead (.leaf .token (.anyExcept [rbrace])), statementList])
  | .statement =>
    choice [
      .rule .declaration,
      plain ["return", opt (expressions true)],
      plain [lits ["go", "defer"], expression],
      .rule .ifStatement,
      plain ["for",
        choice [
          .rule .block,
          seq [plain [opt (seq [expressions false, lits [":=", "="]]), "range",
            .rule (.expression false)], .rule .block],
          seq [plain [opt (.rule (.simple false)), ";", opt (.rule (.expression false)), ";",
            opt (.rule (.simple false))], .rule .block],
          seq [.rule (.expression false), .rule .block]]],
      plain ["switch",
        choice [
          seq [opt (.rule (.simple false)), ";", opt (.rule (.simple false)), lbrace],
          seq [opt (.rule (.simple false)), lbrace]],
        .many (.rule .caseClause), rbrace],
      plain ["select", lbrace, .many (.rule .caseClause), rbrace],
      plain [lits ["break", "continue", "goto"], opt name],
      plain ["fallthrough"],
      plain [name, ":", opt (.rule .statement)],
      .rule .block,
      .rule (.simple true)]
  | .ifStatement =>
    plain ["if",
      choice [
        seq [opt (.rule (.simple false)), ";", .rule (.expression false), .rule .block],
        seq [.rule (.expression false), .rule .block]],
      opt (seq ["else", choice [.rule .ifStatement, .rule .block]])]
  | .caseClause =>
    plain [
      choice [
        seq ["case", choice [
          seq [.rule (.simple true), ":"],
          seq [commas (choice [seq [expression, .ahead (lits [",", ":"])], .rule .type]), ":"]]],
        seq ["default", ":"]],
      statementList]
  | .simple literals =>
    plain [expressions literals,
      opt (choice [
        seq [lits assignmentOperators, expressions literals],
        lits ["++", "--"],
        seq ["<-", .rule (.expression literals)]])]
  | .expression literals =>
    .chain (.rule (.unary literals))
      [(.plain, none, seq [lits binaryOperators, .rule (.unary literals)])]
  | .unary literals =>
    choice [
      .rule (.primary literals),
      plain [lits ["+", "-", "!", "^", "*", "&", "<-"], .rule (.unary literals)]]
  | .primary literals =>
    .chain (.rule (.operand literals)) [
      (.kind .call, some .function, plain ["(", items (.rule .argument), ")"]),
      (.kind .selector, some .operand, seq [".", .field .member name]),
      (.plain, some .operand, seq [".", "(", choice [lit "type", .rule .type], ")"]),
      (.plain, some .operand, seq ["[", opt expression, ":", opt expression,
        opt (seq [":", opt expression]), "]"]),
      (.plain, some .operand, seq ["[", items (.rule .argument), "]"])]
  | .operand literals =>
    choice [
      nodeOf .composite [
        .field .type (if literals then choice [literalType, .rule .namedType] else literalType),
        .rule .literalBody],
      plain ["func", signature, .rule .block],
      plain ["(", .rule .argument, ")"],
      .leaf .plain (.kind .number),
      .leaf .plain (.kind .character),
      text,
      name,
      seq [.avoid (lits ["(", "*", "<-"]), .rule .type]]
  | .argument =>
    choice [
      seq [expression, opt "...", .ahead (lits [",", ")", "]"])],
      .rule .type]
  | .literalBody =>
    let element : G := choice [.rule .literalBody, expression]
    plain [lbrace, items (plain [element, opt (seq [":", element])]), blankEnd, rbrace]

/-- The syntax tree of a source text. -/
def parseTree (src : Source) : Tree Kind Role := parse rules .file (scan lexer src.bytes.data.toList)

end CodeAtlas.Syntax.Go
