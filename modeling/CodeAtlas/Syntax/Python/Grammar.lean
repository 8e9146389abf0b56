import CodeAtlas.Syntax.Grammar
import CodeAtlas.Syntax.Python.Lexer

/-!
# The grammar of Python

* `Kind`, `Role`: the nodes and the roles that an outline asks for.
* `Rule`, `rules`: the grammar.
* `parseTree`: the syntax tree of a source text.

Operators of all ranks make one chain, because an outline never asks how they nest.
-/

namespace CodeAtlas.Syntax.Python

/-- The nodes that an outline asks for. -/
inductive Kind where
  | functionDef
  | classDef
  | decorated
  | decorator
  | importStatement
  | importFrom
  | aliased
  | wildcard
  | exprStatement
  | assignment
  | call
  | attribute
  | name
  | string
  | type
  | defaultParam
  | typedDefault
  deriving DecidableEq, Inhabited, Repr

/-- The roles that an outline asks for. -/
inductive Role where
  | name
  | parameters
  | returnType
  | body
  | superclasses
  | definition
  | moduleName
  | alternative
  | left
  | type
  | value
  | function
  | object
  | attribute
  deriving DecidableEq, Inhabited, Repr

/-- The rules of the grammar. -/
inductive Rule where
  | file
  | statement
  | line
  | simple
  | suite
  | definition
  | decorator
  | parameter
  | parameters
  | typeParameters
  | arguments
  | argument
  | assignment
  | rightSide
  | expressions
  | targets
  | target
  | element
  | expression
  | operand
  | primary
  | atom
  | string
  | hole
  | clauses
  | subscript
  | dotted
  | pattern
  | withItem
  deriving DecidableEq, Inhabited, Repr

open Grammar

abbrev G := Grammar Kind Role Rule

def name : G := .leaf (.kind .name) (.wordExcept keywords)

/-- A type annotation; a name behind stars stands for several types. -/
def typeHint : G :=
  .node (.kind .type) (choice [.rule .expression, plain [lits ["*", "**"], name]])

/-- A colon and the block behind it. -/
def block : G := seq [":", .rule .suite]

/-- The marks of assignments that compute. -/
def updateOperators : List String :=
  ["+=", "-=", "*=", "/=", "@=", "//=", "%=", "**=", ">>=", "<<=", "&=", "^=", "|="]

/-- The operators between two operands. -/
def operator : G :=
  choice [
    lits ["+", "-", "*", "/", "//", "%", "@", "**", "|", "&", "^", "<<", ">>", "<", "<=", "==",
      "!=", ">=", ">", "<>", "and", "or", "in"],
    seq ["not", "in"],
    seq ["is", opt "not"]]

/-- Names with points between them, or points alone, as an import gives its module. -/
def moduleName : G :=
  choice [plain [plain [many1 (lits [".", "..."])], opt (.rule .dotted)], .rule .dotted]

/-- The names that an import lists. -/
def importList : G :=
  commas (.field .name (choice [
    nodeOf .aliased [.field .name (.rule .dotted), "as", .field .alternative name],
    .rule .dotted]))

/-- A value handed out by a generator. -/
def yielding : G :=
  plain ["yield", choice [seq ["from", .rule .expression], opt (.rule .expressions)]]

/-- A function without a name. Its parameters have no annotations. -/
def lambda : G :=
  let parameter : G := choice [
    nodeOf .defaultParam [.field .name name, "=", .field .value (.rule .expression)],
    plain [lits ["*", "**"], name],
    .leaf .plain (.oneOf ["*", "/"]),
    name]
  plain ["lambda", opt (plain [commas parameter, opt ","]), ":", .rule .expression]

/-- The end of a statement, which is left to be read. -/
def lineEnd : G := .ahead (choice [.silent (.kind .newline), ";"])

def rules : Rule → G
  | .file =>
    seq [
      .many (choice [.rule .statement, .silent (.kind .newline), .silent (.kind .indent),
        .silent (.kind .dedent), .leaf .token (.anyExcept [])]),
      .silent (.kind .finish)]
  | .statement =>
    choice [
      .rule .definition,
      nodeOf .decorated [many1 (.rule .decorator), .field .definition (.rule .definition)],
      plain ["if", .rule .expression, block,
        .many (plain ["elif", .rule .expression, block]), opt (plain ["else", block])],
      plain [opt "async", "for", .rule .targets, "in", .rule .expressions, block,
        opt (plain ["else", block])],
      plain ["while", .rule .expression, block, opt (plain ["else", block])],
      plain ["try", block,
        .many (plain ["except", opt "*",
          opt (seq [.rule .expressions, opt (seq ["as", .rule .expression])]), block]),
        opt (plain ["else", block]), opt (plain ["finally", block])],
      plain [opt "async", "with",
        choice [
          seq [plain ["(", commas (.rule .withItem), opt ",", ")"], block],
          seq [plain [commas (.rule .withItem)], block]]],
      plain ["match", .rule .expressions, ":", .silent (.kind .indent),
        plain [
          .many (plain ["case", .many (.rule .pattern),
            opt (plain ["if", .rule .expression]), block]),
          .silent (.kind .dedent)]],
      .rule .line]
  | .line =>
    seq [.rule .simple, .many (seq [";", .rule .simple]), opt ";", .silent (.kind .newline)]
  | .suite =>
    choice [
      seq [.silent (.kind .indent),
        .field .body (plain [
          .many (choice [.rule .statement, .silent (.kind .newline),
            .leaf .token (.anyExcept [])]),
          .silent (.kind .dedent)])],
      .field .body (plain [.rule .line]),
      .field .body (plain [.silent (.kind .newline)])]
  | .definition =>
    choice [
      nodeOf .functionDef [opt "async", "def", .field .name name, opt (.rule .typeParameters),
        .field .parameters (.rule .parameters), opt (seq ["->", .field .returnType typeHint]),
        block],
      nodeOf .classDef ["class", .field .name name, opt (.rule .typeParameters),
        opt (.field .superclasses (.rule .arguments)), block]]
  | .decorator => nodeOf .decorator ["@", .rule .expression, .silent (.kind .newline)]
  | .typeParameters => plain ["[", items typeParameter, "]"]
  | .parameters => plain ["(", items (.rule .parameter), ")"]
  | .parameter =>
    choice [
      nodeOf .typedDefault [.field .name name, ":", .field .type typeHint, "=",
        .field .value (.rule .expression)],
      nodeOf .defaultParam [.field .name (choice [name, .rule .atom]), "=",
        .field .value (.rule .expression)],
      plain [choice [name, plain [lits ["*", "**"], name]], ":", .field .type typeHint],
      plain [lits ["*", "**"], name],
      .leaf .plain (.oneOf ["*", "/"]),
      name,
      .rule .atom]
  | .simple =>
    choice [
      plain ["from", "__future__", "import", choice [
        importList, seq ["(", importList, opt ",", ")"]]],
      nodeOf .importFrom ["from", .field .moduleName moduleName, "import", choice [
        .leaf (.kind .wildcard) (.exact "*"),
        seq ["(", importList, opt ",", ")"],
        importList]],
      nodeOf .importStatement ["import", importList],
      plain ["return", opt (.rule .expressions)],
      plain ["raise", opt (.rule .expressions), opt (seq ["from", .rule .expression])],
      plain ["del", .rule .expressions],
      plain ["assert", .rule .expressions],
      plain [lits ["global", "nonlocal"], commas name],
      plain [lits ["pass", "break", "continue"]],
      plain ["type", .ahead name, typeHint, "=", typeHint],
      nodeOf .exprStatement [.rule .assignment],
      nodeOf .exprStatement [choice [yielding, seq [commas (.rule .element), opt ","]], lineEnd],
      plain ["print", opt ">>", commas (.rule .expression), opt ","],
      plain ["exec", .rule .expression, opt (seq ["in", commas (.rule .expression)])]]
  | .assignment =>
    choice [
      nodeOf .assignment [.field .left (.rule .targets),
        choice [
          seq [":", .field .type typeHint, opt (seq ["=", .rule .rightSide])],
          seq ["=", .rule .rightSide]]],
      plain [.rule .targets, lits updateOperators, .rule .rightSide]]
  | .rightSide =>
    choice [
      .rule .assignment,
      yielding,
      .rule .expressions]
  | .expressions =>
    choice [
      seq [.rule .element, .avoid ","],
      plain [.rule .element, ",", items (.rule .element)]]
  | .targets =>
    choice [
      seq [.rule .target, .avoid ","],
      plain [.rule .target, ",", items (.rule .target)]]
  | .target => choice [plain ["*", .rule .target], .rule .primary]
  | .element =>
    choice [
      plain [lits ["*", "**"], .rule .expression],
      .rule .expression]
  | .expression =>
    choice [
      plain [name, ":=", .rule .expression],
      lambda,
      .chain (.rule .operand) [
        (.plain, none, seq [operator, choice [lambda, .rule .operand]]),
        (.plain, none, seq ["if", .rule .expression, "else", .rule .expression])]]
  | .operand =>
    choice [
      plain [lits ["not", "-", "+", "~", "await"], .rule .operand],
      .rule .primary]
  | .primary =>
    .chain (.rule .atom) [
      (.kind .call, some .function, .rule .arguments),
      (.kind .attribute, some .object, seq [".", .field .attribute name]),
      (.plain, some .value, seq ["[", commas (.rule .subscript), opt ",", "]"])]
  | .atom =>
    choice [
      name,
      .rule .string,
      .leaf .plain (.kind .number),
      .leaf .plain (.oneOf ["None", "True", "False", "..."]),
      plain ["(", choice [
        seq [yielding, ")"],
        seq [.rule .element, .rule .clauses, ")"],
        seq [items (.rule .element), ")"]]],
      plain ["[", choice [
        seq [.rule .element, .rule .clauses, "]"],
        seq [items (.rule .element), "]"]]],
      plain [lbrace, choice [
        seq [plain [.rule .element, opt (seq [":", .rule .expression])], .rule .clauses, rbrace],
        seq [items (plain [.rule .element, opt (seq [":", .rule .expression])]), rbrace]]]]
  | .string =>
    let part : G := choice [
      .leaf (.kind .string) (.kind .text),
      nodeOf .string [.leaf .plain (.kind .opening), .many (.rule .hole),
        .leaf .plain (.kind .closing)]]
    choice [seq [part, .avoid part], plain [many1 part]]
  | .hole =>
    plain [lbrace,
      choice [yielding, .rule .expressions],
      opt "=", opt (seq ["!", .leaf .plain (.kind .word)]), opt (seq [":", .many (.rule .hole)]), rbrace]
  | .clauses =>
    many1 (choice [
      plain [opt "async", "for", .rule .targets, "in", .rule .expressions],
      plain ["if", .rule .expression]])
  | .arguments => plain ["(", items (.rule .argument), ")"]
  | .argument =>
    choice [
      plain [.field .name name, "=", .field .value (.rule .expression)],
      seq [.rule .element, opt (.rule .clauses)]]
  | .subscript =>
    choice [
      plain [opt (.rule .expression), ":", opt (.rule .expression),
        opt (seq [":", opt (.rule .expression)])],
      .rule .element]
  | .dotted => plain [name, .many (seq [".", name])]
  | .pattern =>
    choice [
      seq ["(", .many (.either (.rule .pattern) (lits ["if", ":"])), ")"],
      seq ["[", .many (.either (.rule .pattern) (lits ["if", ":"])), "]"],
      seq [lbrace, .many (.either (.rule .pattern) (lits ["if", ":"])), rbrace],
      .leaf .token (.anyExcept ["(", ")", "[", "]", lbrace, rbrace, "if", ":"])]
  | .withItem => plain [.rule .expression, opt (seq ["as", .rule .target])]
where
  /-- A type parameter with its bound and default. -/
  typeParameter : G :=
    seq [opt (lits ["*", "**"]), typeHint, opt (seq [":", typeHint]),
      opt (seq ["=", typeHint])]

/-- The syntax tree of a source text. -/
def parseTree (src : Source) : Tree Kind Role :=
  parse rules .file (scan lexer src.bytes.data.toList)

end CodeAtlas.Syntax.Python
