import CodeAtlas.Syntax.Grammar
import CodeAtlas.Syntax.Rust.Lexer

/-!
# The grammar of Rust

* `Kind`, `Role`: the nodes and the roles that an outline asks for.
* `Rule`, `rules`: the grammar.
* `parseTree`: the syntax tree of a source text.

Operators of all ranks make one chain, because an outline never asks how they nest. Where a block
may follow an expression, as in the head of an `if`, no literal of a struct may stand outside
brackets; the rules for expressions take this as an argument. A macro call holds tokens only.
-/

namespace CodeAtlas.Syntax.Rust

/-- The nodes that an outline asks for. -/
inductive Kind where
  | functionItem
  | functionSignature
  | structItem
  | fieldDecl
  | enumItem
  | unionItem
  | typeItem
  | associatedType
  | constItem
  | staticItem
  | traitItem
  | implItem
  | modItem
  | useDecl
  | useAs
  | useList
  | scopedUseList
  | useWildcard
  | attributeItem
  | visibility
  | selfParam
  | lifetime
  | name
  | pathWord
  | scoped
  | typeName
  | scopedType
  | genericType
  | referenceType
  | pointerType
  | call
  | genericFunction
  | fieldAccess
  | structLiteral
  deriving DecidableEq, Inhabited, Repr

/-- The roles that an outline asks for. -/
inductive Role where
  | name
  | parameters
  | returnType
  | body
  | type
  | trait
  | value
  | bounds
  | argument
  | path
  | alternative
  | list
  | function
  | member
  deriving DecidableEq, Inhabited, Repr

/-- The rules of the grammar. The flag of the rules for expressions says whether a literal of a
struct may stand there. -/
inductive Rule where
  | file
  | statement
  | item
  | block
  | items
  | visibility
  | modifiers
  | attributeItem
  | parameters
  | parameter
  | typeParameters
  | typeArguments
  | whereClause
  | bounds
  | fields
  | tupleFields
  | useTree
  | usePath
  | type
  | namedType
  | tokens
  | token
  | pattern
  | onePattern
  | expression (literals : Bool)
  | unary (literals : Bool)
  | primary (literals : Bool)
  | atom (literals : Bool)
  | path
  | pathHead
  | structLiteral
  | macroCall
  | blockLike
  | ifExpression
  | arm
  | closure
  deriving DecidableEq, Inhabited, Repr

open Grammar

abbrev G := Grammar Kind Role Rule

def name : G := .leaf (.kind .name) (.wordExcept keywords)

/-- The words that start a path and are no names. -/
def pathWord : G := .leaf (.kind .pathWord) (.oneOf ["self", "super", "crate"])

/-- The types that are no names. -/
def primitiveTypes : List String :=
  ["u8", "i8", "u16", "i16", "u32", "i32", "u64", "i64", "u128", "i128", "isize", "usize", "f32",
    "f64", "bool", "str", "char"]

def typeName : G := .leaf (.kind .typeName) (.wordExcept keywords)

def lifetime : G := .leaf (.kind .lifetime) (.kind .lifetime)

/-- An expression in which literals of structs may stand. -/
def expression : G := .rule (.expression true)

/-- Attributes before a part of something. -/
def attributes : G := .many (.rule .attributeItem)

/-- The type of a value, behind a colon. -/
def typed : G := seq [":", .field .type (.rule .type)]

/-- A literal of one token. -/
def literal : G :=
  choice [.leaf .plain (.kind .number), .leaf .plain (.kind .text), .leaf .plain (.kind .character),
    .leaf .plain (.oneOf ["true", "false"])]

/-- The marks that assign, or join two operands. -/
def operator : G :=
  choice [
    lits ["+", "-", "*", "/", "%", "^", "==", "!=", "&&", "||", "&", "|", "=", "+=", "-=", "*=",
      "/=", "%=", "^=", "&=", "|=", "<="],
    seq ["<", "<="], seq ["<", "<"], seq [">", ">", "="], seq [">", ">"], seq [">", "="],
    lits ["<", ">"]]

/-- What follows an expression that ends in a block, where the expression goes on behind it. -/
def goesOn : G :=
  lits [".", "?", "as", "+", "/", "%", "^", "==", "!=", "=", "+=", "-=", "*=", "/=", "%=", "^=",
    "&=", "|=", "<=", ">"]

/-- Bounds one after the other. -/
def boundList : G :=
  let bound : G := choice [lifetime, plain ["?", .rule .type],
    seq [opt "~", opt "const", .rule .type]]
  opt (seq [bound, .many (seq ["+", bound]), opt "+"])

/-- The list of fields and their values in a literal of a struct. -/
def fieldValues : G :=
  plain [lbrace,
    items (choice [
      plain ["..", opt expression],
      plain [attributes, choice [.leaf .plain (.wordExcept keywords), .leaf .plain (.kind .number)],
        ":", expression],
      plain [attributes, name]]),
    rbrace]

/-- A function without or with its body. -/
def functionWith (k : Kind) (finish : G) : G :=
  nodeOf k [opt (.rule .visibility), opt (.rule .modifiers), "fn", .field .name name,
    opt (.rule .typeParameters), .field .parameters (.rule .parameters),
    opt (seq ["->", .field .returnType (.rule .type)]), opt (.rule .whereClause), finish]

def rules : Rule → G
  | .file =>
    seq [.many (choice [.rule .statement, .leaf .token (.anyExcept [])]), .silent (.kind .finish)]
  | .items =>
    plain [lbrace, .many (choice [.rule .statement, .leaf .token (.anyExcept [rbrace])]), rbrace]
  | .block =>
    plain [lbrace, .many (choice [.rule .statement, .leaf .token (.anyExcept [rbrace])]), rbrace]
  | .attributeItem => nodeOf .attributeItem ["#", .ahead "[", .rule .tokens]
  | .visibility =>
    nodeOf .visibility ["pub",
      opt (seq ["(", choice [pathWord, seq ["in", .rule .usePath]], ")"])]
  | .modifiers =>
    plain [many1 (choice [lits ["async", "default", "const", "unsafe", "safe"],
      plain ["extern", opt (.leaf .plain (.kind .text))]])]
  | .item =>
    let vis : G := opt (.rule .visibility)
    choice [
      functionWith .functionItem (.field .body (.rule .block)),
      functionWith .functionSignature ";",
      nodeOf .structItem [vis, "struct", .field .name typeName, opt (.rule .typeParameters),
        choice [
          seq [.field .body (.rule .tupleFields), opt (.rule .whereClause), ";"],
          seq [opt (.rule .whereClause), .field .body (.rule .fields)],
          ";"]],
      nodeOf .enumItem [vis, "enum", .field .name typeName, opt (.rule .typeParameters),
        opt (.rule .whereClause), .field .body (seq [.ahead lbrace, .rule .tokens])],
      nodeOf .unionItem [vis, "union", .field .name typeName, opt (.rule .typeParameters),
        opt (.rule .whereClause), .field .body (.rule .fields)],
      nodeOf .typeItem [vis, "type", .field .name typeName, opt (.rule .typeParameters),
        opt (.rule .whereClause), "=", .field .type (.rule .type), opt (.rule .whereClause), ";"],
      nodeOf .associatedType ["type", .field .name typeName, opt (.rule .typeParameters),
        opt (.field .bounds (.rule .bounds)), opt (.rule .whereClause), ";"],
      nodeOf .constItem [vis, "const", .field .name name, typed,
        opt (seq ["=", .field .value expression]), ";"],
      nodeOf .staticItem [vis, "static", opt "ref", opt "mut", .field .name name, typed,
        opt (seq ["=", .field .value expression]), ";"],
      nodeOf .traitItem [vis, opt "unsafe", "trait", .field .name typeName,
        opt (.rule .typeParameters), opt (.field .bounds (.rule .bounds)),
        opt (.rule .whereClause), .field .body (.rule .items)],
      nodeOf .implItem [opt "default", opt "unsafe", "impl", opt (.rule .typeParameters),
        choice [
          seq [opt "!", .field .trait (.rule .namedType), "for", .field .type (.rule .type)],
          .field .type (.rule .type)],
        opt (.rule .whereClause), choice [.field .body (.rule .items), lit ";"]],
      nodeOf .modItem [vis, "mod", .field .name name, choice [lit ";", .field .body (.rule .items)]],
      plain [vis, opt "unsafe", plain ["extern", opt (.leaf .plain (.kind .text))],
        choice [.rule .items, lit ";"]],
      plain [vis, "extern", "crate", choice [name, pathWord], opt (seq ["as", name]), ";"],
      nodeOf .useDecl [vis, "use", .field .argument (.rule .useTree), ";"],
      plain ["macro_rules", "!", name, .rule .tokens, opt ";"]]
  | .statement =>
    choice [
      .rule .attributeItem,
      plain ["#", "!", .rule .tokens],
      .rule .item,
      plain ["let", .rule .pattern, opt typed, opt (seq ["=", expression]),
        opt (seq ["else", .rule .block]), ";"],
      ";",
      seq [.rule .macroCall, .avoid goesOn, .avoid (lits [";", rbrace])],
      seq [.rule .blockLike, .avoid goesOn],
      plain [expression, ";"],
      seq [expression, .ahead rbrace]]
  | .parameters => plain ["(", items (.rule .parameter), ")"]
  | .parameter =>
    seq [attributes, choice [
      seq [nodeOf .selfParam [opt (seq ["&", opt lifetime]), opt "mut", "self"], .avoid ":"],
      plain [opt "mut", choice [lit "self", .rule .pattern], typed],
      "...",
      .rule .type]]
  | .typeParameters =>
    plain ["<",
      items (seq [attributes, choice [
        plain [lifetime, opt (.rule .bounds)],
        plain ["const", name, ":", .rule .type, opt (seq ["=", choice [.rule .block,
          plain [opt "-", literal], name]])],
        plain [typeName, opt (.rule .bounds), opt (seq ["=", .rule .type])]]]),
      ">"]
  | .typeArguments =>
    plain ["<",
      items (choice [
        lifetime,
        plain [typeName, opt (.rule .typeArguments), "=", .rule .type],
        plain [typeName, opt (.rule .typeArguments), .rule .bounds],
        plain [opt "-", literal],
        .rule .block,
        .rule .type]),
      ">"]
  | .whereClause =>
    plain ["where", items (plain [choice [lifetime, .rule .type], .rule .bounds])]
  | .bounds => plain [":", boundList]
  | .fields =>
    plain [lbrace,
      items (seq [attributes, nodeOf .fieldDecl [opt (.rule .visibility), .field .name name, typed]]),
      rbrace]
  | .tupleFields =>
    plain ["(",
      items (seq [attributes, opt (.rule .visibility), .field .type (.rule .type)]), ")"]
  | .useTree =>
    choice [
      nodeOf .useAs [.field .path (.rule .usePath), "as", .field .alternative name],
      nodeOf .scopedUseList [opt (.field .path (.rule .usePath)), "::",
        .field .list (nodeOf .useList [lbrace, items (.rule .useTree), rbrace])],
      nodeOf .useWildcard [opt (seq [opt (.rule .usePath), "::"]), "*"],
      nodeOf .useList [lbrace, items (.rule .useTree), rbrace],
      .rule .usePath]
  | .usePath =>
    .chain (choice [nodeOf .scoped ["::", .field .name name], name, pathWord])
      [(.kind .scoped, some .path, seq ["::", .field .name (choice [name, pathWord])])]
  | .type =>
    choice [
      nodeOf .referenceType [lits ["&", "&&"], opt lifetime, opt "mut", .field .type (.rule .type)],
      nodeOf .pointerType ["*", lits ["const", "mut"], .field .type (.rule .type)],
      plain ["(", items (.rule .type), ")"],
      plain ["[", .rule .type, opt (seq [";", expression]), "]"],
      .leaf .plain (.exact "!"),
      plain [lits ["dyn", "impl"], boundList],
      plain ["for", .rule .typeParameters, .rule .type],
      plain [opt (.rule .modifiers), "fn", .rule .parameters, opt (seq ["->", .rule .type])],
      .rule .macroCall,
      .rule .namedType]
  | .namedType =>
    .chain
      (choice [
        seq [plain ["<", .rule .type, opt (seq ["as", .rule .type]), ">"], .ahead "::"],
        seq [choice [name, pathWord], .ahead "::"],
        nodeOf .scopedType ["::", .field .name typeName],
        .leaf .plain (.oneOf primitiveTypes),
        typeName]) [
      (.kind .scoped, some .path, seq ["::", .field .name name, .ahead "::"]),
      (.kind .scopedType, some .path, seq ["::", .field .name typeName]),
      (.kind .genericType, some .type, seq [opt "::", .rule .typeArguments]),
      (.plain, some .trait, seq [.rule .parameters, opt (seq ["->", .rule .type])])]
  | .tokens =>
    plain [choice [
      seq ["(", .many (.rule .token), ")"],
      seq ["[", .many (.rule .token), "]"],
      seq [lbrace, .many (.rule .token), rbrace]]]
  | .token =>
    choice [.rule .tokens, .leaf .token (.anyExcept ["(", ")", "[", "]", lbrace, rbrace])]
  | .pattern => seq [opt "|", .rule .onePattern, .many (seq ["|", .rule .onePattern])]
  | .onePattern =>
    let bare : G := choice [
      plain [lits ["&", "&&"], opt "mut", .rule .onePattern],
      plain ["(", items (.rule .pattern), ")"],
      plain ["[", items (.rule .pattern), "]"],
      plain [opt "-", literal],
      plain ["ref", opt "mut", name, opt (seq ["@", .rule .onePattern])],
      plain ["mut", name, opt (seq ["@", .rule .onePattern])],
      plain ["const", .rule .block],
      .rule .macroCall,
      plain [.field .type structName, lbrace,
        items (choice [
          "..",
          plain [attributes, choice [.leaf .plain (.wordExcept keywords),
            .leaf .plain (.kind .number)], ":", .rule .pattern],
          plain [attributes, opt "ref", opt "mut", .leaf .plain (.wordExcept keywords)]]), rbrace],
      plain [.rule .path, "(", items (.rule .pattern), ")"],
      plain [name, "@", .rule .onePattern],
      .rule .path]
    choice [
      plain [lits ["..=", "..."], bare],
      plain [bare, lits ["..=", "...", ".."], opt bare],
      bare,
      plain ["..", opt bare]]
  | .expression literals =>
    .chain (.rule (.unary literals)) [
      (.plain, none, seq ["as", .rule .type]),
      (.plain, none, seq [operator, .rule (.unary literals)]),
      (.plain, none, seq [lits ["..", "..=", "..."],
        opt (seq [if literals then .empty else .avoid lbrace, .rule (.unary literals)])])]
  | .unary literals =>
    let rest : G := .rule (.expression literals)
    choice [
      plain [lits ["-", "!", "*"], .rule (.unary literals)],
      plain [lits ["&", "&&"], opt (seq ["raw", lits ["const", "mut"]]), opt "mut",
        .rule (.unary literals)],
      .rule .closure,
      plain ["return", opt rest],
      plain ["break", opt lifetime,
        opt (seq [if literals then .empty else .avoid lbrace, rest])],
      plain ["continue", opt lifetime],
      plain [lits ["..", "..=", "..."],
        opt (seq [if literals then .empty else .avoid lbrace, rest])],
      plain ["let", .rule .pattern, "=", .rule (.unary literals)],
      .rule (.primary literals)]
  | .primary literals =>
    .chain (.rule (.atom literals)) [
      (.kind .call, some .function, plain ["(", items (seq [attributes, expression]), ")"]),
      (.plain, none, seq [".", "await"]),
      (.kind .fieldAccess, some .value, seq [".",
        .field .member (choice [.leaf .plain (.wordExcept keywords),
          .leaf .plain (.kind .number)])]),
      (.kind .genericFunction, some .function, seq ["::", .rule .typeArguments]),
      (.plain, none, "?"),
      (.plain, none, seq ["[", expression, "]"])]
  | .atom literals =>
    choice [
      literal,
      if literals then .rule .structLiteral else .avoid .empty,
      .rule .macroCall,
      .rule .blockLike,
      .rule .path,
      plain ["(", items (seq [attributes, expression]), ")"],
      plain ["[", choice [seq [expression, ";", expression, "]"],
        seq [items (seq [attributes, expression]), "]"]]]]
  | .pathHead =>
    choice [
      seq [plain ["<", .rule .type, opt (seq ["as", .rule .type]), ">"], .ahead "::"],
      nodeOf .scoped ["::", .field .name name],
      name,
      pathWord]
  | .path =>
    .chain (.rule .pathHead) [
      (.kind .scoped, some .path, seq ["::", .field .name (choice [name, pathWord])]),
      (.kind .genericType, some .type, seq ["::", .rule .typeArguments, .ahead "::"])]
  | .structLiteral =>
    nodeOf .structLiteral [.field .name structName, .field .body fieldValues]
  | .macroCall =>
    plain [.rule .path, "!", .ahead (lits ["(", "[", lbrace]), .rule .tokens]
  | .blockLike =>
    choice [
      .rule .ifExpression,
      plain ["match", .rule (.expression false),
        plain [lbrace, .many (choice [plain ["#", "!", .rule .tokens], .rule .arm]), rbrace]],
      plain [opt (seq [lifetime, ":"]),
        choice [
          seq ["loop", .rule .block],
          seq ["while", .rule (.expression false), .rule .block],
          seq ["for", .rule .pattern, "in", .rule (.expression false), .rule .block],
          .rule .block]],
      plain [lits ["unsafe", "const", "try"], .rule .block],
      plain ["async", opt "move", .rule .block]]
  | .ifExpression =>
    plain ["if", .rule (.expression false), .rule .block,
      opt (plain ["else", choice [.rule .ifExpression, .rule .block]])]
  | .arm =>
    plain [attributes, .rule .pattern, opt (seq ["if", expression]), "=>",
      choice [
        seq [.rule .blockLike, .avoid goesOn, opt ","],
        seq [expression, choice [lit ",", .ahead rbrace]]]]
  | .closure =>
    plain [opt "static", opt "async", opt "move",
      choice [
        lit "||",
        plain ["|", items (choice [plain [.rule .onePattern, typed], .rule .onePattern]), "|"]],
      choice [
        seq ["->", .rule .type, .rule .block],
        expression]]
where
  /-- A path that stops before its last name. -/
  prefixPath : G :=
    let more : G := .ahead (seq ["::",
      choice [name, pathWord, seq [.rule .typeArguments, "::"]]])
    .chain (seq [.rule .pathHead, more]) [
      (.kind .scoped, some .path, seq ["::", .field .name (choice [name, pathWord]), more]),
      (.kind .genericType, some .type, seq ["::", .rule .typeArguments, .ahead "::"])]
  /-- The name of a struct before the brace of a literal or a pattern. -/
  structName : G :=
    let scopedName : G := seq [.field .path prefixPath, "::"]
    choice [
      seq [nodeOf .genericType [
        .field .type (choice [
          nodeOf .scoped [scopedName, .field .name name, .ahead (seq ["::", "<"])],
          typeName]),
        "::", .rule .typeArguments], .ahead lbrace],
      seq [nodeOf .scopedType [scopedName, .field .name typeName], .ahead lbrace],
      seq [typeName, .ahead lbrace]]

/-- The syntax tree of a source text. -/
def parseTree (src : Source) : Tree Kind Role :=
  parse rules .file (scan lexer src.bytes.data.toList)

end CodeAtlas.Syntax.Rust
