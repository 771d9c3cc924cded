/-
Module: Graft.Token.Kind
Purpose: The classes of tokens and the reserved words.
Main exports: TokenKind, TokenKind.description, Keyword.kind?
-/

namespace Graft

/-- The class of a token. Words that are reserved only in certain places (`partial`, `record`,
`get`, `nameof`, `global`, ...) are identifiers. -/
inductive TokenKind where
  /-- With escapes: `"text\n"`. -/
  | stringLiteral
  /-- Without escapes: `@"text"`. -/
  | verbatimString
  /-- With holes: `$"a {b}"`, `$@"a"`. -/
  | interpolatedString
  /-- Between three or more quotes, with or without holes: `"""text"""`. -/
  | rawString
  | charLiteral
  | intLiteral
  | realLiteral
  | identifier
  | namespaceKeyword
  | usingKeyword
  | classKeyword
  | structKeyword
  | interfaceKeyword
  | enumKeyword
  | delegateKeyword
  | eventKeyword
  | operatorKeyword
  /-- One of `implicit` and `explicit`. -/
  | conversionKeyword
  | thisKeyword
  | trueKeyword
  | falseKeyword
  | nullKeyword
  /-- A modifier that is reserved everywhere: `public`, `static`, `const`, ... -/
  | modifier
  /-- A word that names a built-in type: `int`, `string`, `void`, ... -/
  | predefinedType
  /-- Any other reserved word. -/
  | keyword
  | leftParen
  | rightParen
  | leftBracket
  | rightBracket
  | leftBrace
  | rightBrace
  | semicolon
  | comma
  | dot
  | colon
  | doubleColon
  | question
  | arrow
  | equal
  | less
  | greater
  | plus
  | minus
  | star
  | tilde
  /-- Any other operator. -/
  | punctuation
  | endOfFile
deriving DecidableEq, Repr, Inhabited

namespace TokenKind

/-- Every class of tokens, literals first and the end of the file last. -/
def all : List TokenKind :=
  [.stringLiteral, .verbatimString, .interpolatedString, .rawString, .charLiteral, .intLiteral,
   .realLiteral, .identifier, .namespaceKeyword, .usingKeyword, .classKeyword, .structKeyword,
   .interfaceKeyword, .enumKeyword, .delegateKeyword, .eventKeyword, .operatorKeyword,
   .conversionKeyword, .thisKeyword, .trueKeyword, .falseKeyword, .nullKeyword, .modifier,
   .predefinedType, .keyword, .leftParen, .rightParen, .leftBracket, .rightBracket, .leftBrace,
   .rightBrace, .semicolon, .comma, .dot, .colon, .doubleColon, .question, .arrow, .equal, .less,
   .greater, .plus, .minus, .star, .tilde, .punctuation, .endOfFile]

/-- What messages call a token of this class. -/
def description : TokenKind → String
  | stringLiteral | verbatimString | interpolatedString | rawString => "string literal"
  | charLiteral => "character literal"
  | intLiteral | realLiteral => "number"
  | identifier => "identifier"
  | namespaceKeyword => "'namespace'"
  | usingKeyword => "'using'"
  | classKeyword => "'class'"
  | structKeyword => "'struct'"
  | interfaceKeyword => "'interface'"
  | enumKeyword => "'enum'"
  | delegateKeyword => "'delegate'"
  | eventKeyword => "'event'"
  | operatorKeyword => "'operator'"
  | conversionKeyword => "conversion keyword"
  | thisKeyword => "'this'"
  | trueKeyword => "'true'"
  | falseKeyword => "'false'"
  | nullKeyword => "'null'"
  | modifier => "modifier"
  | predefinedType => "type keyword"
  | keyword => "keyword"
  | leftParen => "'('"
  | rightParen => "')'"
  | leftBracket => "'['"
  | rightBracket => "']'"
  | leftBrace => "'\x7b'"
  | rightBrace => "'\x7d'"
  | semicolon => "';'"
  | comma => "','"
  | dot => "'.'"
  | colon => "':'"
  | doubleColon => "'::'"
  | question => "'?'"
  | arrow => "'=>'"
  | equal => "'='"
  | less => "'<'"
  | greater => "'>'"
  | plus => "'+'"
  | minus => "'-'"
  | star => "'*'"
  | tilde => "'~'"
  | punctuation => "operator"
  | endOfFile => "end of file"

/-- A string literal of any form. -/
def isString : TokenKind → Bool
  | stringLiteral | verbatimString | interpolatedString | rawString => true
  | _ => false

/-- A bracket that opens a group. -/
def isOpener : TokenKind → Bool
  | leftParen | leftBracket | leftBrace => true
  | _ => false

/-- A bracket that closes a group. -/
def isCloser : TokenKind → Bool
  | rightParen | rightBracket | rightBrace => true
  | _ => false

end TokenKind

namespace Keyword

/-- The reserved words with a class of their own. -/
def structural : List (String × TokenKind) :=
  [("namespace", .namespaceKeyword), ("using", .usingKeyword), ("class", .classKeyword),
   ("struct", .structKeyword), ("interface", .interfaceKeyword), ("enum", .enumKeyword),
   ("delegate", .delegateKeyword), ("event", .eventKeyword), ("operator", .operatorKeyword),
   ("implicit", .conversionKeyword), ("explicit", .conversionKeyword), ("this", .thisKeyword),
   ("true", .trueKeyword), ("false", .falseKeyword), ("null", .nullKeyword)]

/-- The modifiers that are reserved everywhere. -/
def modifiers : List String :=
  ["public", "private", "protected", "internal", "static", "sealed", "abstract", "readonly",
   "const", "virtual", "override", "new", "extern", "unsafe", "volatile", "ref"]

/-- The names of the built-in types. -/
def predefinedTypes : List String :=
  ["bool", "byte", "sbyte", "char", "decimal", "double", "float", "int", "uint", "long", "ulong",
   "short", "ushort", "object", "string", "void"]

/-- The other reserved words. -/
def others : List String :=
  ["as", "base", "break", "case", "catch", "checked", "continue", "default", "do", "else",
   "finally", "fixed", "for", "foreach", "goto", "if", "in", "is", "lock", "out", "params",
   "return", "sizeof", "stackalloc", "switch", "throw", "try", "typeof", "unchecked", "while"]

/-- The class of a reserved word; nothing for an identifier. -/
def kind? (word : String) : Option TokenKind :=
  structural.lookup word <|>
  (if modifiers.contains word then some .modifier
  else if predefinedTypes.contains word then some .predefinedType
  else if others.contains word then some .keyword
  else none)

end Keyword

end Graft
