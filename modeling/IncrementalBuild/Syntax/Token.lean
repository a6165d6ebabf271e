import IncrementalBuild.Source.Span

/-!
# Tokens of a source file

The token kinds, the words and signs that spell them, and which delimiter closes
which. A token carries its own text, so that a reader of tokens needs no source
text beside them.
-/

set_option autoImplicit false

namespace IncrementalBuild

/-- The kinds of token, in the order of their declaration in the language: keywords,
punctuation, then the kinds with more than one spelling. -/
inductive TokenKind where
  | fnKeyword
  | exportKeyword
  | externKeyword
  | pubKeyword
  | varKeyword
  | constKeyword
  | volatileKeyword
  | comptimeKeyword
  | testKeyword
  | leftParen
  | rightParen
  | leftBrace
  | rightBrace
  | leftBracket
  | rightBracket
  | comma
  | colon
  | semicolon
  | equals
  | star
  | identifier
  | integer
  | string
  | unterminatedString
  | character
  | operator
  deriving DecidableEq, Inhabited

namespace TokenKind

/-- Every kind, in order of declaration. -/
def all : List TokenKind :=
  [.fnKeyword, .exportKeyword, .externKeyword, .pubKeyword, .varKeyword, .constKeyword,
    .volatileKeyword, .comptimeKeyword, .testKeyword, .leftParen, .rightParen, .leftBrace,
    .rightBrace, .leftBracket, .rightBracket, .comma, .colon, .semicolon, .equals, .star,
    .identifier, .integer, .string, .unterminatedString, .character, .operator]

/-- The one spelling of a keyword or punctuation sign. -/
def spelling? : TokenKind → Option String
  | .fnKeyword => some "fn"
  | .exportKeyword => some "export"
  | .externKeyword => some "extern"
  | .pubKeyword => some "pub"
  | .varKeyword => some "var"
  | .constKeyword => some "const"
  | .volatileKeyword => some "volatile"
  | .comptimeKeyword => some "comptime"
  | .testKeyword => some "test"
  | .leftParen => some "("
  | .rightParen => some ")"
  | .leftBrace => some "\x7b"
  | .rightBrace => some "\x7d"
  | .leftBracket => some "["
  | .rightBracket => some "]"
  | .comma => some ","
  | .colon => some ":"
  | .semicolon => some ";"
  | .equals => some "="
  | .star => some "*"
  | .identifier | .integer | .string | .unterminatedString | .character | .operator => none

/-- How a message speaks of a kind: its spelling in back quotes, or what it is. -/
def displayName (k : TokenKind) : String :=
  match k with
  | .identifier => "identifier"
  | .integer => "integer literal"
  | .string | .unterminatedString => "string literal"
  | .character => "character literal"
  | .operator => "operator"
  | k => "`" ++ k.spelling?.getD "" ++ "`"

/-- The delimiter that closes an opening one. -/
def closer? : TokenKind → Option TokenKind
  | .leftParen => some .rightParen
  | .leftBrace => some .rightBrace
  | .leftBracket => some .rightBracket
  | _ => none

/-- Whether a kind opens a delimited run. -/
def isOpener (k : TokenKind) : Bool := k.closer?.isSome

/-- Whether a kind closes a delimited run. -/
def isCloser : TokenKind → Bool
  | .rightParen | .rightBrace | .rightBracket => true
  | _ => false

/-- The kind of a run of identifier characters: a keyword if the whole run spells one. -/
def ofWord : String → TokenKind
  | "fn" => .fnKeyword
  | "export" => .exportKeyword
  | "extern" => .externKeyword
  | "pub" => .pubKeyword
  | "var" => .varKeyword
  | "const" => .constKeyword
  | "volatile" => .volatileKeyword
  | "comptime" => .comptimeKeyword
  | "test" => .testKeyword
  | _ => .identifier

/-- The kind of a sign that is a token by itself. -/
def ofSign? : Char → Option TokenKind
  | '(' => some .leftParen
  | ')' => some .rightParen
  | '{' => some .leftBrace
  | '}' => some .rightBrace
  | '[' => some .leftBracket
  | ']' => some .rightBracket
  | ',' => some .comma
  | ':' => some .colon
  | ';' => some .semicolon
  | '=' => some .equals
  | '*' => some .star
  | c => if "+-/%&|^~!<>?@.#$".contains c then some .operator else none

end TokenKind

/-- A token: what it is, how it is written and where. -/
structure Token where
  kind : TokenKind
  text : String
  span : Span
  deriving DecidableEq, Inhabited

end IncrementalBuild
