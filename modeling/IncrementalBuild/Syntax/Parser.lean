import IncrementalBuild.Syntax.Delimited
import IncrementalBuild.Syntax.Lexer
import IncrementalBuild.Syntax.Tree

/-!
# From tokens to the items of a file

A reader takes tokens from the front and yields a value and the tokens after it, or
the one error that ends the parse. Either way it reports the names it came across,
in order: the identifiers that name something, not those inside bodies. The items
before the first error are kept.

```text
item     := modifier* function | modifier* variable | comptime block | test STRING? block
modifier := pub | export | extern
function := fn IDENT? ( params ) type ( block | ; )
variable := ( var | const ) IDENT ( : type )? ( = tokens )? ;
type     := IDENT | * qualifier* type | [ * ] qualifier* type | [ INT ] type
          | fn ( types ) type
```
-/

set_option autoImplicit false

namespace IncrementalBuild

/-- What a reader makes of tokens. -/
inductive Reading (α : Type) where
  | done (value : α) (names : List String) (rest : List Token)
  | failed (error : SyntaxError) (names : List String)

/-- A reader of tokens; `stop` is the byte length of the file, where its end is reported. -/
def Reader (α : Type) : Type := (stop : Nat) → List Token → Reading α

namespace Reader

variable {α β : Type}

/-- The reader that takes nothing. -/
protected def pure (a : α) : Reader α := fun _ tokens => .done a [] tokens

/-- One reader after the other; names add up in order, and the first error ends both. -/
protected def bind (r : Reader α) (f : α → Reader β) : Reader β := fun stop tokens =>
  match r stop tokens with
  | .failed error names => .failed error names
  | .done a names rest =>
    match f a stop rest with
    | .failed error more => .failed error (names ++ more)
    | .done b more rest => .done b (names ++ more) rest

instance : Monad Reader where
  pure := Reader.pure
  bind := Reader.bind

/-- The reader that ends the parse. -/
def fail (cause : SyntaxCause) (span : Span) : Reader α := fun _ _ => .failed { cause, span } []

/-- A reader made of a function on the tokens that names nothing. -/
def ofTokens (f : List Token → Except SyntaxError (α × List Token)) : Reader α :=
  fun _ tokens =>
    match f tokens with
    | .ok (a, rest) => .done a [] rest
    | .error e => .failed e []

/-- The kind of the next token, which stays. -/
def peek : Reader (Option TokenKind) := fun _ tokens =>
  .done (tokens.head?.map Token.kind) [] tokens

/-- The place of the next token, or of the end of the file. -/
def here : Reader Span := fun stop tokens =>
  .done ((tokens.head?.map Token.span).getD (.point stop)) [] tokens

/-- Reports a name. -/
def mention (name : String) : Reader Unit := fun _ tokens => .done () [name] tokens

/-- Takes the next token if it is of a kind. -/
def eat (kind : TokenKind) : Reader (Option Token) := fun _ tokens =>
  match tokens with
  | t :: rest => if t.kind = kind then .done (some t) [] rest else .done none [] tokens
  | [] => .done none [] []

/-- Takes the next token, which must be of a kind; `cause` says what is wrong with what
is found instead. -/
def expectOr (kind : TokenKind) (cause : Option TokenKind → SyntaxCause) : Reader Token := do
  match ← eat kind with
  | some t => return t
  | none => fail (cause (← peek)) (← here)

/-- Takes the next token, which must be of a kind. -/
def expect (kind : TokenKind) : Reader Token := expectOr kind (.expectedToken kind)

/-- Takes an identifier that names something. -/
def identifier : Reader (String × Span) := do
  let t ← expectOr .identifier .expectedIdentifier
  mention t.text
  return (t.text, t.span)

/-- Takes what `entry` reads, separated by commas, up to and with the closing parenthesis;
a comma may stand before it. Each round but the last takes a comma, so `fuel` bounds their
number. -/
def entriesWithin (entry : Reader α) : (fuel : Nat) → Reader (List α)
  | 0 => do fail (.expectedToken .rightParen (← peek)) (← here)
  | fuel + 1 => do
    if (← eat .rightParen).isSome then return []
    let a ← entry
    if (← eat .comma).isSome then return a :: (← entriesWithin entry fuel)
    discard <| expect .rightParen
    return [a]

/-- Takes what `entry` reads, separated by commas, up to and with the closing parenthesis. -/
def entries (entry : Reader α) : Reader (List α) := fun stop tokens =>
  entriesWithin entry (tokens.length + 1) stop tokens

/-- Takes the block whose opening brace is next and yields the bytes it covers. -/
def block : Reader Span := do
  let opener ← expect .leftBrace
  let closer ← ofTokens (closing opener [])
  return opener.span.merge closer.span

end Reader

open Reader

/-- The value of a digit of any base up to sixteen. -/
def digitValue (c : Char) : Nat :=
  if c.isDigit then c.toNat - '0'.toNat
  else if 'a' ≤ c && c ≤ 'f' then c.toNat - 'a'.toNat + 10
  else c.toNat - 'A'.toNat + 10

/-- The number that digits write in a base, the first digit being the highest. -/
def numeral (base : Nat) (digits : List Char) : Nat :=
  digits.foldl (fun n c => n * base + digitValue c) 0

/-- The value of an integer literal: hexadecimal digits after `0x`, else decimal digits,
underscores not counting. There is none without a digit or from `2 ^ 64` on. -/
def literalValue? (text : String) : Option Nat :=
  let (base, digits) :=
    match text.toList.filter (· != '_') with
    | '0' :: 'x' :: digits => (16, digits)
    | digits => (10, digits)
  let value := numeral base digits
  if digits.isEmpty || UInt64.size ≤ value then none else some value

/-- Takes the length of an array type. -/
def arrayLength : Reader Nat := do
  let t ← expectOr .integer .expectedLength
  match literalValue? t.text with
  | some length => return length
  | none => fail (.invalidLength t.text) t.span

/-- Takes pointer qualifiers, in any order and number, and yields which ones occur. -/
def qualifiers (isConst isVolatile : Bool) :
    List Token → Except SyntaxError ((Bool × Bool) × List Token)
  | [] => .ok ((isConst, isVolatile), [])
  | t :: rest =>
    match t.kind with
    | .constKeyword => qualifiers true isVolatile rest
    | .volatileKeyword => qualifiers isConst true rest
    | _ => .ok ((isConst, isVolatile), t :: rest)

/-- Takes the rest of a pointer type that starts at `start`. -/
def pointerTo (start : Span) (isMany : Bool) (pointee : Reader TypeExpr) : Reader TypeExpr := do
  let (isConst, isVolatile) ← ofTokens (qualifiers false false)
  let pointee ← pointee
  return .pointer isConst isVolatile isMany pointee (start.merge pointee.span)

/-- Takes a type that nests at most `levels` deep. -/
def typeWithin : (levels : Nat) → Reader TypeExpr
  | 0 => do fail .typeTooDeep (← here)
  | levels + 1 => do
    let start ← here
    match ← peek with
    | some .identifier =>
      let (name, span) ← identifier
      return .named name span
    | some .star =>
      discard <| eat .star
      pointerTo start false (typeWithin levels)
    | some .leftBracket =>
      discard <| eat .leftBracket
      if (← eat .star).isSome then
        discard <| expect .rightBracket
        pointerTo start true (typeWithin levels)
      else
        let length ← arrayLength
        discard <| expect .rightBracket
        let element ← typeWithin levels
        return .array length element (start.merge element.span)
    | some .fnKeyword =>
      discard <| eat .fnKeyword
      discard <| expect .leftParen
      let params ← entries (typeWithin levels)
      let result ← typeWithin levels
      return .function params result (start.merge result.span)
    | found => fail (.expectedType found) start

/-- Takes a type. -/
def typeExpr : Reader TypeExpr := typeWithin maxTypeDepth

/-- Takes a parameter. -/
def param : Reader Param := do
  let (name, nameSpan) ← identifier
  discard <| expect .colon
  let type ← typeExpr
  return { name, type, span := nameSpan.merge type.span }

/-- The modifiers of a declaration and where the first of them stands. -/
structure Modifiers where
  start : Option Span := none
  isPublic : Bool := false
  isExport : Bool := false
  isExtern : Bool := false
  deriving DecidableEq

/-- Takes modifiers, in any order but each at most once. -/
def modifiers (m : Modifiers) : List Token → Except SyntaxError (Modifiers × List Token)
  | [] => .ok (m, [])
  | t :: rest =>
    let start := some (m.start.getD t.span)
    let duplicate : SyntaxError := { cause := .duplicateModifier t.kind, span := t.span }
    match t.kind with
    | .pubKeyword =>
      if m.isPublic then .error duplicate
      else modifiers { m with start, isPublic := true } rest
    | .exportKeyword =>
      if m.isExport then .error duplicate
      else modifiers { m with start, isExport := true } rest
    | .externKeyword =>
      if m.isExtern then .error duplicate
      else modifiers { m with start, isExtern := true } rest
    | _ => .ok (m, t :: rest)

/-- Takes the body of a function, or the semicolon in its place, and yields the block, if
there is one, and the end of the declaration. -/
def functionBody : Reader (Option Span × Span) := do
  if let some semicolon ← eat .semicolon then
    return (none, semicolon.span)
  match ← peek with
  | some .leftBrace =>
    let body ← block
    return (some body, body)
  | found => fail (.expectedBody found) (← here)

/-- Takes a function after its modifiers. -/
def function (m : Modifiers) : Reader FunctionItem := do
  let keyword ← expect .fnKeyword
  let name ← eat .identifier
  if let some t := name then mention t.text
  discard <| expect .leftParen
  let params ← entries param
  let result ← typeExpr
  let (body, stop) ← functionBody
  return {
    name := name.map Token.text
    nameSpan := (name.map Token.span).getD keyword.span
    isPublic := m.isPublic
    isExport := m.isExport
    isExtern := m.isExtern
    params, result, body
    span := (m.start.getD keyword.span).merge stop }

/-- Takes the type annotation of a variable, if there is one. -/
def annotation : Reader (Option TypeExpr) := do
  if (← eat .colon).isSome then return some (← typeExpr) else return none

/-- Takes a variable after its modifiers; `keyword` is the kind it starts with. -/
def variableAfter (m : Modifiers) (keyword : TokenKind) : Reader VariableItem := do
  let keyword ← expect keyword
  let (name, _) ← identifier
  let type ← annotation
  if (← eat .equals).isSome then
    ofTokens fun tokens => (initializerRest tokens).map (((), ·))
  let semicolon ← expect .semicolon
  return {
    name, type
    isConst := keyword.kind = .constKeyword
    isPublic := m.isPublic
    span := (m.start.getD keyword.span).merge semicolon.span }

/-- A text without the quotes around it. -/
def unquoted (text : String) : String := String.ofList (text.toList.drop 1).dropLast

/-- Takes a test block. -/
def testBlock : Reader TestItem := do
  let keyword ← expect .testKeyword
  let name ← eat .string
  let body ← block
  return { name := name.map (unquoted ·.text), body, span := keyword.span.merge body }

/-- Takes one item. -/
def item : Reader Item := do
  match ← peek with
  | some .comptimeKeyword =>
    let keyword ← expect .comptimeKeyword
    let body ← block
    return .comptime (keyword.span.merge body)
  | some .testKeyword => return .test (← testBlock)
  | _ =>
    let m ← ofTokens (modifiers {})
    match ← peek with
    | some .fnKeyword => return .function (← function m)
    | some .varKeyword => return .variable (← variableAfter m .varKeyword)
    | some .constKeyword => return .variable (← variableAfter m .constKeyword)
    | found => fail (.expectedItem found) (← here)

/-- What a parse found: the items before the first error, that error if there is one, and
the names met on the way, those of a failing item included. -/
structure Outline where
  items : List Item := []
  error : Option SyntaxError := none
  names : List String := []

/-- The items of a list of tokens. Each takes at least one token, so `fuel` tokens are read
in `fuel` rounds. -/
def itemsWithin (stop : Nat) : (fuel : Nat) → List Token → Outline
  | 0, _ => {}
  | _ + 1, [] => {}
  | fuel + 1, t :: ts =>
    match item stop (t :: ts) with
    | .failed error names => { error := some error, names }
    | .done node names rest =>
      let more := itemsWithin stop fuel rest
      { more with items := node :: more.items, names := names ++ more.names }

/-- The items of a list of tokens in a file of `stop` bytes. -/
def itemsOf (stop : Nat) (tokens : List Token) : Outline :=
  itemsWithin stop tokens.length tokens

/-- Parses a source text. If it has no tokens, it has no items either. -/
def parse (source : String) : Outline :=
  match lex source with
  | .ok tokens => itemsOf source.utf8ByteSize tokens
  | .error error => { error := some error }

/-- The revision of a file a parse belongs to. -/
def Outline.file (o : Outline) (path source : String) : SourceFile :=
  { path, text := source, items := o.items }

end IncrementalBuild
