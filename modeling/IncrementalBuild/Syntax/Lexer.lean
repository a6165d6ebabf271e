import IncrementalBuild.Source.Text
import IncrementalBuild.Syntax.Error
import IncrementalBuild.Text.Escape

/-!
# From a source text to its tokens

`scan` looks at the head of a text and says what stands there and how far it
reaches, always as far as any pattern of the language can. `lexFrom` repeats it to
the end of the text, drops blanks and comments, and stops at the first piece that
is no token. Tokens come out in order, each with the bytes it covers.
-/

set_option autoImplicit false

namespace IncrementalBuild

/-- What stands at the head of a text. -/
inductive Lexeme where
  | gap
  | token (kind : TokenKind)
  | unterminated
  | invalid
  deriving DecidableEq

namespace Lexeme

/-- Whether a character separates tokens. -/
def isGap (c : Char) : Bool :=
  c == ' ' || c == '\t' || c == '\r' || c == '\n' || c == '\x0c'

/-- Whether a character can start an identifier. -/
def startsWord (c : Char) : Bool := c.isAlpha || c == '_'

/-- Whether a character can go on an identifier. -/
def continuesWord (c : Char) : Bool := c.isAlphanum || c == '_'

/-- Whether a character can go on a decimal literal. -/
def continuesDecimal (c : Char) : Bool := c.isDigit || c == '_'

/-- Whether a character is a hexadecimal digit. -/
def isHexDigit (c : Char) : Bool :=
  c.isDigit || ('a' ≤ c && c ≤ 'f') || ('A' ≤ c && c ≤ 'F')

/-- Whether a character can go on a hexadecimal literal. -/
def continuesHex (c : Char) : Bool := isHexDigit c || c == '_'

/-- How many characters of a text go on a literal in the given quotes, counted onto
`n`: all up to the closing quote or the end of the line, a backslash together with the
character it escapes. A backslash with nothing to escape on its line goes on nothing. -/
def quotedRun (quote : Char) (n : Nat) : List Char → Nat
  | [] => n
  | '\\' :: rest =>
    match rest with
    | [] => n
    | c :: rest => if c == '\n' then n else quotedRun quote (n + 2) rest
  | c :: rest => if c == quote || c == '\n' then n else quotedRun quote (n + 1) rest

/-- What a literal in the given quotes is, read from the text after its opening quote:
`closed` if the quote comes again, else `cut`, which reaches as far as the run does. -/
def quoted (quote : Char) (closed cut : Lexeme) (rest : List Char) : Lexeme × Nat :=
  let n := quotedRun quote 0 rest
  if (rest.drop n).head? == some quote then (closed, n + 1) else (cut, n)

/-- What stands at the head of a text whose first character is `c`, and how many of the
characters of `rest` belong to it. -/
def scan (c : Char) (rest : List Char) : Lexeme × Nat :=
  if isGap c then (gap, (rest.takeWhile isGap).length)
  else if c == '/' && rest.head? == some '/' then
    (gap, (rest.takeWhile (· != '\n')).length)
  else if startsWord c then
    let more := rest.takeWhile continuesWord
    (token (.ofWord (String.ofList (c :: more))), more.length)
  else if c.isDigit then
    let hex := (rest.drop 1).takeWhile continuesHex
    if c == '0' && rest.head? == some 'x' && !hex.isEmpty then
      (token .integer, hex.length + 1)
    else (token .integer, (rest.takeWhile continuesDecimal).length)
  else if c == '"' then quoted '"' (token .string) unterminated rest
  else if c == '\'' then quoted '\'' (token .character) invalid rest
  else
    match TokenKind.ofSign? c with
    | some kind => (token kind, 0)
    | none => (invalid, 0)

end Lexeme

/-- The tokens of a text that starts at byte `offset` of its file, or the first piece
that is none. -/
def lexFrom (offset : Nat) : List Char → Except SyntaxError (List Token)
  | [] => .ok []
  | c :: rest =>
    let (lexeme, n) := Lexeme.scan c rest
    let written := c :: rest.take n
    let span : Span := ⟨offset, offset + utf8Length written⟩
    match lexeme with
    | .gap => lexFrom span.stop (rest.drop n)
    | .token kind => do
      let tokens ← lexFrom span.stop (rest.drop n)
      return ⟨kind, String.ofList written, span⟩ :: tokens
    | .unterminated => .error { cause := .unterminatedString, span }
    | .invalid => .error { cause := .invalidCharacter (escapeText written), span }
termination_by cs => cs.length
decreasing_by all_goals simp only [List.length_drop, List.length_cons]; omega

/-- The tokens of a source text, or its first piece that is none. -/
def lex (source : String) : Except SyntaxError (List Token) := lexFrom 0 source.toList

end IncrementalBuild
