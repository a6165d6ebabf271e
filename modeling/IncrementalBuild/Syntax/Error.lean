import IncrementalBuild.Syntax.Token
import IncrementalBuild.Diagnostic.Code

/-!
# What can be wrong with the text of a source file

A syntax error is a cause and a place. Its code and its wording are functions of
the cause; nothing in the lexer or the parser writes a message.
-/

set_option autoImplicit false

namespace IncrementalBuild

/-- The deepest nesting of pointers, arrays and function types in one type. -/
def maxTypeDepth : Nat := 256

/-- Why a text is no source file. `found` is the kind of the token that stands in the
way, or none at the end of the file. -/
inductive SyntaxCause where
  | expectedToken (wanted : TokenKind) (found : Option TokenKind)
  | expectedItem (found : Option TokenKind)
  | expectedBody (found : Option TokenKind)
  | duplicateModifier (modifier : TokenKind)
  | unexpectedCloser (closer : TokenKind)
  | unclosedDelimiter (opener : TokenKind)
  | expectedIdentifier (found : Option TokenKind)
  | expectedType (found : Option TokenKind)
  | expectedLength (found : Option TokenKind)
  | invalidLength (literal : String)
  | unterminatedString
  | invalidCharacter (written : String)
  | typeTooDeep
  deriving DecidableEq

namespace SyntaxCause

/-- How a message speaks of the token found. -/
def foundName (found : Option TokenKind) : String :=
  (found.map TokenKind.displayName).getD "end of file"

/-- The code a cause is reported under. -/
def code : SyntaxCause → ErrorCode
  | .expectedToken .. | .expectedItem _ | .expectedBody _ | .duplicateModifier _
  | .unexpectedCloser _ => .E1001
  | .unclosedDelimiter _ => .E1002
  | .expectedIdentifier _ => .E1003
  | .expectedType _ => .E1004
  | .expectedLength _ | .invalidLength _ => .E1005
  | .unterminatedString => .E1006
  | .invalidCharacter _ => .E1007
  | .typeTooDeep => .E1008

/-- The wording of a cause. -/
def message : SyntaxCause → String
  | .expectedToken wanted found => s!"expected {wanted.displayName}, found {foundName found}"
  | .expectedItem found => s!"expected a top-level declaration, found {foundName found}"
  | .expectedBody found => s!"expected function body or `;`, found {foundName found}"
  | .duplicateModifier modifier => s!"duplicate {modifier.displayName} modifier"
  | .unexpectedCloser closer => s!"unexpected {closer.displayName}"
  | .unclosedDelimiter opener => s!"unclosed delimiter {opener.displayName}"
  | .expectedIdentifier found => s!"expected identifier, found {foundName found}"
  | .expectedType found => s!"expected type, found {foundName found}"
  | .expectedLength found => s!"expected array length, found {foundName found}"
  | .invalidLength literal => s!"invalid array length `{literal}`"
  | .unterminatedString => "unterminated string literal"
  | .invalidCharacter written => s!"invalid character `{written}`"
  | .typeTooDeep => s!"type expression nested more than {maxTypeDepth} levels deep"

end SyntaxCause

/-- A syntax error: its cause, its place, and for a mismatched closer the place of the
delimiter that is open there. -/
structure SyntaxError where
  cause : SyntaxCause
  span : Span
  openedAt : Option Span := none
  deriving DecidableEq

namespace SyntaxError

/-- The code an error is reported under. -/
def code (e : SyntaxError) : ErrorCode := e.cause.code

/-- The wording of an error. -/
def message (e : SyntaxError) : String := e.cause.message

/-- The error on one line, with its byte range. -/
def text (e : SyntaxError) : String :=
  s!"error[{e.code.text}] at {e.span.text}: {e.message}"

end SyntaxError

end IncrementalBuild
