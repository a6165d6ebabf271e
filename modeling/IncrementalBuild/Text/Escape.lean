import IncrementalBuild.Text.Extenders
import IncrementalBuild.Text.Unprintable

/-!
# Text made visible

How a message shows characters that would not be seen or would be misread: the
usual backslash escapes, and the code point in braces for what has no printed form.
A mark that extends the character before it is escaped only at the start of a text,
where nothing stands before it.
-/

set_option autoImplicit false

namespace IncrementalBuild

/-- A code point in hexadecimal, in braces after a backslash and a `u`. -/
def escapeCodePoint (c : Char) : String :=
  "\\u\x7b" ++ String.ofList (Nat.toDigits 16 c.toNat) ++ "\x7d"

/-- One character made visible; `leading` says that nothing stands before it. -/
def escapeChar (leading : Bool) (c : Char) : String :=
  match c with
  | '\x00' => "\\0"
  | '\t' => "\\t"
  | '\r' => "\\r"
  | '\n' => "\\n"
  | '"' => "\\\""
  | '\'' => "\\'"
  | '\\' => "\\\\"
  | c =>
    if leading && extendsPrevious c then escapeCodePoint c
    else if isUnprintable c then escapeCodePoint c
    else c.toString

/-- A text made visible. -/
def escapeText : List Char → String
  | [] => ""
  | c :: rest => escapeChar true c ++ String.join (rest.map (escapeChar false))

/-- A text between double quotes, made visible. Every mark that extends the character before
it is escaped, and a single quote is not. -/
def quoteText (cs : List Char) : String :=
  "\"" ++ String.join (cs.map fun c => if c = '\'' then "'" else escapeChar true c) ++ "\""

end IncrementalBuild
