/-!
# Codes of reported problems

Each problem a build can report has a code. The first digit of its written form
is the phase that finds it.
-/

set_option autoImplicit false

namespace IncrementalBuild

/-- The codes, in order. -/
inductive ErrorCode where
  /-- An unexpected token. -/
  | E1001
  /-- A delimiter that is never closed. -/
  | E1002
  /-- An identifier is missing. -/
  | E1003
  /-- A type is missing. -/
  | E1004
  /-- An array length is missing or is no number of 64 bits. -/
  | E1005
  /-- A string literal that does not end on its line. -/
  | E1006
  /-- A character no token starts with, or a byte that is not text. -/
  | E1007
  /-- A type nested too deeply. -/
  | E1008
  /-- A function without a name. -/
  | E2001
  /-- A second definition of a name. -/
  | E2002
  /-- A second export of a symbol. -/
  | E2003
  /-- A type name that means nothing. -/
  | E3001
  /-- An integer type whose width is malformed. -/
  | E3002
  /-- An expression that is not a type. -/
  | E3003
  /-- A body that does not produce the declared type. -/
  | E3004
  /-- A file over the size limit. -/
  | E9001
  /-- A problem of the command line or the configuration. -/
  | E9002
  deriving DecidableEq, Inhabited

/-- The phases that report problems. -/
inductive Phase where
  | parsing
  | declaration
  | analysis
  | surroundings
  deriving DecidableEq

namespace ErrorCode

/-- Every code, in order. -/
def all : List ErrorCode :=
  [.E1001, .E1002, .E1003, .E1004, .E1005, .E1006, .E1007, .E1008, .E2001, .E2002, .E2003,
    .E3001, .E3002, .E3003, .E3004, .E9001, .E9002]

/-- The number of a code, which follows the letter in its written form. -/
def number : ErrorCode → Nat
  | .E1001 => 1001
  | .E1002 => 1002
  | .E1003 => 1003
  | .E1004 => 1004
  | .E1005 => 1005
  | .E1006 => 1006
  | .E1007 => 1007
  | .E1008 => 1008
  | .E2001 => 2001
  | .E2002 => 2002
  | .E2003 => 2003
  | .E3001 => 3001
  | .E3002 => 3002
  | .E3003 => 3003
  | .E3004 => 3004
  | .E9001 => 9001
  | .E9002 => 9002

/-- The written form of a code. -/
def text (c : ErrorCode) : String := s!"E{c.number}"

/-- The code with a written form. -/
def ofText? (text : String) : Option ErrorCode := all.find? (·.text == text)

/-- The phase that reports a code, told by its first digit. -/
def phase (c : ErrorCode) : Phase :=
  match c.number / 1000 with
  | 1 => .parsing
  | 2 => .declaration
  | 3 => .analysis
  | _ => .surroundings

end ErrorCode

end IncrementalBuild
