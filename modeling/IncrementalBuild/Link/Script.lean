import IncrementalBuild.Text.Lossy

/-!
# Scripts that stand for a linker program

What running a small shell script comes to: what it writes to its error output and how it
ends. A script is a list of commands, which lines, semicolons, `&&` and `||` separate. Its
arguments stand for `$@`, `$*`, `$#` and `$1` to `$9`. `echo` and `printf` write, to the error
output where `>&2` asks for it; `exit` and `kill` of the script itself end it; `true`, `false`
and the commands that are known to work in silence only have a status, and a name that is no
command is reported. Nothing else of the shell language has an effect.
-/

set_option autoImplicit false

namespace IncrementalBuild

/-- How a program ends. -/
inductive ProgramEnd where
  | exited (status : Nat)
  | killed (signal : Nat)
  deriving DecidableEq, Inhabited

/-- What running a program leaves: its end and its error output. -/
structure ProgramRun where
  ending : ProgramEnd := .exited 0
  errorOutput : Bytes := []
  deriving Inhabited

namespace ProgramEnd

/-- Whether a program ended well. -/
def isSuccess (e : ProgramEnd) : Bool := e = .exited 0

/-- The names of the signals that end a program, by number. -/
def signalNames : List (Nat × String) :=
  [(1, "SIGHUP"), (2, "SIGINT"), (3, "SIGQUIT"), (4, "SIGILL"), (5, "SIGTRAP"), (6, "SIGABRT"),
    (7, "SIGBUS"), (8, "SIGFPE"), (9, "SIGKILL"), (10, "SIGUSR1"), (11, "SIGSEGV"),
    (12, "SIGUSR2"), (13, "SIGPIPE"), (14, "SIGALRM"), (15, "SIGTERM"), (16, "SIGSTKFLT"),
    (24, "SIGXCPU"), (25, "SIGXFSZ"), (26, "SIGVTALRM"), (27, "SIGPROF"), (29, "SIGIO"),
    (30, "SIGPWR"), (31, "SIGSYS")]

/-- The signals a program goes on after, and the absence of a signal. -/
def harmlessSignals : List Nat := [0, 17, 18, 19, 20, 21, 22, 23, 28]

/-- The written form of an end. -/
def text : ProgramEnd → String
  | .exited status => s!"exit status: {status}"
  | .killed signal =>
    match signalNames.lookup signal with
    | some name => s!"signal: {signal} ({name})"
    | none => s!"signal: {signal}"

end ProgramEnd

namespace Script

/-- The name a script is called by, and its arguments. -/
structure Call where
  name : String
  args : List String

/-- When a command is run, as the end of the one before has it. -/
inductive Condition where
  | always
  | afterSuccess
  | afterFailure
  deriving DecidableEq, Inhabited

/-- A command of a script: its words, the line it is on, when it is run and whether its output
goes to the error output. -/
structure Command where
  words : List String := []
  line : Nat := 1
  condition : Condition := .always
  toErrors : Bool := false
  deriving DecidableEq, Inhabited

/-! ## Reading -/

/-- How the characters under way are quoted. -/
inductive Quoting where
  | plain
  | single
  | double
  deriving DecidableEq

/-- What was read of a script: the commands before the one under way, that one, the word
under way, if there is one, and whether that word only says where output goes. -/
structure Reader where
  commands : List Command := []
  command : Command := {}
  word : Option (List Char) := none
  isTarget : Bool := false

namespace Reader

/-- Adds characters to the word under way. -/
def add (r : Reader) (cs : List Char) : Reader := { r with word := some (r.word.getD [] ++ cs) }

/-- Ends the word under way. -/
def endWord (r : Reader) : Reader :=
  match r.word with
  | none => r
  | some w =>
    let words := if r.isTarget then [] else [String.ofList w]
    { r with
      command := { r.command with words := r.command.words ++ words }
      word := none
      isTarget := false }

/-- Adds texts of which each but the last ends a word. -/
def addFields (r : Reader) : List String → Reader
  | [] => r
  | field :: fields => fields.foldl (fun r f => r.endWord.add f.toList) (r.add field.toList)

/-- Leaves out the word under way if it is the number of an output. -/
def dropNumber (r : Reader) : Reader :=
  if r.word = some ['1'] || r.word = some ['2'] then { r with word := none } else r.endWord

/-- Sends the output of the command under way to the error output. -/
def redirect (r : Reader) : Reader :=
  let r := r.dropNumber
  { r with command := { r.command with toErrors := true } }

/-- Ends the command under way; the next is on the same line. -/
def endCommand (r : Reader) (next : Condition) : Reader :=
  let r := r.endWord
  { commands := r.commands ++ [r.command], command := { line := r.command.line, condition := next } }

/-- Ends the line under way. A condition waits for a command on a later line. -/
def endLine (r : Reader) : Reader :=
  let r := r.endWord
  let next := if r.command.words.isEmpty then r.command.condition else .always
  { commands := r.commands ++ [r.command]
    command := { line := r.command.line + 1, condition := next } }

/-- What stands for the characters after a dollar sign, and how many they are. -/
def expansion (call : Call) : List Char → Option (List String × Nat)
  | [] => none
  | c :: cs =>
    if c = '@' || c = '*' then some (call.args, 1)
    else if c = '#' then some ([toString call.args.length], 1)
    else if c = '$' then some (["$$"], 1)
    else if c = '0' then some ([call.name], 1)
    else if c.isDigit then some ([call.args.getD (c.toNat - '1'.toNat) ""], 1)
    else if c.isAlpha || c = '_' then
      some ([""], 1 + (cs.takeWhile fun c => c.isAlphanum || c = '_').length)
    else none

/-- The words an expansion comes to where it is not quoted. -/
def splitFields (fields : List String) : List String :=
  fields.flatMap fun f => (f.splitOn " ").filter (· != "")

/-- Reads a script that is called with a name and arguments. -/
def read (call : Call) (quoting : Quoting) (r : Reader) : List Char → Reader
  | [] => r.endCommand .always
  | c :: cs =>
    match quoting with
    | .single =>
      if c = '\'' then read call .plain r cs else read call .single (r.add [c]) cs
    | .double =>
      if c = '"' then read call .plain r cs
      else if c = '\\' && ['$', '`', '"', '\\'].contains (cs.headD ' ') then
        read call .double (r.add (cs.take 1)) (cs.drop 1)
      else if c = '$' then
        match expansion call cs with
        | none => read call .double (r.add [c]) cs
        | some (fields, n) =>
          let fields := if cs.head? = some '*' then [" ".intercalate fields] else fields
          read call .double (r.addFields fields) (cs.drop n)
      else read call .double (r.add [c]) cs
    | .plain =>
      if c = '\'' then read call .single (r.add []) cs
      else if c = '"' then read call .double (r.add []) cs
      else if c = '\\' then
        let escaped := cs.take 1
        read call .plain (if escaped = ['\n'] then r else r.add escaped) (cs.drop 1)
      else if c = '$' then
        match expansion call cs with
        | none => read call .plain (r.add [c]) cs
        | some (fields, n) => read call .plain (r.addFields (splitFields fields)) (cs.drop n)
      else if c = '\n' then read call .plain r.endLine cs
      else if c = ';' then read call .plain (r.endCommand .always) cs
      else if c = '&' && cs.head? = some '&' then
        read call .plain (r.endCommand .afterSuccess) (cs.drop 1)
      else if c = '|' && cs.head? = some '|' then
        read call .plain (r.endCommand .afterFailure) (cs.drop 1)
      else if c = ' ' || c = '\t' then read call .plain r.endWord cs
      else if c = '#' && r.word.isNone then read call .plain r (cs.dropWhile (· != '\n'))
      else if c = '>' && cs.take 2 = ['&', '2'] then read call .plain r.redirect (cs.drop 2)
      else if c = '>' && cs.take 2 = ['&', '1'] then read call .plain r.dropNumber (cs.drop 2)
      else if c = '>' || c = '<' then
        read call .plain { r.dropNumber with isTarget := true } (cs.dropWhile (· == '>'))
      else read call .plain (r.add [c]) cs
termination_by cs => cs.length
decreasing_by
  all_goals
    have := (List.dropWhile_sublist (· != '\n') (l := cs)).length_le
    have := (List.dropWhile_sublist (· == '>') (l := cs)).length_le
    simp only [List.length_drop, List.length_cons]
    omega

end Reader

/-- The commands of a script that is called with a name and arguments. -/
def commands (call : Call) (text : List Char) : List Command :=
  (Reader.read call .plain {} text).commands.filter (!·.words.isEmpty)

/-! ## Writing -/

/-- The value of a digit in base eight. -/
def octal? (c : Char) : Option Nat :=
  if '0' ≤ c && c ≤ '7' then some (c.toNat - '0'.toNat) else none

/-- The octal digits at the front, three at most. -/
def octalDigits (cs : List Char) : List Nat :=
  (((cs.take 3).map octal?).takeWhile Option.isSome).filterMap id

/-- The byte digits in base eight come to. -/
def octalByte (digits : List Nat) : UInt8 :=
  (digits.foldl (fun value d => value * 8 + d) 0).toUInt8

/-- The bytes a letter stands for after a backslash. -/
def letterEscapes : List (Char × UInt8) :=
  [('a', 7), ('b', 8), ('f', 12), ('n', newline), ('r', 13), ('t', 9), ('v', 11), ('\\', 92)]

/-- The byte that characters after a backslash stand for, and how many they are. Octal digits
come at once or, `afterZero`, after a zero. -/
def escapeAt (afterZero : Bool) (cs : List Char) : Option (UInt8 × Nat) :=
  match cs.head?.bind (letterEscapes.lookup ·) with
  | some b => some (b, 1)
  | none =>
    if afterZero then
      if cs.head? = some '0' then
        let digits := octalDigits (cs.drop 1)
        some (octalByte digits, 1 + digits.length)
      else none
    else
      match octalDigits cs with
      | [] => none
      | digits => some (octalByte digits, digits.length)

/-- The bytes of a text with escapes. -/
def unescape (afterZero : Bool) : List Char → Bytes
  | [] => []
  | c :: cs =>
    match if c = '\\' then escapeAt afterZero cs else none with
    | some (b, n) => b :: unescape afterZero (cs.drop n)
    | none => utf8 [c] ++ unescape afterZero cs
termination_by cs => cs.length
decreasing_by
  all_goals
    simp only [List.length_drop, List.length_cons]
    omega

/-- A natural number in decimal digits, and zero for anything else. -/
def number (text : String) : Nat := text.toNat?.getD 0

/-- What an argument comes to where a format asks for one, by the letter after the sign. -/
def converted (letter : Char) (arg : String) : Option Bytes :=
  match letter with
  | 's' => some (bytesOf arg)
  | 'b' => some (unescape true arg.toList)
  | 'd' | 'i' | 'u' => some (bytesOf (toString (number arg)))
  | 'c' => some (utf8 (arg.toList.take 1))
  | _ => none

/-- The bytes a format writes, and the arguments it has no use for. -/
def formatOnce (args : List String) : List Char → Bytes × List String
  | [] => ([], args)
  | c :: cs =>
    if c = '\\' then
      let (b, n) := (escapeAt false cs).getD (92, 0)
      let (bytes, rest) := formatOnce args (cs.drop n)
      (b :: bytes, rest)
    else if c = '%' then
      match cs.head?.bind fun letter => converted letter (args.headD "") with
      | some written =>
        let (bytes, rest) := formatOnce (args.drop 1) (cs.drop 1)
        (written ++ bytes, rest)
      | none =>
        let (bytes, rest) := formatOnce args (if cs.head? = some '%' then cs.drop 1 else cs)
        (utf8 [c] ++ bytes, rest)
    else
      let (bytes, rest) := formatOnce args cs
      (utf8 [c] ++ bytes, rest)
termination_by cs => cs.length
decreasing_by
  all_goals
    (try split)
    all_goals
      simp only [List.length_drop, List.length_cons]
      omega

/-- The bytes a format writes, over and over until all arguments are used. -/
def format (template : List Char) (args : List String) : Bytes :=
  let (bytes, rest) := formatOnce args template
  if _h : rest.length < args.length then
    if rest.isEmpty then bytes else bytes ++ format template rest
  else bytes
termination_by args.length

/-- What a command writes. -/
def output : List String → Bytes
  | "echo" :: "-n" :: args => unescape true (" ".intercalate args).toList
  | "echo" :: args => unescape true (" ".intercalate args).toList ++ [newline]
  | "printf" :: template :: args => format template.toList args
  | _ => []

/-! ## Running -/

/-- The commands that work in silence, words that only give shape to others among them. -/
def silentNames : List String :=
  ["true", "echo", "printf", "kill", ":", "set", "shift", "cd", "export", "trap", "wait", "umask",
    "unset", "test", "[", "read", "sleep", "touch", "mkdir", "cat", "cp", "mv", "rm", "chmod", "ls",
    "date", "if", "then", "else", "elif", "fi", "for", "do", "done", "while", "until", "case", "esac"]

/-- The number of a signal, which may be written as its name. -/
def signal (text : String) : Nat :=
  let names := ProgramEnd.signalNames.map fun (n, name) => (name, n)
  match names.lookup text, names.lookup ("SIG" ++ text) with
  | some n, _ | none, some n => n
  | none, none => number text

/-- The signal a script sends itself, if a command does that. -/
def signal? : List String → Option Nat
  | ["kill", "$$"] => some 15
  | ["kill", "-s", name, "$$"] => some (signal name)
  | ["kill", option, "$$"] => some (signal (String.ofList (option.toList.drop 1)))
  | _ => none

/-- The script so far: its error output, the status of its last command and whether a failure
ends it. -/
structure State where
  errors : Bytes := []
  status : Nat := 0
  stopsOnFailure : Bool := false

/-- Whether a command is run after one with a status. -/
def Command.applies (c : Command) (status : Nat) : Bool :=
  match c.condition with
  | .always => true
  | .afterSuccess => status == 0
  | .afterFailure => status != 0

/-- Writes a complaint about a command. -/
def State.complain (s : State) (call : Call) (c : Command) (complaint : String) : State :=
  { s with errors := s.errors ++ bytesOf s!"{call.name}: {c.line}: {complaint}\n" }

/-- The end a command brings about, if it does, with what it leaves. -/
def ending? (call : Call) (s : State) (c : Command) : Option (State × ProgramEnd) :=
  match c.words with
  | ["exit"] => some (s, .exited s.status)
  | "exit" :: status :: _ =>
    match status.toNat? with
    | some n => some (s, .exited (n % 256))
    | none => some (s.complain call c s!"exit: Illegal number: {status}", .exited 2)
  | words =>
    match signal? words with
    | some n => if ProgramEnd.harmlessSignals.contains n then none else some (s, .killed n)
    | none => none

/-- Runs a command that does not end the script. -/
def State.after (s : State) (call : Call) (c : Command) : State :=
  match c.words with
  | [] => s
  | name :: args =>
    let s := { s with
      errors := s.errors ++ if c.toErrors then output c.words else []
      stopsOnFailure := s.stopsOnFailure || (name = "set" && args.contains "-e") }
    if name = "false" then { s with status := 1 }
    else if silentNames.contains name || name.contains '=' then { s with status := 0 }
    else { s.complain call c s!"{name}: not found" with status := 127 }

/-- Runs commands one after the other. -/
def runFrom (call : Call) (s : State) : List Command → ProgramRun
  | [] => { ending := .exited s.status, errorOutput := s.errors }
  | c :: rest =>
    if c.applies s.status then
      match ending? call s c with
      | some (s, ending) => { ending, errorOutput := s.errors }
      | none =>
        let s := s.after call c
        let isTested := rest.head?.any (·.condition != .always)
        if s.stopsOnFailure && s.status != 0 && !isTested then
          { ending := .exited s.status, errorOutput := s.errors }
        else runFrom call s rest
    else runFrom call s rest

/-- Runs a script with a name and arguments. -/
def run (call : Call) (stopsOnFailure : Bool) (text : List Char) : ProgramRun :=
  runFrom call { stopsOnFailure } (commands call text)

end Script

end IncrementalBuild
