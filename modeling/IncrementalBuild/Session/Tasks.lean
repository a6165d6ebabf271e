import IncrementalBuild.Session.Changes
import IncrementalBuild.Session.Signature
import IncrementalBuild.Session.State
import IncrementalBuild.Syntax.Listing
import IncrementalBuild.Syntax.Parser

/-!
# The tasks of a build cycle

A cycle starts with a task for each file that changed. That task takes the new revision
over and spawns, for each new exported declaration, the claim of its symbol and its
resolution, and a task for each block that runs at build time. A resolution that ends
with a value spawns the generation of its code and its way into the link set. So the
tasks of a cycle have three levels.
-/

set_option autoImplicit false

namespace IncrementalBuild

/-- A piece of work in a build cycle. -/
inductive BuildTask where
  | rebuild (path : String)
  | claim (ticket : ClaimTicket) (d : Decl)
  | resolve (d : Decl)
  | runComptime (file : SourceFile) (block : Span)
  | generate (call : CodegenCall)
  | link (f : FunctionValue)

namespace BuildTask

/-- The number of levels the tasks of a cycle have. -/
def depth : Nat := 3

end BuildTask

namespace Workshop

/-- What a task of a cycle leaves. -/
abbrev Step : Type := TaskStep Workshop BuildTask

/-! ## Reading a revision -/

/-- The size of a directory as a file. -/
def directorySize : Nat := 4096

/-- The problem of a file over the size limit. -/
def sizeProblem (path : String) (size limit : Nat) : Diagnostic where
  code := .E9001
  message := s!"file is too big: {size} bytes, the limit is {limit}"
  location := .startOf path

/-- The problem of a file that is not text. -/
def encodingProblem (path : String) (offset : Nat) : Diagnostic where
  code := .E1007
  message := s!"source is not valid UTF-8 (first invalid byte at offset {offset})"
  location := .startOf path

/-- Reads a source file. A file that cannot be read is a build error; one that is too big or
is not text is a problem. -/
def readSource (files : FileTree) (limit : Nat) (path : String) :
    Except BuildError (Except Diagnostic String) :=
  match files.find path with
  | .error reason => .error (.fileSystem path reason.text)
  | .ok .directory =>
    if limit < directorySize then .ok (.error (sizeProblem path directorySize limit))
    else .error (.fileSystem path FileError.isADirectory.text)
  | .ok (.file bytes _) =>
    if limit < bytes.size then .ok (.error (sizeProblem path bytes.size limit))
    else
      match decode bytes with
      | .ok text => .ok (.ok text)
      | .error offset => .ok (.error (encodingProblem path offset))

/-- The lines that tell the tokens of a source. -/
def tokenLines (path source : String) : List String :=
  match lex source with
  | .ok tokens => tokens.map fun t => path ++ ":" ++ t.span.text ++ " " ++ t.kind.displayName
  | .error e => [path ++ ": " ++ e.text]

/-! ## Taking a revision over -/

/-- The problem of a function without a name. -/
def namelessProblem (file : SourceFile) (f : FunctionItem) : Diagnostic where
  code := .E2001
  message := "missing function name"
  location := .within file f.nameSpan

/-- The problem of a second definition of a name. -/
def redefinitionProblem (d existing : Decl) : Diagnostic where
  code := .E2002
  message := s!"redefinition of `{d.symbol}`"
  location := .within d.file d.item.nameSpan
  labels := [⟨.within existing.file existing.item.nameSpan, "previous definition here"⟩]

/-- The problem of a second export of a symbol. -/
def collisionProblem (c : ExportCollision) : Diagnostic where
  code := .E2003
  message := s!"exported symbol collision: `{c.rejected.symbol}`"
  location := .within c.rejected.file c.rejected.item.nameSpan
  labels := [⟨.within c.kept.file c.kept.item.nameSpan, "other symbol here"⟩]

/-- Makes a new declaration. -/
def declare (s : Session) (file : SourceFile) (symbol : String) (f : FunctionItem) :
    Decl × Session :=
  ({ id := s.nextDecl, name := s.names.nameOf symbol, symbol, item := f, file },
    { s with nextDecl := s.nextDecl + 1 })

/-- The tasks of a new declaration: if it is exported, the claim of its symbol, with a ticket
reserved here and now, and its resolution. -/
def exportTasks (s : Session) (d : Decl) : List BuildTask × Session :=
  if d.isExport then
    let (ticket, exports) := s.exports.reserve
    ([.claim ticket d, .resolve d], { s with exports })
  else ([], s)

/-- Makes a declaration live, unless its name is taken. -/
def enter (s : Session) (d : Decl) : Session :=
  match s.table.insert d with
  | .ok table => { s with table }
  | .error existing => s.report (redefinitionProblem d existing)

/-- Carries out a change, adding the tasks it spawns to those before. -/
def applyChange (file : SourceFile) (before : Session × List BuildTask) :
    Change → Session × List BuildTask
  | .runComptime block => (before.1, before.2 ++ [.runComptime file block])
  | .reportNameless f => (before.1.report (namelessProblem file f), before.2)
  | .add symbol f =>
    let (d, s) := declare before.1 file symbol f
    let (tasks, s) := exportTasks s d
    (enter s d, before.2 ++ tasks)

/-- The lines that tell the tree of a revision. -/
def treeLines (names : Interner) (file : SourceFile) : List String :=
  [file.path ++ ": " ++ (Listing.ofItems names file.items).text]

/-- Takes a revision without syntax errors over, as far as it can be. -/
def takeOver (w : Workshop) (file : SourceFile) : Step :=
  let s := w.session
  let s := if s.settings.verbosity.tree then s.tell (treeLines s.names file) else s
  let plan := ChangePlan.ofItems s.settings file s.table.decls file.items
  let (s, tasks) := plan.changes.foldl (applyChange file) (s, [])
  { state := { w with session := s }
    spawned := tasks
    outcome := match plan.blocker with
      | some b => .failed (b.toBuildError s.settings file)
      | none => .done }

/-- Parses a source and takes it over, unless it has a syntax error. -/
def takeSource (w : Workshop) (path source : String) : Step :=
  let outline := parse source
  let file := outline.file path source
  let told := if w.session.settings.verbosity.tokens then tokenLines path source else []
  let w := w.modify fun s => { s.tell told with names := s.names.internAll outline.names }
  match outline.error with
  | some e => { state := w.modify (·.report (.ofSyntaxError file e)) }
  | none => takeOver w file

/-- Rebuilds a file. -/
def rebuild (w : Workshop) (path : String) : Step :=
  if w.session.isCancelled then { state := w, outcome := .failed .cancelled }
  else
    match readSource w.files w.session.settings.maxSourceSize path with
    | .error e => { state := w, outcome := .failed e }
    | .ok (.error problem) => { state := w.modify (·.report problem) }
    | .ok (.ok source) => takeSource w path source

/-! ## Resolving a declaration -/

/-- The entry of the journal on a request for an analysis. -/
def analysisEntry (r : AnalysisRequest) : JournalEntry :=
  .analyze r.declName (r.params.map fun p => (p.name, p.type.text, p.span)) r.expected.text r.source

/-- The type an object stands for, or the type of nothing. -/
def typeOf (types : TypeStore) (id : TypeId) : Ty := (types.denote? id).getD (.primitive .void)

/-- The request for the analysis of the body of a function, whose parameters and result have
the given types. -/
def bodyRequest (types : TypeStore) (d : Decl) (params : List TypeId) (result : TypeId)
    (body : Span) : AnalysisRequest where
  declName := d.symbol
  params := (d.item.params.zip params).map fun (p, id) => ⟨p.name, typeOf types id, p.span⟩
  expected := typeOf types result
  source := innerSource d.file body

/-- The request for the analysis of a block that runs at build time. The whole item counts as
the block. -/
def comptimeRequest (file : SourceFile) (block : Span) : AnalysisRequest where
  declName := comptimeName
  params := []
  expected := .primitive .void
  source := innerSource file block

/-- The problem of a block that an analyzer rejects. -/
def rejection (file : SourceFile) (block : Span) (code : ErrorCode) (message : String) :
    Diagnostic where
  code
  message
  location := .within file block

/-- The request for the code of a function. -/
def codegenCall (types : TypeStore) (f : FunctionValue) (bodyType : Ty) (body : Span) :
    CodegenCall where
  symbol := f.symbol
  function := f.text types
  declName := f.declName
  isExport := f.isExport
  bodyType := bodyType.text
  bodySpan := body

/-- The line that tells the value of a declaration. -/
def valueLine (call : CodegenCall) : String := call.function ++ " = " ++ call.bodyType

/-- Ends the resolution of a declaration. -/
def settle (s : Session) (d : Decl) (r : Resolution) : Session :=
  s.setResolution d.id ((s.resolution d.id).resolve r)

/-- Lets go of type handles. -/
def releaseTypes (s : Session) (ids : List TypeId) : Session :=
  { s with types := ids.foldl TypeStore.release s.types }

/-- Analyzes the body of a function whose type is known. The handles of the parameter types,
of the result type and of the function type are given back or become part of the
resolution. -/
def resolveBody (w : Workshop) (d : Decl) (params : List TypeId) (result type : TypeId)
    (body : Span) : Step :=
  let s := w.session
  let request := bodyRequest s.types d params result body
  let s := releaseTypes (s.note (analysisEntry request)) (params ++ [result])
  match s.analyzer request with
  | .crashed message =>
    let s := releaseTypes s [type]
    { state := { w with session := s.setResolution d.id (s.resolution d.id).abandon }
      outcome := .crashed (some message) }
  | .rejected code message =>
    let s := (releaseTypes s [type]).report (rejection d.file body code message)
    { state := { w with session := settle s d .failed } }
  | .accepted =>
    let f := d.value type
    let call := codegenCall s.types f request.expected body
    let s := { s with types := s.types.retain type }
    let s := if s.settings.verbosity.ir then s.tell [valueLine call] else s
    { state := { w with session := settle s d (.resolved type (some f)) }
      spawned := [.generate call, .link f] }

/-- Finds out what a declaration means, as its only producer. -/
def produce (w : Workshop) (d : Decl) : Step :=
  let s := w.session
  let reading := TypeReading.ofSignature d.file s.types d.item
  let s := { s with types := reading.types, log := s.log.extend reading.problems }
  match reading.found with
  | none => { state := { w with session := settle s d .failed } }
  | some ids =>
    let params := ids.dropLast
    let result := ids.getLast?.getD 0
    let (type, types) := s.types.intern (.function params result (TypeReading.convention d.item))
    let s := { s with types }
    match d.item.body with
    | some body => resolveBody { w with session := s } d params result type body
    | none => { state := { w with session := settle (releaseTypes s ids) d (.resolved type none) } }

/-- Resolves a declaration, unless that was done before. -/
def resolve (w : Workshop) (d : Decl) : Step :=
  match (w.session.resolution d.id).start with
  | (.produce, begun) => produce (w.modify (·.setResolution d.id begun)) d
  | _ => { state := w }

/-! ## The other tasks -/

/-- Claims the symbol of a declaration. -/
def claim (w : Workshop) (ticket : ClaimTicket) (d : Decl) : Step :=
  let (collision, exports) := w.session.exports.claim ticket d
  let s := { w.session with exports }
  { state := { w with session := match collision with
      | some c => s.report (collisionProblem c)
      | none => s } }

/-- Analyzes a block that runs at build time. -/
def runComptime (w : Workshop) (file : SourceFile) (block : Span) : Step :=
  let request := comptimeRequest file block
  let s := w.session.note (analysisEntry request)
  match s.analyzer request with
  | .crashed message => { state := { w with session := s }, outcome := .crashed (some message) }
  | .rejected code message =>
    { state := { w with session := s.report (rejection file block code message) } }
  | .accepted => { state := { w with session := s } }

/-- Generates the code of a function. -/
def generate (w : Workshop) (call : CodegenCall) : Step :=
  let (outcome, toolchain) := w.toolchain.generate call
  { state := { w with toolchain }, outcome }

/-- Puts a function into the link set, which then holds its type. -/
def enterLinkSet (w : Workshop) (f : FunctionValue) : Step :=
  let (isNew, linkSet) := w.session.linkSet.insert f
  { state := w.modify fun s =>
      { s with linkSet, types := if isNew then s.types.retain f.type else s.types } }

/-- Runs a task. -/
def runTask (task : BuildTask) (w : Workshop) : Step :=
  match task with
  | .rebuild path => w.rebuild path
  | .claim ticket d => w.claim ticket d
  | .resolve d => w.resolve d
  | .runComptime file block => w.runComptime file block
  | .generate call => w.generate call
  | .link f => w.enterLinkSet f

end Workshop

end IncrementalBuild
