import IncrementalBuild.Proofs.Session.Pointing
import IncrementalBuild.Proofs.Syntax.Braces

/-!
# What the analyzer is given

A cycle asks its analyzer about blocks of the texts it reads: the bodies of exported functions, and
the items that run at build time. Of a body the analyzer is given what stands between its braces.
An item that runs at build time is handed over as a whole, as if it were a block; so what is given
of it starts in the middle of its keyword.
-/

set_option autoImplicit false

namespace IncrementalBuild

namespace JournalEntry

/-- What the analyzer was given, if an entry tells of an analysis. -/
def given? : JournalEntry → Option String
  | .analyze _ _ _ source => some source
  | _ => none

/-- An entry tells of the analysis of a block of a text, and of what the analyzer was given: what
stands between the braces of a body, or more than that of an item that runs at build time. -/
inductive IsOnBlockOf (text : String) : JournalEntry → Prop where
  | body {f : FunctionItem} {name expected inner : String} {params : List (String × String × Span)}
      {block : Span} :
      .function f ∈ (parse text).items → f.name = some name → f.body = some block →
      block.Encloses text inner → IsOnBlockOf text (.analyze name params expected inner)
  | comptime {item block : Span} {gap inner : String} :
      .comptime item ∈ (parse text).items → item.RunsAtBuild text gap block →
      block.Encloses text inner →
      IsOnBlockOf text
        (.analyze comptimeName [] (Ty.primitive .void).text ("omptime" ++ gap ++ "\x7b" ++ inner))

end JournalEntry

/-- The analyses a session has asked for, as its journal tells. -/
def Session.analyses (s : Session) : List JournalEntry := s.journal.filter (·.given?.isSome)

/-! ## What tasks ask -/

/-- A request that a task may make of the analyzer. -/
def BuildTask.Asks (r : AnalysisRequest) : BuildTask → Prop
  | .resolve d => ∃ types params result body, d.item.body = some body ∧
      r = Workshop.bodyRequest types d params result body
  | .runComptime file block => r = Workshop.comptimeRequest file block
  | _ => False

namespace Workshop

/-- A step of a task leaves the files alone, and writes into the journal what the task asks. -/
structure Records (w : Workshop) (task : BuildTask) (r : Step) : Prop where
  files : r.state.files = w.files
  journal : ∃ asked : List AnalysisRequest,
    r.state.session.journal = w.session.journal ++ asked.map analysisEntry ∧
    ∀ q ∈ asked, task.Asks q

variable {w : Workshop} {task : BuildTask} {r : Step}

/-- A step that asks nothing. -/
theorem records_of_quiet (hfiles : r.state.files = w.files)
    (hjournal : r.state.session.journal = w.session.journal) : Records w task r :=
  ⟨hfiles, [], hjournal.trans (List.append_nil _).symm, fun _ hq => absurd hq List.not_mem_nil⟩

/-- A step that asks one thing. -/
theorem records_of_asks {q : AnalysisRequest} (hasks : task.Asks q)
    (hfiles : r.state.files = w.files)
    (hjournal : r.state.session.journal = w.session.journal ++ [analysisEntry q]) :
    Records w task r :=
  ⟨hfiles, [q], hjournal, fun _ hq => List.mem_singleton.1 hq ▸ hasks⟩

theorem takeOver_records (w : Workshop) (file : SourceFile) :
    Records w task (takeOver w file) := by
  have hshown : (shown w file).journal = w.session.journal := by
    unfold shown
    split <;> rfl
  rw [takeOver_eq]
  dsimp only
  rw [foldl_applyChange]
  exact records_of_quiet rfl hshown

theorem rebuild_records (w : Workshop) (path : String) : Records w task (w.rebuild path) := by
  rcases rebuild_cases w path with ⟨outcome, -, hrebuild⟩ | ⟨problem, hrebuild⟩ |
    ⟨text, -, ⟨e, -, hrebuild⟩ | ⟨-, hrebuild⟩⟩
  · rw [hrebuild]
    exact records_of_quiet rfl rfl
  · rw [hrebuild]
    exact records_of_quiet rfl rfl
  · rw [hrebuild]
    exact records_of_quiet rfl rfl
  · rw [hrebuild]
    obtain ⟨hfiles, hjournal⟩ := takeOver_records (seen w path text) ((parse text).file path text)
    exact ⟨hfiles, hjournal⟩

theorem resolveBody_records {d : Decl} {params : List TypeId} {result type : TypeId} {body : Span}
    (hbody : d.item.body = some body) :
    Records w (.resolve d) (w.resolveBody d params result type body) := by
  refine records_of_asks (q := bodyRequest w.session.types d params result body)
    ⟨_, _, _, _, hbody, rfl⟩ ?_ ?_
  · unfold resolveBody
    dsimp only
    split <;> rfl
  · unfold resolveBody
    dsimp only
    split
    · rfl
    · rfl
    · split <;> rfl

theorem produce_records (w : Workshop) (d : Decl) : Records w (.resolve d) (w.produce d) := by
  unfold produce
  extract_lets s reading s₁
  cases reading.found with
  | none => exact records_of_quiet rfl rfl
  | some ids =>
    dsimp only
    generalize s₁.types.intern (.function ids.dropLast (ids.getLast?.getD 0)
      (TypeReading.convention d.item)) = interned
    cases hbody : d.item.body with
    | none => exact records_of_quiet rfl rfl
    | some body =>
      let v : Workshop := { w with session := { s₁ with types := interned.2 } }
      obtain ⟨hfiles, hjournal⟩ : Records v (.resolve d)
          (v.resolveBody d ids.dropLast (ids.getLast?.getD 0) interned.1 body) :=
        resolveBody_records hbody
      exact ⟨hfiles, hjournal⟩

/-- A task leaves the files alone, and it writes into the journal what it asks the analyzer. -/
theorem runTask_records (task : BuildTask) (w : Workshop) : Records w task (runTask task w) := by
  cases task with
  | rebuild path => exact rebuild_records w path
  | claim ticket d =>
    unfold runTask claim
    dsimp only
    split <;> exact records_of_quiet rfl rfl
  | resolve d =>
    unfold runTask resolve
    dsimp only
    split
    · rename_i begun _
      obtain ⟨hfiles, hjournal⟩ := produce_records (w.modify (·.setResolution d.id begun)) d
      exact ⟨hfiles, hjournal⟩
    · exact records_of_quiet rfl rfl
  | runComptime file block =>
    unfold runTask runComptime
    dsimp only
    split <;> exact records_of_asks rfl rfl rfl
  | generate call => exact records_of_quiet rfl rfl
  | link f => exact records_of_quiet rfl rfl

/-! ## Tasks on what was read -/

/-- A text at one of some paths, as a session reads it. -/
def Finds (w : Workshop) (paths : List String) (path text : String) : Prop :=
  path ∈ paths ∧ readSource w.files w.session.settings.maxSourceSize path = .ok (.ok text)

end Workshop

/-- A task of a cycle is on what the session finds at the paths that changed. -/
def BuildTask.IsOn (w : Workshop) (paths : List String) : BuildTask → Prop
  | .rebuild path => path ∈ paths
  | .resolve d => ∃ path text, w.Finds paths path text ∧ d.IsFrom path text
  | .runComptime file item => ∃ path text, w.Finds paths path text ∧
      file = (parse text).file path text ∧ .comptime item ∈ (parse text).items
  | _ => True

namespace Workshop

variable {w v : Workshop} {task : BuildTask} {paths : List String} {path text : String}

theorem isOn_of_isDelivery (h : task.isDelivery = true) : task.IsOn w paths := by
  cases task with
  | generate call => trivial
  | link f => trivial
  | _ => cases h

/-- What the changes of a revision spawn is on its text. -/
theorem isOn_of_mem_tasks {names : Interner} {next : DeclId} {reserved : Nat}
    (hfinds : w.Finds paths path text)
    (h : task ∈ Change.tasks names ((parse text).file path text) next reserved
      (planFor v ((parse text).file path text)).changes) : task.IsOn w paths := by
  rcases Change.mem_tasks h with ⟨block, hblock, rfl⟩ | ⟨ticket, d, rfl⟩ | ⟨d, rfl⟩
  · exact ⟨path, text, hfinds, rfl, ChangePlan.isOf_of_mem hblock⟩
  · trivial
  · have hmade := BuildTask.mem_resolved.2 h
    rw [Change.resolved_tasks, mem_exported] at hmade
    exact ⟨path, text, hfinds, Change.isFrom_of_mem_made hmade.1⟩

/-- A task that is on what the session finds spawns only such tasks. -/
theorem isOn_of_mem_spawned (htask : task.IsOn w paths) (hfiles : v.files = w.files)
    (hsettings : v.session.settings = w.session.settings) :
    ∀ t ∈ (runTask task v).spawned, t.IsOn w paths := by
  intro t ht
  cases hrebuild : task.isRebuild with
  | false => exact isOn_of_isDelivery (runTask_delivers hrebuild v t ht)
  | true =>
    cases task with
    | rebuild path =>
      change t ∈ (v.rebuild path).spawned at ht
      rcases rebuild_cases v path with ⟨outcome, -, heq⟩ | ⟨problem, heq⟩ |
        ⟨text, hread, ⟨e, -, heq⟩ | ⟨-, heq⟩⟩
      · rw [heq] at ht
        cases ht
      · rw [heq] at ht
        cases ht
      · rw [heq] at ht
        cases ht
      · rw [heq, (takeOver_seen v path text).spawned] at ht
        rw [hfiles, hsettings] at hread
        exact isOn_of_mem_tasks ⟨htask, hread⟩ ht
    | _ => cases hrebuild

/-- What a task on such a text asks is about a block of the text. -/
theorem isOnBlockOf_of_asks {q : AnalysisRequest} (htask : task.IsOn w paths)
    (hasks : task.Asks q) :
    ∃ path text, w.Finds paths path text ∧ (analysisEntry q).IsOnBlockOf text := by
  cases task with
  | resolve d =>
    obtain ⟨path, text, hfinds, hfrom⟩ := htask
    obtain ⟨types, params, result, body, hbody, rfl⟩ := hasks
    obtain ⟨inner, hencloses⟩ := exists_inner_of_body hfrom.item hbody
    have hinner : innerSource d.file body = inner := by
      rw [hfrom.file]
      exact hencloses.innerSource_eq
    refine ⟨path, text, hfinds, ?_⟩
    unfold analysisEntry bodyRequest
    rw [hinner]
    exact .body hfrom.item hfrom.name hbody hencloses
  | runComptime file item =>
    obtain ⟨path, text, hfinds, rfl, hitem⟩ := htask
    obtain ⟨gap, block, inner, hruns, hencloses⟩ := exists_block_of_comptime hitem
    refine ⟨path, text, hfinds, ?_⟩
    rw [hasks, analysisEntry, comptimeRequest]
    dsimp only
    rw [hruns.innerSource_eq hencloses]
    exact .comptime hitem hruns hencloses
  | _ => cases hasks

/-! ## Cycles -/

/-- What the tasks of a cycle have come to that began in a given state: the files and the settings
are the same, and what was noted since tells of blocks of the texts that the session finds. -/
structure AsksOnly (w : Workshop) (paths : List String) (v : Workshop) : Prop where
  files : v.files = w.files
  settings : v.session.settings = w.session.settings
  journal : ∃ news, v.session.journal = w.session.journal ++ news ∧
    ∀ entry ∈ news, ∃ path text, w.Finds paths path text ∧ entry.IsOnBlockOf text

theorem AsksOnly.refl (w : Workshop) (paths : List String) : w.AsksOnly paths w :=
  ⟨rfl, rfl, [], (List.append_nil _).symm, fun _ hentry => absurd hentry List.not_mem_nil⟩

theorem AsksOnly.runTask (h : w.AsksOnly paths v) (htask : task.IsOn w paths) :
    w.AsksOnly paths (Workshop.runTask task v).state := by
  obtain ⟨hfiles, hsettings, news, hjournal, hnews⟩ := h
  obtain ⟨hsame, asked, hasked, hasks⟩ := runTask_records task v
  have hbase := congrArg (fun s => s.settings) (runTask_base task v)
  refine ⟨hsame.trans hfiles, hbase.trans hsettings, news ++ asked.map analysisEntry, ?_, ?_⟩
  · rw [hasked, hjournal, List.append_assoc]
  · intro entry hentry
    rcases List.mem_append.1 hentry with hold | hnew
    · exact hnews entry hold
    · obtain ⟨q, hq, rfl⟩ := List.mem_map.1 hnew
      exact isOnBlockOf_of_asks htask (hasks q hq)

theorem asksOnly_runGroup (w : Workshop) (paths : List String) :
    w.AsksOnly paths (runGroup groupName Workshop.runTask BuildTask.depth
      (paths.map .rebuild) w).state := by
  have hkeeps : GroupRun.Keeps Workshop.runTask (·.IsOn w paths) (w.AsksOnly paths) :=
    fun task v htask hv => ⟨hv.runTask htask, isOn_of_mem_spawned htask hv.files hv.settings⟩
  have htasks : ∀ t ∈ paths.map BuildTask.rebuild, t.IsOn w paths := by
    intro t ht
    obtain ⟨path, hpath, rfl⟩ := List.mem_map.1 ht
    exact hpath
  exact hkeeps.runGroup htasks (.refl w paths)

/-- A link asks for no analysis. -/
theorem link_analyses (w : Workshop) (cycle : Nat) :
    (w.link cycle).2.session.analyses = w.session.analyses := by
  obtain ⟨functions, output, commands, hjournal⟩ := link_journal w cycle
  have hnone : (commands.map JournalEntry.command).filter (·.given?.isSome) = [] := by
    simp [JournalEntry.given?]
  rw [Session.analyses, hjournal, List.filter_append, List.filter_cons, hnone]
  exact List.append_nil _

/-- Only the tasks of a cycle ask for analyses. -/
theorem runCycle_analyses (w : Workshop) (paths : List String) :
    (w.runCycle paths).1.session.analyses =
      (runGroup groupName Workshop.runTask BuildTask.depth
        (paths.map .rebuild) w).state.session.analyses := by
  obtain ⟨phase, hcompiled⟩ := compile_session w paths
  have hjournal : (w.compile paths).1.session.analyses =
      (runGroup groupName Workshop.runTask BuildTask.depth
        (paths.map .rebuild) w).state.session.analyses := by
    rw [hcompiled]
    rfl
  unfold runCycle finish
  dsimp only
  cases (w.compile paths).2 with
  | error e => exact hjournal
  | ok n => exact (link_analyses _ _).trans hjournal

/-- Whatever the state of a session, each analysis that a cycle asks for is of a block of a text
that it has read. Of the body of a function the analyzer is given exactly what stands between its
braces. Of an item that runs at build time it is given that, and before it the keyword without its
first letter, the blanks and comments after the keyword, and the opening brace. -/
theorem analyzed_blocks_of_cycle (w : Workshop) (paths : List String) :
    ∃ news, (w.runCycle paths).1.session.analyses = w.session.analyses ++ news ∧
      ∀ entry ∈ news, ∃ path ∈ paths, ∃ text,
        readSource w.files w.session.settings.maxSourceSize path = .ok (.ok text) ∧
        entry.IsOnBlockOf text := by
  obtain ⟨news, hjournal, hnews⟩ := (asksOnly_runGroup w paths).journal
  refine ⟨news.filter (·.given?.isSome), ?_, fun entry hentry => ?_⟩
  · rw [runCycle_analyses, Session.analyses, hjournal, List.filter_append]
    rfl
  · obtain ⟨path, text, ⟨hpath, hread⟩, hblock⟩ := hnews entry (List.mem_of_mem_filter hentry)
    exact ⟨path, hpath, text, hread, hblock⟩

/-- A text with one item, which runs at build time. -/
def comptimeText : String := "comptime \x7b check(); \x7d"

/-- The analyzer is given more than what stands between the braces, and what it is given stands
between no braces of the text. -/
theorem comptimeText_is_given_from_its_keyword :
    (sessionA comptimeText).start.1.session.analyses.map (·.given?) =
      [some "omptime \x7b check(); "] ∧
    (⟨9, 21⟩ : Span).Encloses comptimeText " check(); " ∧
    ∀ block, ¬Span.Encloses block comptimeText "omptime \x7b check(); " := by
  refine ⟨?_, ⟨⟨"comptime ".toList, [], by decide +kernel, by decide +kernel⟩, ?_⟩,
    fun block h => ?_⟩
  · have hread : readSource (fileA comptimeText) 4294967295 "a" = .ok (.ok comptimeText) :=
      readSource_fileA _ (by decide +kernel)
    have hvalid : (parse comptimeText).error = none :=
      Option.isNone_iff_eq_none.1 (by decide +kernel)
    have hrebuild : ((sessionA comptimeText).opened "a").rebuild "a" =
        takeOver (seen ((sessionA comptimeText).opened "a") "a" comptimeText)
          ((parse comptimeText).file "a" comptimeText) := rebuild_eq_takeOver rfl hread hvalid
    rw [start_sessionA, runCycle_analyses, List.map_singleton, runGroup_eq, deliveries,
      resolvedState, hrebuild]
    decide +kernel
  · have hlex : lex comptimeText = .ok
        [⟨.comptimeKeyword, "comptime", ⟨0, 8⟩⟩, ⟨.leftBrace, "\x7b", ⟨9, 10⟩⟩,
          ⟨.identifier, "check", ⟨11, 16⟩⟩, ⟨.leftParen, "(", ⟨16, 17⟩⟩,
          ⟨.rightParen, ")", ⟨17, 18⟩⟩, ⟨.semicolon, ";", ⟨18, 19⟩⟩,
          ⟨.rightBrace, "\x7d", ⟨20, 21⟩⟩] := by decide +kernel
    exact ⟨[_], _, [_, _, _, _], _, [], hlex, rfl,
      .plain rfl rfl (@Grammar.Balanced.nested _ _ [] _ rfl .nil (.plain rfl rfl .nil)), rfl, rfl⟩
  · obtain ⟨before, after, htext, -⟩ := h.place
    have hlength := congrArg List.length htext
    have hlong : comptimeText.toList.length = 21 := by decide +kernel
    have hinner : "omptime \x7b check(); ".toList.length = 19 := by decide +kernel
    simp only [List.length_append, List.length_cons, hlong, hinner] at hlength
    obtain rfl : before = [] := List.eq_nil_of_length_eq_zero (by omega)
    have hhead : comptimeText.toList.head? = some '{' := congrArg List.head? htext
    exact absurd hhead (by decide +kernel)

end Workshop

end IncrementalBuild
