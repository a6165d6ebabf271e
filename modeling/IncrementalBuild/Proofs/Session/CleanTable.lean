import IncrementalBuild.Proofs.Session.Reachable
import IncrementalBuild.Proofs.Syntax.Slices

/-!
# The incremental table is the clean one

When a revision is taken over, what is live afterwards is what the revision says: its names
are those of the functions of the revision, and each has the bytes of the first function of
its name. A session that never saw another revision comes to the same names, and under each to
the same function, in another place of another text.
-/

set_option autoImplicit false

namespace IncrementalBuild

/-- A table shows a text: its names are those of the functions of the text, each once, and under
each is a declaration with the bytes of the first function of that name. -/
structure DeclTable.Shows (t : DeclTable) (text : String) : Prop where
  nodup : (t.decls.map (·.symbol)).Nodup
  names : ∀ symbol, symbol ∈ t.decls.map (·.symbol) ↔
    ∃ f, .function f ∈ (parse text).items ∧ f.name = some symbol
  first : ∀ d ∈ t.decls, ∃ f, firstFunction? d.symbol (parse text).items = some f ∧
    d.bytes = slice (bytesOf text) f.span

/-- Two tables agree: they have the same names, and under each the same bytes and the same
function, in two places. -/
def DeclTable.Agrees (t t' : DeclTable) : Prop :=
  ∀ symbol, Option.Rel
    (fun d d' => d.bytes = d'.bytes ∧
      FunctionItem.SameIn d.file.text d.item d'.file.text d'.item)
    (t.find? symbol) (t'.find? symbol)

theorem firstFunction?_eq_none {symbol : String} {items : List Item} :
    firstFunction? symbol items = none ↔
      ∀ f, .function f ∈ items → f.name ≠ some symbol := by
  rw [firstFunction?, List.findSome?_eq_none_iff]
  constructor
  · intro h f hf hname
    have hnone := h _ hf
    rw [Item.functionNamed?, if_pos hname] at hnone
    cases hnone
  · intro h item hitem
    cases item with
    | function f => exact if_neg (h f hitem)
    | _ => rfl

theorem firstFunction?_mem {symbol : String} {items : List Item} {f : FunctionItem}
    (h : firstFunction? symbol items = some f) : .function f ∈ items ∧ f.name = some symbol := by
  obtain ⟨item, hitem, hf⟩ := List.exists_of_findSome?_eq_some h
  cases item with
  | function g =>
    rw [Item.functionNamed?] at hf
    split at hf
    · rename_i hname
      obtain rfl := Option.some.inj hf
      exact ⟨hitem, hname⟩
    · cases hf
  | _ => cases hf

namespace DeclTable

variable {t t' : DeclTable} {text : String}

/-- Two tables that show one text agree. -/
theorem Shows.agrees (h : t.Shows text) (h' : t'.Shows text) (hsound : t.Sound)
    (hsound' : t'.Sound) : t.Agrees t' := by
  intro symbol
  have hiff : symbol ∈ t.decls.map (·.symbol) ↔ symbol ∈ t'.decls.map (·.symbol) := by
    rw [h.names, h'.names]
  cases hfind : t.find? symbol with
  | none =>
    have hnone : t'.find? symbol = none := by
      rw [find?_eq_none, ← hiff]
      exact find?_eq_none.1 hfind
    rw [hnone]
    exact .none
  | some d =>
    cases hfind' : t'.find? symbol with
    | none =>
      rw [find?_eq_none, ← hiff, ← find?_eq_none, hfind] at hfind'
      cases hfind'
    | some d' =>
      obtain ⟨hd, hname⟩ := hsound.find?_eq_some.1 hfind
      obtain ⟨hd', hname'⟩ := hsound'.find?_eq_some.1 hfind'
      obtain ⟨f, hf, hbytes⟩ := h.first d hd
      obtain ⟨f', hf', hbytes'⟩ := h'.first d' hd'
      rw [hname] at hf
      rw [hname', hf] at hf'
      obtain rfl := Option.some.inj hf'
      have hsame : d.bytes = d'.bytes := hbytes.trans hbytes'.symm
      exact .some ⟨hsame,
        FunctionItem.sameIn_of_slice_eq (hsound.parsed d hd) (hsound'.parsed d' hd') hsame⟩

end DeclTable

namespace Workshop

variable {w w' : Workshop} {root text : String}

theorem Decl.bytes_eq_of_content {d d' : Decl} (h : d.content = d'.content) :
    d.bytes = d'.bytes := by
  simp only [Decl.content, Prod.mk.injEq] at h
  obtain ⟨-, hitem, hfile⟩ := h
  rw [Decl.bytes, Decl.bytes, hitem, hfile]

/-- After a revision was taken over, a name has the bytes of the first function of that name. -/
theorem takeOver_first {file : SourceFile} (hsound : w.session.table.Sound)
    (hplan : (planFor w file).blocker = none) {symbol : String} {d : Decl}
    (hfind : (takeOver w file).state.session.table.find? symbol = some d) :
    ∃ f, firstFunction? symbol file.items = some f ∧
      d.bytes = slice (bytesOf file.text) f.span := by
  have hopen := ChangePlan.unblocked_of_blocker hplan
  have hcontent : some d.content =
      ((w.session.table.find? symbol).map Decl.content).or
        ((firstAdded? symbol (planFor w file).changes).map fun f => (symbol, f, file)) := by
    rw [← find?_takeOver, hfind, Option.map_some]
  cases hold : w.session.table.find? symbol with
  | some live =>
    -- a live declaration was kept, and then it has the bytes of the revision
    rw [hold, Option.map_some, Option.some_or] at hcontent
    obtain ⟨hlive, hsymbol⟩ := hsound.find?_eq_some.1 hold
    obtain ⟨f, hf, hbytes⟩ := hopen.kept hsound.nodup live hlive
    rw [hsymbol] at hf
    exact ⟨f, hf, (Decl.bytes_eq_of_content (Option.some.inj hcontent)).trans hbytes⟩
  | none =>
    rw [hold, Option.map_none, Option.none_or] at hcontent
    obtain ⟨f, hadded, hf⟩ := Option.map_eq_some_iff.1 hcontent.symm
    simp only [Decl.content, Prod.mk.injEq] at hf
    obtain ⟨-, hitem, hfile⟩ := hf
    refine ⟨f, (hopen.firstAdded?_eq hold).symm.trans hadded, ?_⟩
    rw [Decl.bytes, ← hitem, ← hfile]

/-- A revision that is taken over shows in the table. -/
theorem takeOver_shows {file : SourceFile} (hsound : w.session.table.Sound)
    (hitems : file.items = (parse file.text).items) (hplan : (planFor w file).blocker = none) :
    (takeOver w file).state.session.table.Shows file.text := by
  have hopen := ChangePlan.unblocked_of_blocker hplan
  have hsound' := sound_takeOver hsound hitems
  refine ⟨hsound'.nodup, fun symbol => ?_, fun d hd => ?_⟩
  · constructor
    · intro hsymbol
      obtain ⟨d, hd, hname⟩ := List.mem_map.1 hsymbol
      obtain ⟨f, hf, -⟩ := takeOver_first hsound hplan (hsound'.find?_eq_some.2 ⟨hd, hname⟩)
      rw [hitems] at hf
      exact ⟨f, firstFunction?_mem hf⟩
    · rintro ⟨f, hf, hname⟩
      by_contra hsymbol
      have hnone := congrArg (Option.map Decl.content) (DeclTable.find?_eq_none.2 hsymbol)
      rw [find?_takeOver, Option.map_none, Option.or_eq_none_iff, Option.map_eq_none_iff,
        Option.map_eq_none_iff] at hnone
      have hfirst := (hopen.firstAdded?_eq hnone.1).symm.trans hnone.2
      rw [hitems] at hfirst
      exact firstFunction?_eq_none.1 hfirst f hf hname
  · rw [← hitems]
    exact takeOver_first hsound hplan (hsound'.find?_eq_some.2 ⟨hd, rfl⟩)

/-! ## Rebuilding -/

/-- A session runs a cycle: when it starts, or when it sees changes, with the link or before
it. -/
inductive Rebuilds : Workshop → Workshop → Prop where
  | start {w w' : Workshop} {event : BuildEvent} : w.start = (w', some event) → Rebuilds w w'
  | beginRebuild {w w' : Workshop} {compiled : Except BuildError Nat} :
      w.beginRebuild = (w', some compiled) → Rebuilds w w'
  | react {w w' : Workshop} {event : BuildEvent} : w.react = (w', some event) → Rebuilds w w'

/-- A session that runs a cycle ends it with the declarations that the rebuild of its root file
leaves. -/
theorem Rebuilds.exists_rebuild (h : w.Rebuilds w') (hw : w.session.WatchesRoot)
    (hroot : w.session.settings.root = some root) :
    ∃ v : Workshop, v.session.table = w.session.table ∧
      v.session.settings = w.session.settings ∧ v.session.isCancelled = false ∧
      v.files = w.files ∧ w'.session.table = (v.rebuild root).state.session.table := by
  have hresumed : w.takeChanges.1 ≠ [] → w.takeChanges.1 = [root] := by
    intro hsome
    rcases hw.changes (Watcher.nodup_distinct w.session.watcher.queue) with hnil | ⟨r, hr, hone⟩
    · exact absurd hnil hsome
    · rw [hroot] at hr
      obtain rfl := Option.some.inj hr
      exact hone
  have hcycle (v : Workshop) :
      (v.runCycle [root]).1.session.table = (v.rebuild root).state.session.table := by
    unfold runCycle
    dsimp only
    rw [finish_table, compile_table]
  cases h with
  | start hstart =>
    rcases start_cases w with ⟨hnone, -⟩ | ⟨r, -, -, hr, heq⟩
    · rw [hstart] at hnone
      cases hnone
    · rw [hroot] at hr
      obtain rfl := Option.some.inj hr
      obtain ⟨rfl, -⟩ := Prod.mk.inj (hstart.symm.trans heq)
      exact ⟨w.opened root, rfl, rfl, rfl, rfl, hcycle _⟩
  | beginRebuild hbegin =>
    rcases beginRebuild_cases w with ⟨-, hnone, -⟩ | ⟨-, hsome, heq⟩
    · rw [hbegin] at hnone
      cases hnone
    · rw [hresumed hsome] at heq
      obtain ⟨rfl, -⟩ := Prod.mk.inj (hbegin.symm.trans heq)
      exact ⟨w.resumed, rfl, rfl, rfl, rfl, compile_table _ _⟩
  | react hreact =>
    rcases react_cases w with ⟨hnone, -⟩ | ⟨-, hsome, heq⟩
    · rw [hreact] at hnone
      cases hnone
    · rw [hresumed hsome] at heq
      obtain ⟨rfl, -⟩ := Prod.mk.inj (hreact.symm.trans heq)
      exact ⟨w.resumed, rfl, rfl, rfl, rfl, hcycle _⟩

/-- Rebuilding a file that is read, has no syntax error and is not blocked shows in the table. -/
theorem rebuild_shows (hsound : w.session.table.Sound) (hlive : w.session.isCancelled = false)
    (hread : readSource w.files w.session.settings.maxSourceSize root = .ok (.ok text))
    (hvalid : (parse text).error = none)
    (hplan : (planFor w ((parse text).file root text)).blocker = none) :
    (w.rebuild root).state.session.table.Shows text := by
  rw [rebuild_eq_takeOver hlive hread hvalid]
  exact takeOver_shows (w := seen w root text) hsound rfl hplan

theorem Rebuilds.reachable (h : w.Rebuilds w') (hw : w.Reachable) : w'.Reachable := by
  cases h with
  | start hstart =>
    have hnext := hw.start
    rwa [hstart] at hnext
  | beginRebuild hbegin =>
    have hnext := hw.beginRebuild
    rwa [hbegin] at hnext
  | react hreact =>
    have hnext := hw.react
    rwa [hreact] at hnext

/-- A cycle over a revision that is not blocked shows in the table. -/
theorem Rebuilds.shows (hrun : w.Rebuilds w') (hreachable : w.Reachable)
    (hroot : w.session.settings.root = some root)
    (hread : readSource w.files w.session.settings.maxSourceSize root = .ok (.ok text))
    (hvalid : (parse text).error = none)
    (hplan : (planFor w ((parse text).file root text)).blocker = none) :
    w'.session.table.Shows text := by
  obtain ⟨v, htable, hsettings, hlive, hfiles, hw'⟩ :=
    hrun.exists_rebuild hreachable.watchesRoot hroot
  rw [hw']
  refine rebuild_shows ?_ hlive ?_ hvalid ?_
  · rw [htable]
    exact hreachable.sound_table
  · rwa [hsettings, hfiles]
  · rwa [planFor, hsettings, htable]

/-! ## New sessions -/

/-- A session that was just made builds its root file when it starts. -/
theorem createSession_start {t t' : Toolchain} {setup : SessionSetup} {s : Session}
    (h : t.createSession setup = (.ok s, t')) (files : FileTree)
    (hroot : setup.settings.root = some root) :
    ∃ u event, (⟨s, t', files⟩ : Workshop).start = (u, some event) := by
  obtain ⟨_, _, _, rfl⟩ := createSession_eq_ok h
  exact ⟨_, _, start_eq rfl rfl hroot⟩

/-- A revision that is not blocked in some session is not blocked in a new one. -/
theorem planFor_fresh {v : Workshop} {file : SourceFile} (hplan : (planFor w file).blocker = none)
    (hsettings : v.session.settings = w.session.settings) (htable : v.session.table = {}) :
    (planFor v file).blocker = none := by
  obtain ⟨changes, hfresh⟩ := (ChangePlan.unblocked_of_blocker hplan).fresh
  rw [planFor, hsettings, htable, hfresh.ofItems_eq]

/-- In whatever state a session runs a cycle, if the text has no syntax error and the diff does
not fail, then what is live afterwards is what the text says; and a new session with the same
settings, which sees that text first, comes to the same names and, under each, the same bytes
and the same function. -/
theorem incremental_table_is_clean (hreachable : w.Reachable)
    (hroot : w.session.settings.root = some root)
    (hread : readSource w.files w.session.settings.maxSourceSize root = .ok (.ok text))
    (hvalid : (parse text).error = none)
    (hdiff : (takeOver w ((parse text).file root text)).outcome = .done)
    (hrun : w.Rebuilds w') :
    w'.session.table.Shows text ∧
      ∀ (t t' : Toolchain) (setup : SessionSetup) (fresh : Session),
        setup.settings = w.session.settings → t.createSession setup = (.ok fresh, t') →
        ∃ u event, (⟨fresh, t', w.files⟩ : Workshop).start = (u, some event) ∧
          u.session.table.Shows text ∧ w'.session.table.Agrees u.session.table := by
  have hplan := takeOver_outcome.1 hdiff
  have hshows := hrun.shows hreachable hroot hread hvalid hplan
  refine ⟨hshows, fun t t' setup fresh hsetup hcreate => ?_⟩
  obtain ⟨id, machine, context, hfresh⟩ := createSession_eq_ok hcreate
  have hsettings : fresh.settings = w.session.settings := by rw [hfresh, ← hsetup]
  have hempty : fresh.table = {} := by rw [hfresh]
  have hroot' : fresh.settings.root = some root := by rw [hsettings, hroot]
  have hmade : (⟨fresh, t', w.files⟩ : Workshop).Reachable := .created w.files hcreate
  obtain ⟨u, event, hstart⟩ := createSession_start hcreate w.files (by rw [hsetup, hroot])
  have hfirst : (⟨fresh, t', w.files⟩ : Workshop).Rebuilds u := .start hstart
  have hshows' : u.session.table.Shows text := by
    refine hfirst.shows hmade hroot' ?_ hvalid ?_
    · rwa [hsettings]
    · exact planFor_fresh hplan hsettings hempty
  exact ⟨u, event, hstart, hshows', hshows.agrees hshows'
    (hrun.reachable hreachable).sound_table (hfirst.reachable hmade).sound_table⟩

/-! ## A run of two cycles -/

/-- A tree with a text in the file `a`. -/
def fileA (text : String) : FileTree := ⟨[(["a"], .file ⟨(bytesOf text).toArray⟩ false)]⟩

/-- A session for the file `a` that was just made. -/
def sessionA (text : String) : Workshop where
  session :=
    { id := 1
      settings := { root := some "a" }
      machine := { target := .host, mode := .debug, layout := "e-p:64:64" }
      context := some 0
      workingDir := "." }
  toolchain :=
    { pool := { made := 1, asked := 1 }, search := .error (.notFound []), nextSession := 2 }
  files := fileA text

theorem createSession_sessionA (text : String) :
    Toolchain.createSession { search := .error (.notFound []) }
      { settings := { root := some "a" } } =
        (.ok (sessionA text).session, (sessionA text).toolchain) := rfl

theorem reachable_sessionA (text : String) : (sessionA text).Reachable :=
  .created (fileA text) (createSession_sessionA text)

theorem pieces_a : Path.pieces "a" = ["a"] := by
  unfold Path.pieces String.splitOn
  rw [String.splitOnAux, String.splitOnAux]
  decide +kernel

theorem find_fileA (text : String) :
    (fileA text).find "a" = .ok (.file ⟨(bytesOf text).toArray⟩ false) := by
  have hpath : FileTree.checkPath "a" = .ok () := by
    have hzero : "a".contains '\x00' = false := by simp
    unfold FileTree.checkPath
    rw [hzero]
    decide +kernel
  have hnode : (fileA text).node? ["a"] = some (.file ⟨(bytesOf text).toArray⟩ false) := rfl
  have hstart : Place.start "a" = [] := by decide +kernel
  have hfollow : (fileA text).follow [] ["a"] = .ok ["a"] := by
    have hsize : ¬FileTree.maxNameSize < "a".utf8ByteSize := by decide +kernel
    have hgiven : (fileA text).node? [] = some .directory := rfl
    simp [FileTree.follow, hgiven, hnode, hsize]
  have hslash : ("a".endsWith "/") = false := by decide +kernel
  unfold FileTree.find FileTree.locate
  rw [hpath, pieces_a, hstart, hfollow, hslash]
  rfl

theorem readSource_fileA (text : String) {limit : Nat} (h : (bytesOf text).length ≤ limit) :
    readSource (fileA text) limit "a" = .ok (.ok text) := by
  have hsize : ¬limit < (bytesOf text).toArray.size := by simpa using h
  unfold readSource
  rw [find_fileA]
  dsimp only [ByteArray.size]
  rw [if_neg hsize, decode_bytesOf]

/-- The session after a cycle over one text, told of another. -/
def revisedA (before after : String) : Workshop :=
  ({ (sessionA before).start.1 with files := fileA after }.touch "a").2

theorem start_sessionA (text : String) :
    (sessionA text).start = ((((sessionA text).opened "a").runCycle ["a"]).1,
      some (((sessionA text).opened "a").runCycle ["a"]).2) :=
  start_eq rfl rfl rfl

theorem reachable_revisedA (before after : String) : (revisedA before after).Reachable :=
  (Reachable.outside (sessionA before).start.1.toolchain (fileA after)
    (reachable_sessionA before).start).touch "a"

theorem settings_revisedA (before after : String) :
    (revisedA before after).session.settings = { root := some "a" } := by
  change (sessionA before).start.1.session.settings = _
  rw [start_sessionA]
  exact (runCycle_settles _ _).2.1

theorem react_revisedA (before after : String) :
    (revisedA before after).react = (((revisedA before after).resumed.runCycle ["a"]).1,
      some ((revisedA before after).resumed.runCycle ["a"]).2) := by
  have hsettles := runCycle_settles ((sessionA before).opened "a") ["a"]
  have hstarted : (sessionA before).start.1.session.isStarted = true := by
    rw [start_sessionA]
    exact hsettles.2.2
  have hphase : (sessionA before).start.1.session.phase = .waitingForChange := by
    rw [start_sessionA]
    exact hsettles.1
  exact touch_react (w := { (sessionA before).start.1 with files := fileA after })
    (reachable_sessionA before).start.watchesRoot hstarted
    (congrArg Settings.root (settings_revisedA before after)) hphase

theorem rebuilds_revisedA (before after : String) :
    (revisedA before after).Rebuilds (revisedA before after).react.1 := by
  have hreact := react_revisedA before after
  rw [hreact]
  exact .react hreact

theorem table_revisedA {before after : String} (hsize : (bytesOf before).length ≤ 4294967295)
    (hvalid : (parse before).error = none) :
    (revisedA before after).session.table =
      (takeOver (seen ((sessionA before).opened "a") "a" before)
        ((parse before).file "a" before)).state.session.table := by
  change (sessionA before).start.1.session.table = _
  rw [start_sessionA]
  unfold runCycle
  dsimp only
  rw [finish_table, compile_table, rebuild_eq_takeOver rfl (readSource_fileA before hsize) hvalid]

theorem two_revisions_table :
    (revisedA "fn f() void {}" "fn g() void {} fn f() void {}").react.1.session.table.Shows
      "fn g() void {} fn f() void {}" := by
  have hread : readSource (fileA "fn g() void {} fn f() void {}") 4294967295 "a" =
      .ok (.ok "fn g() void {} fn f() void {}") := readSource_fileA _ (by decide +kernel)
  have hdiff : (takeOver (revisedA "fn f() void {}" "fn g() void {} fn f() void {}")
      ((parse "fn g() void {} fn f() void {}").file "a" "fn g() void {} fn f() void {}")).outcome =
        .done := by
    rw [takeOver_outcome, planFor, settings_revisedA,
      table_revisedA (by decide +kernel) (by decide +kernel)]
    exact Option.isNone_iff_eq_none.1 (by decide +kernel)
  refine (incremental_table_is_clean (reachable_revisedA ..)
    (congrArg Settings.root (settings_revisedA ..)) ?_ (by decide +kernel) hdiff
    (rebuilds_revisedA ..)).1
  rw [settings_revisedA]
  exact hread

end Workshop

end IncrementalBuild
