import IncrementalBuild.Proofs.Session.Runs
import Mathlib.Data.List.Induction

/-!
# Work that is done once

A declaration keeps its number and its place in the table for as long as the session lives. It
is analyzed at most once, its code and its link are asked for at most once, and only when it was
found to be a function with a body. Once it is resolved, nothing changes what it was resolved
to; a resolution only goes when nothing refers to its declaration any more.

Numbers carry all of this: a cycle resolves and claims only what its own rebuild has made, and
what it makes has numbers that no earlier cycle has seen.
-/

set_option autoImplicit false

namespace IncrementalBuild

/-- A session keeps what a declaration was resolved to, or that is gone because nothing refers to
the declaration any more. -/
def Session.Keeps (s : Session) (id : DeclId) (r : Resolution) : Prop :=
  s.resolution id = .resolved r ∨ (s.resolution id = .empty ∧ s.refersTo id = false)

/-- What is resolved in a session is kept in a later one. -/
def Session.LastsTo (s s' : Session) : Prop :=
  ∀ id r, s.resolution id = .resolved r → s'.Keeps id r

/-- A task analyzes a declaration: it is to resolve it, and is the first to ask. -/
def TaskRun.analyzes (x : TaskRun Workshop BuildTask) : Bool :=
  match x.task with
  | .resolve d => (x.before.session.resolution d.id).start.1 == .produce
  | _ => false

/-- A task asks for the delivery of what it has found, as code or to the link set. -/
def TaskRun.delivers (x : TaskRun Workshop BuildTask) : Bool :=
  (x.step Workshop.runTask).spawned.any (·.isDelivery)

namespace Workshop

variable {w : Workshop} {root : String} {names : Interner} {file : SourceFile}
  {changes : List Change} {problems : List Diagnostic}

/-! ## Who is referred to -/

/-- A claim brings in no declaration but its own. -/
theorem mem_entries_claim {t : ExportTable} {ticket : ClaimTicket} {d : Decl} {e : ExportEntry}
    (h : e ∈ (t.claim ticket d).2.entries) : e ∈ t.entries ∨ e.decl = d := by
  unfold ExportTable.claim at h
  split at h
  · rcases List.mem_append.1 h with h | h
    · exact .inl h
    · right
      rw [List.mem_singleton.1 h]
  · split at h
    · exact .inl h
    · obtain ⟨old, hold, rfl⟩ := List.mem_map.1 h
      split
      · exact .inr rfl
      · exact .inl hold

/-- After a rebuild, no task makes a session refer to a declaration but a claim to its own. -/
theorem runTask_refersTo {task : BuildTask} {id : DeclId} (hrebuild : task.isRebuild = false)
    (hclaim : ∀ ticket d, task = .claim ticket d → d.id ≠ id)
    (h : (runTask task w).state.session.refersTo id = true) : w.session.refersTo id = true := by
  have htable : (runTask task w).state.session.table = w.session.table :=
    congrArg (fun s => s.table) (runTask_still hrebuild w)
  have hentries : ∀ e ∈ (runTask task w).state.session.exports.entries,
      e ∈ w.session.exports.entries ∨ e.decl.id ≠ id := by
    cases task with
    | rebuild path => cases hrebuild
    | claim ticket d =>
      intro e he
      have hexports : (runTask (.claim ticket d) w).state.session.exports =
          (w.session.exports.claim ticket d).2 := by
        unfold runTask claim
        dsimp only
        split <;> rfl
      rw [hexports] at he
      rcases mem_entries_claim he with hold | rfl
      · exact .inl hold
      · exact .inr (hclaim ticket _ rfl)
    | resolve d =>
      intro e he
      have hexports : (w.resolve d).state.session.exports = w.session.exports :=
        congrArg (fun s => s.exports) (resolve_frame w d)
      left
      rw [← hexports]
      exact he
    | runComptime file block =>
      intro e he
      left
      unfold runTask runComptime at he
      dsimp only at he
      split at he <;> exact he
    | generate call => exact fun e he => .inl he
    | link f => exact fun e he => .inl he
  rw [Session.refersTo_iff] at h ⊢
  rcases h with ⟨d, hd, hid⟩ | ⟨e, he, hid⟩
  · rw [htable] at hd
    exact .inl ⟨d, hd, hid⟩
  · rcases hentries e he with hold | hne
    · exact .inr ⟨e, hold, hid⟩
    · exact absurd hid hne

/-! ## Within a cycle -/

/-- What is resolved stays resolved as long as the tasks of a cycle run. -/
theorem resolved_within_cycle (w : Workshop) (root : String) :
    (statesOf runTask (w.cycleHistory root)).Pairwise (fun v v' =>
        v.session.LastsTo v'.session) ∧
      ∀ v ∈ statesOf runTask (w.cycleHistory root), ∀ id r,
        v.session.resolution id = .resolved r →
          (runGroup groupName runTask BuildTask.depth [.rebuild root]
            w).state.session.resolution id = .resolved r := by
  have hleads := (runGroup_history groupName runTask BuildTask.depth [.rebuild root] w).1
  let Kept (v v' : Workshop) : Prop := ∀ id r,
    v.session.resolution id = .resolved r → v'.session.resolution id = .resolved r
  have hrefl (v : Workshop) : Kept v v := fun _ _ h => h
  have htrans (v v' v'' : Workshop) (h : Kept v v') (h' : Kept v' v'') : Kept v v'' :=
    fun id r hv => h' id r (h id r hv)
  have hstep (task : BuildTask) (v : Workshop) : Kept v (runTask task v).state :=
    fun _ _ hv => runTask_resolved hv task
  obtain ⟨-, hbetween, hpairs⟩ := hleads.pairwise hrefl htrans hstep
  refine ⟨hpairs.imp fun h id r hv => .inl (h id r hv), fun v hv => (hbetween v hv).2⟩

/-- What an earlier cycle has made: it was resolved then or never, and what no longer refers to
it never will again. -/
structure KeepsOld (v v' : Workshop) (id : DeclId) : Prop where
  resolution : v'.session.resolution id = v.session.resolution id
  refersTo : v'.session.refersTo id = true → v.session.refersTo id = true

/-- A rebuild keeps what earlier cycles have made. -/
theorem Rebuilt.keepsOld (h : Rebuilt w.session names file changes problems (w.rebuild root))
    {id : DeclId} (hid : id < w.session.nextDecl) : KeepsOld w (w.rebuild root).state id := by
  refine ⟨Session.resolution_congr h.resolutions id, fun hrefers => ?_⟩
  rw [Session.refersTo_iff, h.table, h.entries] at hrefers
  rw [Session.refersTo_iff]
  rcases hrefers with ⟨d, hd, rfl⟩ | hexported
  · rcases DeclTable.mem_foldl_enter hd with hold | hnew
    · exact .inl ⟨d, hold, rfl⟩
    · exact absurd hid (Nat.not_lt.2 (Change.le_id_made d hnew))
  · exact .inr hexported

/-- The tasks that a rebuild spawns keep what earlier cycles have made. -/
theorem Rebuilt.keepsOld_step (h : Rebuilt w.session names file changes problems (w.rebuild root))
    {id : DeclId} (hid : id < w.session.nextDecl) {task : BuildTask}
    (htask : task ∈ (w.rebuild root).spawned ∨ task.isDelivery = true) {v : Workshop}
    (hv : KeepsOld w v id) : KeepsOld w (runTask task v).state id := by
  have hnew {d : Decl}
      (hd : d ∈ exported (Change.made names file w.session.nextDecl changes)) : d.id ≠ id := by
    rintro rfl
    exact Change.notMem_exported_of_lt hid (List.mem_map_of_mem (f := (·.id)) hd)
  have hrebuild : task.isRebuild = false := by
    rcases htask with hspawned | hdelivery
    · exact runTask_spawned (.rebuild root) w task hspawned
    · cases task with
      | rebuild path => cases hdelivery
      | _ => rfl
  have hresolve : ∀ d, task = .resolve d → d.id ≠ id := by
    rintro d rfl
    rcases htask with hspawned | hdelivery
    · rw [h.spawned, ← BuildTask.mem_resolved, Change.resolved_tasks] at hspawned
      exact hnew hspawned
    · cases hdelivery
  have hclaim : ∀ ticket d, task = .claim ticket d → d.id ≠ id := by
    rintro ticket d rfl
    rcases htask with hspawned | hdelivery
    · rw [h.spawned] at hspawned
      have hclaimed : d ∈ (Change.tasks names file w.session.nextDecl
          w.session.exports.reserved changes).filterMap BuildTask.claims? :=
        List.mem_filterMap.2 ⟨_, hspawned, rfl⟩
      rw [Change.claimed_tasks] at hclaimed
      exact hnew hclaimed
    · cases hdelivery
  refine ⟨(runTask_resolution hresolve).trans hv.resolution, fun hrefers => ?_⟩
  exact hv.refersTo (runTask_refersTo hrebuild hclaim hrefers)

/-- A cycle keeps what earlier cycles have made, in each of its states. -/
theorem Rebuilt.keepsOld_cycle (h : Rebuilt w.session names file changes problems (w.rebuild root))
    {id : DeclId} (hid : id < w.session.nextDecl) :
    KeepsOld w (runGroup groupName runTask BuildTask.depth [.rebuild root] w).state id ∧
      ∀ v ∈ statesOf runTask (w.cycleHistory root), KeepsOld w v id := by
  have hleads := (runGroup_history groupName runTask BuildTask.depth [.rebuild root] w).1
  have hself : KeepsOld w w id := ⟨rfl, fun hrefers => hrefers⟩
  refine hleads.kept (I := fun v => KeepsOld w v id) hself fun x hx hbefore => ?_
  rw [← cycleHistory, cycleHistory_eq] at hx
  rcases List.mem_cons.1 hx with rfl | hx
  · exact h.keepsOld hid
  · refine h.keepsOld_step hid ?_ hbefore
    rcases List.mem_append.1 hx with hfollow | hdeliver
    · exact .inl (task_mem_of_mem_lineOf hfollow)
    · exact .inr (isDelivery_of_mem_deliveries (task_mem_of_mem_lineOf hdeliver))

theorem KeepsOld.keeps {v v' : Workshop} {id : DeclId} {r : Resolution} (h : KeepsOld v v' id)
    (hv : v.session.Keeps id r) : v'.session.Keeps id r := by
  rcases hv with hresolved | ⟨hempty, hgone⟩
  · exact .inl (h.resolution.trans hresolved)
  · right
    refine ⟨h.resolution.trans hempty, ?_⟩
    rw [← Bool.not_eq_true]
    intro hrefers
    rw [h.refersTo hrefers] at hgone
    cases hgone

/-- Forgetting takes nothing away from a declaration that something refers to. -/
theorem keeps_forget {s : Session} {id : DeclId} {r : Resolution} (h : s.Keeps id r) :
    s.forget.Keeps id r := by
  have hforget := s.resolution_forget id
  rcases h with hresolved | ⟨hempty, hgone⟩
  · cases hrefers : s.refersTo id with
    | true =>
      left
      rw [hforget, if_pos hrefers, hresolved]
    | false =>
      right
      refine ⟨?_, hrefers⟩
      rw [hforget, hrefers]
      rfl
  · right
    refine ⟨?_, hgone⟩
    rw [hforget, hempty, ite_self]

theorem keeps_congr {s s' : Session} (h : s.products = s'.products) {id : DeclId}
    {r : Resolution} : s.Keeps id r ↔ s'.Keeps id r := by
  have hresolution : s.resolution id = s'.resolution id :=
    Session.resolution_congr (congrArg (fun s => s.resolutions) h) id
  have hrefers : s.refersTo id = s'.refersTo id := congrArg (fun s => s.refersTo id) h
  unfold Session.Keeps
  rw [hresolution, hrefers]

/-! ## From cycle to cycle -/

/-- What is recorded of a session that has come to a state: each declaration was asked for once,
under a number that is given away, and what was resolved on the way lasts. -/
structure Recorded (history : List (TaskRun Workshop BuildTask)) (w : Workshop) : Prop where
  numbered : ∀ d ∈ resolvedIn history, d.id < w.session.nextDecl
  asked : ((resolvedIn history).map (·.id)).Nodup
  known : ∀ v ∈ statesOf runTask history, ∀ id r, v.session.resolution id = .resolved r →
    id < w.session.nextDecl
  lasting : (statesOf runTask history ++ [w]).Pairwise fun v v' => v.session.LastsTo v'.session

theorem statesOf_append (before after : List (TaskRun Workshop BuildTask)) :
    statesOf runTask (before ++ after) = statesOf runTask before ++ statesOf runTask after :=
  List.flatMap_append

/-- What a cycle resolves has a number from the end of the cycle on. -/
theorem known_after_cycle (hs : w.session.Settled)
    (h : Rebuilt w.session names file changes problems (w.rebuild root)) {id : DeclId}
    {r : Resolution} (hid : (runGroup groupName runTask BuildTask.depth [.rebuild root]
      w).state.session.resolution id = .resolved r) :
    id < w.session.nextDecl + (Change.made names file w.session.nextDecl changes).length := by
  by_contra hlarge
  rw [(compiled_of_rebuilt hs h).unresolved hs (Nat.not_lt.1 hlarge)] at hid
  cases hid

/-- A cycle gives away a number for each declaration that it makes. -/
theorem Rebuilt.nextDecl_runCycle (hs : w.session.Settled)
    (h : Rebuilt w.session names file changes problems (w.rebuild root)) :
    (w.runCycle [root]).1.session.nextDecl = w.session.nextDecl +
      (Change.made names file w.session.nextDecl changes).length := by
  have hend := congrArg (fun s => s.nextDecl) (runCycle_products w root)
  exact hend.trans ((compiled_of_rebuilt hs h).nextDecl h)

/-- What a cycle resolves lasts to its end. -/
theorem lasting_cycle (w : Workshop) (root : String) :
    (statesOf runTask (w.cycleHistory root) ++ [(w.runCycle [root]).1]).Pairwise
      fun v v' => v.session.LastsTo v'.session := by
  obtain ⟨hwithin, hend⟩ := resolved_within_cycle w root
  refine List.pairwise_append.2 ⟨hwithin, List.pairwise_singleton .., ?_⟩
  intro v hv v' hv' id r hresolved
  rw [List.mem_singleton.1 hv', keeps_congr (runCycle_products w root)]
  exact keeps_forget (.inl (hend v hv id r hresolved))

/-- What is kept when a cycle begins is kept in each of its states, and after it. -/
theorem Rebuilt.keeps_cycle (h : Rebuilt w.session names file changes problems (w.rebuild root))
    {id : DeclId} {r : Resolution} (hid : id < w.session.nextDecl) (hkeeps : w.session.Keeps id r) :
    ∀ v ∈ statesOf runTask (w.cycleHistory root) ++ [(w.runCycle [root]).1],
      v.session.Keeps id r := by
  obtain ⟨hcycle, hstates⟩ := h.keepsOld_cycle hid
  intro v hv
  rcases List.mem_append.1 hv with hv | hv
  · exact (hstates v hv).keeps hkeeps
  · rw [List.mem_singleton.1 hv, keeps_congr (runCycle_products w root)]
    exact keeps_forget (hcycle.keeps hkeeps)

/-- The history of one more cycle. -/
theorem Recorded.revise {setup : SessionSetup} {history : List (TaskRun Workshop BuildTask)}
    (h : Recorded history w) (hawaits : w.session.Awaits setup)
    (hroot : setup.settings.root = some root) (files : FileTree) :
    Recorded (history ++ (w.begun root files).cycleHistory root) (w.revise root files).1 := by
  obtain ⟨hs, -, -, -, -, -, hrun, -⟩ := begun_of_awaits hawaits hroot files
  have hbegun := begun_products w root files
  rw [hrun]
  generalize w.begun root files = v at hs hbegun
  obtain ⟨names, file, changes, problems, hrebuilt, -⟩ := exists_rebuilt hs.nodup root
  have hresolves := resolvedIn_cycleHistory hrebuilt
  have hnext := hrebuilt.nextDecl_runCycle hs
  have hfirst : v.session.nextDecl = w.session.nextDecl := congrArg (fun s => s.nextDecl) hbegun
  obtain ⟨hbefore, -, hlast⟩ := List.pairwise_append.1 h.lasting
  refine ⟨fun d hd => ?_, ?_, fun u hu id r hresolved => ?_, ?_⟩
  · rw [resolvedIn_append, hresolves, List.mem_append] at hd
    rw [hnext]
    rcases hd with hd | hd
    · rw [hfirst]
      exact Nat.lt_of_lt_of_le (h.numbered d hd) (Nat.le_add_right ..)
    · exact Change.id_made_lt d (mem_exported.1 hd).1
  · rw [resolvedIn_append, hresolves, List.map_append]
    have hmade : ((Change.made names file v.session.nextDecl changes).map (·.id)).Nodup :=
      Change.nodup_id_made
    refine h.asked.append (hmade.sublist (List.filter_sublist.map _)) ?_
    intro id hid
    obtain ⟨d, hd, rfl⟩ := List.mem_map.1 hid
    apply Change.notMem_exported_of_lt
    rw [hfirst]
    exact h.numbered d hd
  · rw [statesOf_append, List.mem_append] at hu
    rw [hnext]
    rcases hu with hu | hu
    · rw [hfirst]
      exact Nat.lt_of_lt_of_le (h.known u hu id r hresolved) (Nat.le_add_right ..)
    · exact known_after_cycle hs hrebuilt ((resolved_within_cycle v root).2 u hu id r hresolved)
  · rw [statesOf_append, List.append_assoc]
    refine List.pairwise_append.2 ⟨hbefore, lasting_cycle v root, ?_⟩
    intro u hu u' hu' id r hresolved
    have hid := h.known u hu id r hresolved
    have hkeeps := hlast u hu w (List.mem_singleton_self w) id r hresolved
    rw [← hfirst] at hid
    rw [← keeps_congr hbegun] at hkeeps
    exact hrebuilt.keeps_cycle hid hkeeps u' hu'

/-- What is recorded of a session that was shown any contents. -/
theorem recorded_reviseAll {setup : SessionSetup} (hawaits : w.session.Awaits setup)
    (hroot : setup.settings.root = some root) (contents : List FileTree) :
    Recorded (w.history root contents) (w.reviseAll root contents) := by
  induction contents using List.reverseRecOn with
  | nil =>
    refine ⟨?_, List.nodup_nil, ?_, List.pairwise_singleton ..⟩
    · exact fun d hd => absurd hd List.not_mem_nil
    · exact fun v hv => absurd hv List.not_mem_nil
  | append_singleton contents files ih =>
    rw [history_concat, reviseAll_concat]
    exact ih.revise (reviseAll_awaits hawaits hroot contents) hroot files

/-! ## The table -/

theorem prefix_foldl_enter (decls : List Decl) (t : DeclTable) :
    t.decls <+: (decls.foldl DeclTable.enter t).decls := by
  induction decls generalizing t with
  | nil => exact List.prefix_refl _
  | cons d decls ih =>
    have henter : t.decls <+: (t.enter d).decls := by
      unfold DeclTable.enter DeclTable.insert
      cases t.find? d.symbol with
      | some existing => exact List.prefix_refl _
      | none => exact List.prefix_append ..
    exact henter.trans (ih (t.enter d))

/-- A cycle takes no declaration out of the table, and moves none. -/
theorem prefix_revise {setup : SessionSetup} (hawaits : w.session.Awaits setup)
    (hroot : setup.settings.root = some root) (files : FileTree) :
    w.session.table.decls <+: (w.revise root files).1.session.table.decls := by
  obtain ⟨hs, -, -, -, -, -, hrun, -⟩ := begun_of_awaits hawaits hroot files
  have hbegun : (w.begun root files).session.table = w.session.table :=
    congrArg (fun s => s.table) (begun_products w root files)
  obtain ⟨names, file, changes, problems, hrebuilt, -⟩ := exists_rebuilt hs.nodup root
  rw [hrun, ← hbegun]
  unfold runCycle
  dsimp only
  rw [finish_table, compile_table, hrebuilt.table]
  exact prefix_foldl_enter ..

/-- What is live stays live, in its place, whatever contents follow. -/
theorem prefix_reviseAll {setup : SessionSetup} (hawaits : w.session.Awaits setup)
    (hroot : setup.settings.root = some root) (contents : List FileTree) :
    w.session.table.decls <+: (w.reviseAll root contents).session.table.decls := by
  induction contents using List.reverseRecOn with
  | nil => exact List.prefix_refl _
  | append_singleton contents files ih =>
    rw [reviseAll_concat]
    exact ih.trans (prefix_revise (reviseAll_awaits hawaits hroot contents) hroot files)

/-! ## The run of a session -/

/-- The numbers of the declarations that some of the tasks of a history resolve are among those
that all of them do. -/
theorem nodup_resolvedIn_filter {history : List (TaskRun Workshop BuildTask)}
    (h : ((resolvedIn history).map (·.id)).Nodup) (p : TaskRun Workshop BuildTask → Bool) :
    ((resolvedIn (history.filter p)).map (·.id)).Nodup := by
  have hsub : (resolvedIn (history.filter p)).Sublist (resolvedIn history) :=
    List.filter_sublist.filterMap _
  exact h.sublist (hsub.map _)

/-- A session is shown any contents of its files, one after the other, and its cycles may end as
they like. What is live after some of them is live after all of them: the same declarations, in
the same places. Each declaration is analyzed at most once; its code and its link are asked for
at most once, together, by the task that first resolves it, and only if that finds a function
with a body. What was resolved at any time is resolved to the same at any later time, until
nothing refers to the declaration any more. -/
theorem each_declaration_is_built_once {t : Toolchain} {setup : SessionSetup}
    (hroot : setup.settings.root = some root)
    (hcreate : t.createSession setup = (.ok w.session, w.toolchain)) (contents : List FileTree) :
    (∀ earlier later, contents = earlier ++ later →
      (w.reviseAll root earlier).session.table.decls <+:
        (w.reviseAll root contents).session.table.decls) ∧
    ((resolvedIn ((w.history root contents).filter (·.analyzes))).map (·.id)).Nodup ∧
    ((resolvedIn ((w.history root contents).filter (·.delivers))).map (·.id)).Nodup ∧
    (∀ x ∈ w.history root contents, x.delivers = true → ∃ d, x.Builds d) ∧
    (statesOf runTask (w.history root contents) ++ [w.reviseAll root contents]).Pairwise
      fun v v' => v.session.LastsTo v'.session := by
  have hawaits := createSession_awaits hcreate
  have hrecorded := recorded_reviseAll hawaits hroot contents
  refine ⟨?_, nodup_resolvedIn_filter hrecorded.asked _,
    nodup_resolvedIn_filter hrecorded.asked _, ?_, hrecorded.lasting⟩
  · rintro earlier later rfl
    have hsplit : w.reviseAll root (earlier ++ later) =
        (w.reviseAll root earlier).reviseAll root later := by
      unfold reviseAll
      exact List.foldl_append
    rw [hsplit]
    exact prefix_reviseAll (reviseAll_awaits hawaits hroot earlier) hroot later
  · intro x hx hdelivers
    obtain ⟨task, htask, hdelivery⟩ := List.any_eq_true.1 hdelivers
    exact builds_of_delivery x htask hdelivery

/-- A text in which two exported functions have one name. -/
def repeatedText : String := "export fn f() void {}\nexport fn f() void {}\n"

theorem repeatedText_is_built_once :
    ((sessionA repeatedText).reviseAll "a" [fileA repeatedText]).session.table.decls <+:
        ((sessionA repeatedText).reviseAll "a"
          [fileA repeatedText, fileA repeatedText]).session.table.decls ∧
      ((resolvedIn (((sessionA repeatedText).history "a"
        [fileA repeatedText, fileA repeatedText]).filter (·.delivers))).map (·.id)).Nodup := by
  obtain ⟨hkept, -, hdelivered, -, -⟩ := each_declaration_is_built_once rfl
    (createSession_sessionA repeatedText) [fileA repeatedText, fileA repeatedText]
  exact ⟨hkept [fileA repeatedText] [fileA repeatedText] rfl, hdelivered⟩

end Workshop

end IncrementalBuild
