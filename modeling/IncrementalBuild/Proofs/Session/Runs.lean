import IncrementalBuild.Proofs.Session.CleanVerdict
import IncrementalBuild.Proofs.Session.Effects

/-!
# The history of a session

A session is shown contents of its files, one after the other, and runs a cycle over each. Its
history is that of all its cycles. In a cycle the rebuild of the root file comes first, then
what the rebuild spawns, in order, and then the code and the links of what was resolved. What a
cycle makes of declarations, exports, links and resolutions stays as it is until the next one.
-/

set_option autoImplicit false

namespace IncrementalBuild

/-- The session without what only tells how far it is: what is left is made by the tasks of its
cycles. -/
def Session.products (s : Session) : Session :=
  { s with
    plan := {}, phase := .awaitingStart, isStarted := false, cycle := 0, types := .initial
    log := {}, hasTempDir := false, watcher := {}, watched := [], journal := [] }

/-- What sessions share, without whether the search for the native runtime was made. -/
def Toolchain.searched (t : Toolchain) : Toolchain :=
  { t with native := .resolved (t.native.peek.getD t.search), searches := 0 }

theorem Toolchain.nativeRuntime_searched (t : Toolchain) :
    t.nativeRuntime.2.searched = t.searched := by
  unfold nativeRuntime searched
  cases t.native <;> rfl

namespace Workshop

variable {w v : Workshop} {root : String}

/-! ## Between the tasks of two cycles -/

/-- To begin a cycle makes nothing. -/
theorem begun_products (w : Workshop) (root : String) (files : FileTree) :
    (w.begun root files).session.products = w.session.products := by
  unfold begun
  split
  · rfl
  · rfl

theorem opened_searched (w : Workshop) (root : String) :
    (w.opened root).toolchain.searched = w.toolchain.searched := by
  unfold opened
  dsimp only
  split
  · exact w.toolchain.nativeRuntime_searched
  · rfl

theorem begun_searched (w : Workshop) (root : String) (files : FileTree) :
    (w.begun root files).toolchain.searched = w.toolchain.searched := by
  unfold begun
  split
  · rfl
  · exact opened_searched { w with files } root

theorem begun_calls (w : Workshop) (root : String) (files : FileTree) :
    (w.begun root files).toolchain.calls = w.toolchain.calls :=
  congrArg (fun t => t.calls) (begun_searched w root files)

/-- A link and the end of a cycle make nothing. -/
theorem finish_products (w : Workshop) (compiled : Except BuildError Nat) :
    (w.finish compiled).1.session.products = w.session.products := by
  obtain ⟨s, hlinked, hfinish⟩ := finish_session w compiled
  have hproducts : s.unlinked.products = w.session.unlinked.products := by rw [hlinked]
  rw [hfinish]
  exact hproducts

/-- A cycle makes what its tasks do, except for the resolutions that are forgotten after them. -/
theorem runCycle_products (w : Workshop) (root : String) :
    (w.runCycle [root]).1.session.products =
      (runGroup groupName runTask BuildTask.depth [.rebuild root]
        w).state.session.forget.products := by
  obtain ⟨phase, hsession⟩ := compile_session w [root]
  unfold runCycle
  dsimp only
  rw [finish_products, hsession]
  rfl

theorem linkInput_searched (w : Workshop) :
    w.linkInput.2.toolchain.searched = w.toolchain.searched := by
  unfold linkInput
  dsimp only
  split
  · exact w.toolchain.nativeRuntime_searched
  · rfl

theorem useLinker_searched (w : Workshop) :
    w.useLinker.2.toolchain.searched = w.toolchain.searched := by
  unfold useLinker
  split
  · rfl
  · split
    · exact linkInput_searched w
    · rfl

/-- Of what sessions share, a link changes at most whether that search was made. -/
theorem link_searched (w : Workshop) (cycle : Nat) :
    (w.link cycle).2.toolchain.searched = w.toolchain.searched := by
  have hcommand (v : Workshop) : v.writeCommand.2.toolchain.searched = v.toolchain.searched := by
    have hinput := linkInput_searched v
    unfold writeCommand
    split
    · dsimp only
      split
      · exact hinput
      · exact hinput
    · rfl
  have hdecide (v : Workshop) : v.decideLink.2.toolchain.searched = v.toolchain.searched := by
    unfold decideLink
    split
    · exact useLinker_searched v
    · dsimp only
      split
      · rfl
      · rw [useLinker_searched]
        rfl
  unfold link
  extract_lets w'
  have hbefore : w'.writeCommand.2.toolchain.searched = w.toolchain.searched := hcommand w'
  split
  · rename_i hwrite
    rwa [hwrite] at hbefore
  · rename_i u hwrite
    rw [hwrite] at hbefore
    exact (hdecide u).trans hbefore

/-- Only the tasks of a cycle request code. -/
theorem runCycle_calls (w : Workshop) (root : String) :
    (w.runCycle [root]).1.toolchain.calls =
      (runGroup groupName runTask BuildTask.depth [.rebuild root] w).state.toolchain.calls := by
  have hfinish (v : Workshop) (compiled : Except BuildError Nat) :
      (v.finish compiled).1.toolchain.calls = v.toolchain.calls := by
    cases compiled with
    | error e => rfl
    | ok n => exact congrArg (fun t => t.calls) (link_searched v (v.session.cycle + 1))
  unfold runCycle
  dsimp only
  rw [hfinish]
  unfold compile
  dsimp only
  rw [List.map_singleton]
  split <;> rfl

/-! ## The history of a cycle -/

/-- What runs in a cycle over a file. -/
def cycleHistory (w : Workshop) (root : String) : List (TaskRun Workshop BuildTask) :=
  historyOf runTask BuildTask.depth [.rebuild root] w

/-- The tasks that a rebuild spawns, as they run. -/
def followUps (w : Workshop) (root : String) : List (TaskRun Workshop BuildTask) :=
  lineOf runTask (w.rebuild root).spawned (w.rebuild root).state

/-- The state in which all these have run. -/
def resolvedState (w : Workshop) (root : String) : Workshop :=
  endOf runTask (w.rebuild root).spawned (w.rebuild root).state

/-- The deliveries that follow from them. -/
def deliveries (w : Workshop) (root : String) : List BuildTask :=
  spawnedBy runTask (w.rebuild root).spawned (w.rebuild root).state

theorem cycleHistory_eq (w : Workshop) (root : String) :
    w.cycleHistory root = ⟨w, .rebuild root⟩ ::
      (w.followUps root ++ lineOf runTask (w.deliveries root) (w.resolvedState root)) := by
  have hfirst : spawnedBy runTask [.rebuild root] w = (w.rebuild root).spawned := List.append_nil _
  unfold cycleHistory BuildTask.depth
  rw [historyOf, historyOf, historyOf, historyOf, hfirst, List.append_nil]
  rfl

/-- Where the tasks of a cycle end. -/
theorem runGroup_eq (w : Workshop) (root : String) :
    (runGroup groupName runTask BuildTask.depth [.rebuild root] w).state =
      endOf runTask (w.deliveries root) (w.resolvedState root) := by
  have hleads := (runGroup_history groupName runTask BuildTask.depth [.rebuild root] w).1
  rw [← cycleHistory, cycleHistory_eq] at hleads
  cases hleads with
  | next hrest =>
    obtain ⟨m, hfollow, hdeliver⟩ := hrest.split
    obtain rfl := hfollow.eq_end
    exact hdeliver.eq_end

/-- What the tasks after a rebuild spawn is delivered. -/
theorem isDelivery_of_mem_deliveries {t : BuildTask} (ht : t ∈ w.deliveries root) :
    t.isDelivery = true := by
  obtain ⟨x, hx, hspawned⟩ := List.mem_flatMap.1 ht
  have htask := runTask_spawned (.rebuild root) w x.task (task_mem_of_mem_lineOf hx)
  exact runTask_delivers htask x.before t hspawned

/-! ## The history of a session -/

/-- What runs while a session is shown contents of its files, one after the other. -/
def history (w : Workshop) (root : String) : List FileTree → List (TaskRun Workshop BuildTask)
  | [] => []
  | files :: rest =>
    (w.begun root files).cycleHistory root ++ (w.revise root files).1.history root rest

theorem reviseAll_append (w : Workshop) (root : String) (earlier later : List FileTree) :
    w.reviseAll root (earlier ++ later) = (w.reviseAll root earlier).reviseAll root later :=
  List.foldl_append

theorem reviseAll_concat (w : Workshop) (root : String) (contents : List FileTree)
    (files : FileTree) : w.reviseAll root (contents ++ [files]) =
      ((w.reviseAll root contents).revise root files).1 := by
  rw [reviseAll_append]
  rfl

theorem history_append (w : Workshop) (root : String) (earlier later : List FileTree) :
    w.history root (earlier ++ later) =
      w.history root earlier ++ (w.reviseAll root earlier).history root later := by
  induction earlier generalizing w with
  | nil => rfl
  | cons files earlier ih =>
    rw [List.cons_append, history, history, ih, List.append_assoc]
    rfl

/-- The last contents add the history of the last cycle. -/
theorem history_concat (w : Workshop) (root : String) (contents : List FileTree)
    (files : FileTree) : w.history root (contents ++ [files]) = w.history root contents ++
      ((w.reviseAll root contents).begun root files).cycleHistory root := by
  rw [history_append, history, history, List.append_nil]

/-- The declarations that tasks resolve, in the order in which they do. -/
def resolvedIn (history : List (TaskRun Workshop BuildTask)) : List Decl :=
  history.filterMap (·.task.resolves?)

theorem resolvedIn_append (before after : List (TaskRun Workshop BuildTask)) :
    resolvedIn (before ++ after) = resolvedIn before ++ resolvedIn after := List.filterMap_append

theorem resolvedIn_lineOf (tasks : List BuildTask) (w : Workshop) :
    resolvedIn (lineOf runTask tasks w) = BuildTask.resolved tasks := by
  have htasks : (lineOf runTask tasks w).map (·.task) = tasks := map_task_lineOf tasks w
  have hmap := congrArg (List.filterMap BuildTask.resolves?) htasks
  rw [List.filterMap_map] at hmap
  exact hmap

/-- A cycle resolves the exported declarations that its rebuild has made. -/
theorem resolvedIn_cycleHistory {names : Interner} {file : SourceFile} {changes : List Change}
    {problems : List Diagnostic}
    (h : Rebuilt w.session names file changes problems (w.rebuild root)) :
    resolvedIn (w.cycleHistory root) =
      exported (Change.made names file w.session.nextDecl changes) := by
  have hfollow : resolvedIn (w.followUps root) =
      exported (Change.made names file w.session.nextDecl changes) := by
    rw [followUps, resolvedIn_lineOf, h.spawned, Change.resolved_tasks]
  have hdeliver : BuildTask.resolved (w.deliveries root) = [] := by
    rw [List.eq_nil_iff_forall_not_mem]
    intro d hd
    have hdelivery := isDelivery_of_mem_deliveries (BuildTask.mem_resolved.1 hd)
    cases hdelivery
  have hcons (rest : List (TaskRun Workshop BuildTask)) :
      resolvedIn (⟨w, .rebuild root⟩ :: rest) = resolvedIn rest := rfl
  rw [cycleHistory_eq, hcons, resolvedIn_append, resolvedIn_lineOf, hfollow, hdeliver,
    List.append_nil]

end Workshop

end IncrementalBuild
