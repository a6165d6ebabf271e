import IncrementalBuild.Proofs.Session.Once
import IncrementalBuild.Proofs.Session.Waiting
import IncrementalBuild.Proofs.Types.Evolution

/-!
# The types that are there after a cycle

Tasks use the types of a session only by asking for them and letting go of them, and each cycle
ends by reclaiming. So after a cycle the types that are there, besides the pinned ones, are those
that the session holds and those these are made of. It holds the types of the declarations that
are live or whose symbol is in use, as far as they were resolved, and those of the functions to
link. What a resolution that is kept holds is there as long as the resolution is.
-/

set_option autoImplicit false

namespace IncrementalBuild

/-! ## What is held -/

/-- The types a session holds: those of the resolutions of declarations that are live or whose
symbol is in use, and those of the functions to link. A resolution that failed holds none. -/
def Session.heldTypes (s : Session) : List TypeId :=
  (s.table.decls ++ s.exports.entries.map (·.decl)).flatMap (fun d => (s.resolution d.id).held) ++
    s.linkSet.functions.map (·.type)

/-- The types of a session are the pinned ones and those that are reached from what it holds, and
none waits to be reclaimed. -/
structure Session.HasItsTypes (s : Session) : Prop where
  idle : s.types.queue = []
  pinned : s.types.pinnedShapes = TypeStore.initial.shapes
  reached : ∀ o ∈ s.types.objects, o.isPinned = false → s.types.Reached s.heldTypes o.id
  resident : ∀ id, s.types.Reached s.heldTypes id → ∃ o ∈ s.types.objects, o.id = id

/-- What is resolved in a session and referred to in a later one is resolved to the same there,
and all that it reaches has its entry, as it had. -/
def Session.KeepsTypesTo (s s' : Session) : Prop :=
  ∀ id r, s.resolution id = .resolved r → s'.refersTo id = true →
    s'.resolution id = .resolved r ∧ ∀ i, s.types.Reached r.held i →
      ∃ o ∈ s.types.objects, o.id = i ∧ ∃ o', s'.types.find? o.form = some o' ∧ o'.id = i

/-- The types that a task has made. -/
def TaskRun.madeTypes (x : TaskRun Workshop BuildTask) : List TypeObject :=
  (x.step Workshop.runTask).state.session.types.objects.filter fun o =>
    decide (x.before.session.types.next ≤ o.id)

namespace Session

variable {s : Session}

theorem mem_heldTypes_of_resolution {id : DeclId} (hrefers : s.refersTo id = true) {i : TypeId}
    (hi : i ∈ (s.resolution id).held) : i ∈ s.heldTypes := by
  refine List.mem_append_left _ (List.mem_flatMap.2 ?_)
  rcases refersTo_iff.1 hrefers with ⟨d, hd, rfl⟩ | ⟨e, he, rfl⟩
  · exact ⟨d, List.mem_append_left _ hd, hi⟩
  · exact ⟨e.decl, List.mem_append_right _ (List.mem_map_of_mem he), hi⟩

/-- What is held is in the books. -/
theorem heldTypes_subset_held (s : Session) : s.heldTypes ⊆ s.held := by
  intro i hi
  rcases List.mem_append.1 hi with hi | hi
  · obtain ⟨d, -, hmem⟩ := List.mem_flatMap.1 hi
    exact mem_held_of_resolution hmem
  · exact List.mem_append_right _ hi

/-- What the books know of resolutions and of links is held. -/
theorem mem_heldTypes {extra : List TypeId} (h : s.Balanced extra)
    (hreferred : ∀ x ∈ s.resolutions, s.refersTo x.1 = true) {i : TypeId}
    (hi : i ∈ s.resolutions.flatMap (·.2.held) ++ s.linkSet.functions.map (·.type)) :
    i ∈ s.heldTypes := by
  rcases List.mem_append.1 hi with hi | hi
  · obtain ⟨x, hx, hmem⟩ := List.mem_flatMap.1 hi
    refine mem_heldTypes_of_resolution (hreferred x hx) ?_
    rwa [resolution_eq_of_mem h.keys hx]
  · exact List.mem_append_right _ hi

/-- A session whose books are balanced has its types when nothing waits to be reclaimed. -/
theorem Balanced.hasItsTypes (h : s.Balanced [])
    (hreferred : ∀ x ∈ s.resolutions, s.refersTo x.1 = true) (ht : s.types.Tended)
    (hidle : s.types.queue = []) : s.HasItsTypes := by
  let handles := s.resolutions.flatMap (·.2.held) ++ s.linkSet.functions.map (·.type)
  have hbooks : s.types.Sound (handles ++ TypeStore.initial.ownHoldings) := by
    refine h.types.perm ?_
    unfold held
    rw [List.nil_append, List.append_assoc]
    exact List.perm_append_comm
  refine ⟨hidle, ht.pinned, fun o ho hfree => ?_, fun id hreach => ?_⟩
  · have hreach := ht.reached_of_idle hbooks hidle ho hfree
    exact hreach.of_handles fun i hi => mem_heldTypes h hreferred hi
  · exact TypeStore.mem_ids.1 (h.types.mem_ids_of_reached s.heldTypes_subset_held hreach)

theorem Awaits.atRest {setup : SessionSetup} (h : s.Awaits setup) : s.AtRest :=
  h.waits.imp (fun hidle => hidle) fun hwaits => hwaits.2

/-- What nothing refers to is not resolved. -/
theorem resolution_eq_empty (hreferred : ∀ x ∈ s.resolutions, s.refersTo x.1 = true) {id : DeclId}
    (hgone : s.refersTo id = false) : s.resolution id = .empty := by
  have hforget := s.resolution_forget id
  rw [forget_eq_of_referred hreferred, hgone] at hforget
  exact hforget

theorem held_subset_of_resolved {id : DeclId} {r : Resolution}
    (h : s.resolution id = .resolved r) : r.held ⊆ s.held := by
  intro i hi
  have hmem : i ∈ (s.resolution id).held := by
    rw [h]
    exact hi
  exact mem_held_of_resolution hmem

/-- What lasts while the types evolve keeps its types. -/
theorem LastsTo.keepsTypesTo {s' : Session} (hlasts : s.LastsTo s')
    (hevolves : s.types.Evolves s'.types) (h : s.Balanced []) (h' : s'.Balanced []) :
    s.KeepsTypesTo s' := by
  intro id r hresolved hrefers
  have hkept : s'.resolution id = .resolved r := by
    rcases hlasts id r hresolved with hkept | ⟨-, hgone⟩
    · exact hkept
    · rw [hrefers] at hgone
      cases hgone
  have hheld : r.held ⊆ s.held := held_subset_of_resolved hresolved
  have hheld' : r.held ⊆ s'.held := held_subset_of_resolved hkept
  refine ⟨hkept, fun i hreach => ?_⟩
  obtain ⟨o, ho, rfl⟩ := TypeStore.mem_ids.1 (h.types.mem_ids_of_reached hheld hreach)
  have hnumbered := h.types.numbered
  exact ⟨o, ho, rfl, (hevolves.continues hnumbered).entry hnumbered h'.types hheld' ho hreach⟩

end Session

namespace Workshop

open TypeStore

variable {w : Workshop} {root : String} {setup : SessionSetup}

/-! ## The types evolve -/

theorem evolves_of_eq {s s' : TypeStore} (h : s' = s) : s.Evolves s' := h ▸ .refl

theorem resolveBody_evolves {s : TypeStore} (h : s.Evolves w.session.types) (d : Decl)
    (params : List TypeId) (result type : TypeId) (body : Span) :
    s.Evolves (w.resolveBody d params result type body).state.session.types := by
  have hreleased : s.Evolves ((params ++ [result]).foldl TypeStore.release w.session.types) :=
    h.foldl_release _
  unfold resolveBody
  dsimp only
  split
  · exact hreleased.release type
  · exact hreleased.release type
  · split
    · exact hreleased.retain type
    · exact hreleased.retain type

theorem produce_evolves (w : Workshop) (d : Decl) :
    w.session.types.Evolves (w.produce d).state.session.types := by
  have hread := TypeReading.evolves_ofSignature d.file w.session.types d.item
  unfold produce
  dsimp only
  split
  · exact hread
  · rename_i ids _
    have hinterned := hread.intern
      (.function ids.dropLast (ids.getLast?.getD 0) (TypeReading.convention d.item))
    split
    · exact resolveBody_evolves hinterned ..
    · exact hinterned.foldl_release _

/-- Only the resolution of a declaration makes types. -/
theorem runTask_types {task : BuildTask} (h : ∀ d, task ≠ .resolve d) (w : Workshop) :
    (runTask task w).state.session.types = w.session.types ∨
      ∃ id, (runTask task w).state.session.types = w.session.types.retain id := by
  cases task with
  | rebuild path => exact .inl (rebuild_types w path)
  | claim ticket d =>
    left
    unfold runTask claim
    dsimp only
    split <;> rfl
  | resolve d => exact absurd rfl (h d)
  | runComptime file block =>
    left
    unfold runTask runComptime
    dsimp only
    split <;> rfl
  | generate call => exact .inl rfl
  | link f =>
    unfold runTask enterLinkSet modify
    dsimp only
    split
    · exact .inr ⟨f.type, rfl⟩
    · exact .inl rfl

/-- A task uses the types by requests. -/
theorem runTask_evolves (task : BuildTask) (w : Workshop) :
    w.session.types.Evolves (runTask task w).state.session.types := by
  by_cases hresolve : ∃ d, task = .resolve d
  · obtain ⟨d, rfl⟩ := hresolve
    change w.session.types.Evolves (w.resolve d).state.session.types
    unfold resolve
    split
    · rename_i begun _
      exact produce_evolves (w.modify (·.setResolution d.id begun)) d
    · exact .refl
  · rcases runTask_types (fun d htask => hresolve ⟨d, htask⟩) w with hsame | ⟨id, hretain⟩
    · exact evolves_of_eq hsame
    · rw [hretain]
      exact Evolves.refl.retain id

theorem compile_evolves (w : Workshop) (paths : List String) :
    w.session.types.Evolves (w.compile paths).1.session.types := by
  have hkeeps : GroupRun.Keeps runTask (fun _ => True)
      fun v => w.session.types.Evolves v.session.types := by
    intro task v _ hv
    exact ⟨hv.trans (runTask_evolves task v), fun _ _ => trivial⟩
  have hgroup : w.session.types.Evolves (runGroup groupName runTask BuildTask.depth
      (paths.map .rebuild) w).state.session.types := hkeeps.runGroup (fun _ _ => trivial) .refl
  obtain ⟨phase, hsession⟩ := compile_session w paths
  rw [hsession]
  exact hgroup.foldl_release _

theorem runCycle_evolves (w : Workshop) (paths : List String) :
    w.session.types.Evolves (w.runCycle paths).1.session.types := by
  obtain ⟨s, hlinked, hfinish⟩ := finish_session (w.compile paths).1 (w.compile paths).2
  have htypes : s.types = (w.compile paths).1.session.types :=
    congrArg (fun s => s.types) hlinked
  unfold runCycle
  dsimp only
  rw [hfinish]
  dsimp only
  rw [htypes]
  exact (compile_evolves w paths).reclaim

theorem begun_types (w : Workshop) (root : String) (files : FileTree) :
    (w.begun root files).session.types = w.session.types := by
  unfold begun
  split
  · rfl
  · rfl

/-- The types evolve in a cycle, and in the middle of it. -/
theorem revise_evolves (hawaits : w.session.Awaits setup) (hroot : setup.settings.root = some root)
    (files : FileTree) :
    w.session.types.Evolves (w.revise root files).1.session.types ∧
      ∀ v ∈ statesOf runTask ((w.begun root files).cycleHistory root),
        w.session.types.Evolves v.session.types := by
  obtain ⟨-, -, -, -, -, -, hrun, -⟩ := begun_of_awaits hawaits hroot files
  have hleads := (runGroup_history groupName runTask BuildTask.depth [.rebuild root]
    (w.begun root files)).1
  let Later (v v' : Workshop) : Prop := v.session.types.Evolves v'.session.types
  have hrefl (v : Workshop) : Later v v := .refl
  have htrans (v v' v'' : Workshop) (h : Later v v') (h' : Later v' v'') : Later v v'' := h.trans h'
  obtain ⟨-, hbetween, -⟩ := hleads.pairwise hrefl htrans runTask_evolves
  rw [hrun, ← begun_types w root files]
  exact ⟨runCycle_evolves _ _, fun v hv => (hbetween v hv).1⟩

/-- The types evolve as a session is shown contents, one after the other. -/
theorem reviseAll_evolves (hawaits : w.session.Awaits setup)
    (hroot : setup.settings.root = some root) (contents : List FileTree) :
    w.session.types.Evolves (w.reviseAll root contents).session.types ∧
      ∀ v ∈ statesOf runTask (w.history root contents),
        w.session.types.Evolves v.session.types := by
  induction contents using List.reverseRecOn with
  | nil => exact ⟨.refl, fun v hv => absurd hv List.not_mem_nil⟩
  | append_singleton contents files ih =>
    obtain ⟨hbefore, hstates⟩ := ih
    obtain ⟨hcycle, hwithin⟩ :=
      revise_evolves (reviseAll_awaits hawaits hroot contents) hroot files
    rw [reviseAll_concat, history_concat, statesOf_append]
    refine ⟨hbefore.trans hcycle, fun v hv => ?_⟩
    rcases List.mem_append.1 hv with hv | hv
    · exact hstates v hv
    · exact hbefore.trans (hwithin v hv)

/-! ## After a cycle -/

theorem steady_reviseAll {t : Toolchain} (hroot : setup.settings.root = some root)
    (hcreate : t.createSession setup = (.ok w.session, w.toolchain)) (contents : List FileTree) :
    (w.reviseAll root contents).session.Steady := by
  have hawaits := createSession_awaits hcreate
  induction contents using List.reverseRecOn with
  | nil => exact steady_createSession hcreate
  | append_singleton contents files _ =>
    obtain ⟨hsettled, -, -, -, -, -, hrun, -⟩ :=
      begun_of_awaits (reviseAll_awaits hawaits hroot contents) hroot files
    rw [reviseAll_concat, hrun]
    exact steady_runCycle hsettled root

/-- A task that makes a type resolves a declaration. -/
theorem resolves_of_madeTypes {x : TaskRun Workshop BuildTask}
    (hs : x.before.session.types.Numbered) {o : TypeObject} (ho : o ∈ x.madeTypes) :
    ∃ d, x.task = .resolve d := by
  by_contra hother
  obtain ⟨hmem, hnew⟩ := List.mem_filter.1 ho
  have hids : (x.step runTask).state.session.types.ids = x.before.session.types.ids := by
    unfold TaskRun.step
    rcases runTask_types (fun d htask => hother ⟨d, htask⟩) x.before with hsame | ⟨id, hretain⟩
    · rw [hsame]
    · rw [hretain]
      exact ids_eq_of_shapes (shapes_retain _ id)
  have hold : o.id ∈ x.before.session.types.ids := hids ▸ mem_ids.2 ⟨o, hmem, rfl⟩
  exact Nat.not_lt.2 (of_decide_eq_true hnew) (hs.id_lt_next o.id hold)

/-! ## From cycle to cycle -/

/-- What is resolved after some contents lasts through all that follow. -/
theorem lastsTo_reviseAll (hawaits : w.session.Awaits setup)
    (hroot : setup.settings.root = some root) (earlier later : List FileTree) :
    (w.reviseAll root earlier).session.LastsTo (w.reviseAll root (earlier ++ later)).session := by
  cases later with
  | nil =>
    rw [List.append_nil]
    exact fun id r hresolved => .inl hresolved
  | cons files later =>
    have hrecorded := recorded_reviseAll hawaits hroot (earlier ++ files :: later)
    -- the next cycle begins with what was resolved before it
    have hbegun : (w.reviseAll root earlier).begun root files ∈
        statesOf runTask (w.history root (earlier ++ files :: later)) := by
      rw [history_append, statesOf_append, history, statesOf_append, cycleHistory_eq]
      refine List.mem_append_right _ (List.mem_append_left _ ?_)
      exact List.mem_cons_self ..
    have hlasts := (List.pairwise_append.1 hrecorded.lasting).2.2 _ hbegun _
      (List.mem_singleton_self _)
    intro id r hresolved
    refine hlasts id r ?_
    have hproducts := begun_products (w.reviseAll root earlier) root files
    have hsame := Session.resolution_congr (congrArg (fun s => s.resolutions) hproducts) id
    exact hsame.trans hresolved

/-- A session is shown any contents of its files, one after the other, and its cycles may end as
they like. After them its types are the pinned ones and those that are reached from what it holds,
and none waits to be reclaimed. Only resolutions make types, and what one of them has made is
there if it is reached from what is held, and gone if not; nothing is held for a resolution that
failed, and nothing for a declaration that is not live and whose symbol is not in use. And what was
resolved after some of the contents and is still referred to is resolved to the same type, which
is the same object, made of the same objects, each of them with its entry. -/
theorem types_are_those_held {t : Toolchain} (hroot : setup.settings.root = some root)
    (hcreate : t.createSession setup = (.ok w.session, w.toolchain)) (contents : List FileTree) :
    let s := (w.reviseAll root contents).session
    s.HasItsTypes ∧
    (∀ x ∈ w.history root contents, ∀ o ∈ x.madeTypes, (∃ d, x.task = .resolve d) ∧
      (o.id ∈ s.types.ids ↔ s.types.Reached s.heldTypes o.id)) ∧
    (∀ id, s.refersTo id = false → s.resolution id = .empty) ∧
    ∀ earlier later, contents = earlier ++ later →
      (w.reviseAll root earlier).session.KeepsTypesTo s := by
  intro s
  have hawaits := createSession_awaits hcreate
  have hafter : s.Awaits setup := reviseAll_awaits hawaits hroot contents
  have hsteady : s.Steady := steady_reviseAll hroot hcreate contents
  have hfirst : w.session.types = .initial := by
    obtain ⟨id, machine, context, hsession⟩ := createSession_eq_ok hcreate
    rw [hsession]
  have hnumbered : w.session.types.Numbered := hfirst ▸ Sound.initial.numbered
  have htended : w.session.types.Tended := hfirst ▸ Tended.initial
  obtain ⟨hevolves, hstates⟩ := reviseAll_evolves hawaits hroot contents
  have htended' : s.types.Tended := hevolves.tended hnumbered htended
  have hbalanced := hafter.settled.balanced
  have hall : s.HasItsTypes := hbalanced.hasItsTypes hsteady.referred htended'
    (hsteady.quiet hafter.atRest).2
  refine ⟨hall, fun x hx o ho => ?_, fun id => Session.resolution_eq_empty hsteady.referred, ?_⟩
  · have hbefore : x.before ∈ statesOf runTask (w.history root contents) :=
      List.mem_flatMap.2 ⟨x, hx, List.mem_cons_self ..⟩
    have hgiven := hstates x.before hbefore
    have hnumbered' := hgiven.numbered hnumbered
    refine ⟨resolves_of_madeTypes hnumbered' ho, fun hid => ?_, fun hreach => ?_⟩
    · obtain ⟨o', ho', hsame⟩ := mem_ids.1 hid
      have hnew : x.before.session.types.next ≤ o'.id := by
        rw [hsame]
        exact of_decide_eq_true (List.mem_filter.1 ho).2
      rw [← hsame]
      exact hall.reached o' ho' ((hgiven.tended hnumbered htended).isPinned_eq_false_of_le
        hnumbered' htended' ho' hnew)
    · exact mem_ids.2 (hall.resident o.id hreach)
  · rintro earlier later rfl
    have hawaits' := reviseAll_awaits hawaits hroot earlier
    have hlater := (reviseAll_evolves hawaits' hroot later).1
    rw [← reviseAll_append] at hlater
    exact (lastsTo_reviseAll hawaits hroot earlier later).keepsTypesTo hlater
      hawaits'.settled.balanced hbalanced

/-- A text with types that only a signature with a problem mentions, and types that only a function
whose name and symbol are taken mentions. -/
def transientText : String :=
  "export fn f(a: u33) void {}\nexport fn g(b: u35, c: nope) void {}\nexport fn f(d: u37) void {}\n"

theorem transientText_leaves_what_is_held :
    ((sessionA transientText).reviseAll "a" [fileA transientText]).session.HasItsTypes ∧
      ((sessionA transientText).reviseAll "a" [fileA transientText]).session.KeepsTypesTo
        ((sessionA transientText).reviseAll "a"
          [fileA transientText, fileA plainText]).session := by
  have hcreate := createSession_sessionA transientText
  obtain ⟨hfirst, -⟩ := types_are_those_held rfl hcreate [fileA transientText]
  obtain ⟨-, -, -, hkept⟩ :=
    types_are_those_held rfl hcreate [fileA transientText, fileA plainText]
  exact ⟨hfirst, hkept [fileA transientText] [fileA plainText] rfl⟩

end Workshop

end IncrementalBuild
