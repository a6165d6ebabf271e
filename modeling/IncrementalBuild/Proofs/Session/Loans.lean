import IncrementalBuild.Proofs.Session.Runs
import Mathlib.Data.List.Induction

/-!
# Who has the contexts of a backend

The contexts of a toolchain are lent to whoever asks for one, to sessions that are being made and
to sessions. Whatever happens, each context that was ever made is in the pool or has one holder,
and a new one is made only when all others are on loan.
-/

set_option autoImplicit false

namespace IncrementalBuild

/-! ## Lending -/

namespace Toolchain

variable {t t' : Toolchain} {loans loans' : List ContextId} {c : ContextId}

/-- Every context that was ever made is in the pool or among the loans, and in one place only. -/
def Lends (t : Toolchain) (loans : List ContextId) : Prop :=
  (t.pool.idle ++ loans).Perm (List.range t.pool.made)

theorem Lends.perm (h : t.Lends loans) (hloans : loans'.Perm loans) : t.Lends loans' :=
  (hloans.append_left _).trans h

/-- The backend was asked for a context once more. -/
def asked (t : Toolchain) : Toolchain :=
  { t with pool := { t.pool with asked := t.pool.asked + 1 } }

/-- Who asks for a context gets the one on top of the pool, or a new one if the pool is empty, or
none if the backend refuses. -/
theorem acquireContext_cases (t : Toolchain) :
    (∃ rest c, t.pool.idle = c :: rest ∧
      t.acquireContext = (.ok c, { t with pool := { t.pool with idle := rest } })) ∨
    (t.pool.idle = [] ∧ t.acquireContext =
      (.ok t.pool.made, { t.asked with pool := { t.asked.pool with made := t.pool.made + 1 } })) ∨
    (t.pool.idle = [] ∧ t.acquireContext = (.error t.pool.exhaustedError, t.asked)) := by
  unfold acquireContext ContextPool.acquire
  cases hidle : t.pool.idle with
  | cons c rest => exact .inl ⟨rest, c, rfl, rfl⟩
  | nil =>
    right
    dsimp only
    split
    · exact .inr ⟨rfl, by simp only [asked, hidle]⟩
    · exact .inl ⟨rfl, by simp only [asked, hidle]⟩

theorem Lends.acquire (h : t.Lends loans) (hok : t.acquireContext = (.ok c, t')) :
    t'.Lends (c :: loans) := by
  rcases t.acquireContext_cases with ⟨rest, top, hidle, heq⟩ | ⟨hidle, heq⟩ | ⟨-, heq⟩
  · rw [hok] at heq
    cases heq
    rw [Lends, hidle] at h
    exact List.perm_middle.trans h
  · rw [hok] at heq
    cases heq
    rw [Lends, hidle] at h
    have hmore : (t.pool.made :: loans).Perm (List.range t.pool.made ++ [t.pool.made]) :=
      (h.cons _).trans (List.perm_append_singleton ..).symm
    rw [← List.range_succ] at hmore
    simpa [Lends, asked, hidle] using hmore
  · rw [hok] at heq
    cases heq

/-- A backend that refuses is asked, and nothing else happens. -/
theorem eq_asked {e : BuildError} (herror : t.acquireContext = (.error e, t')) : t' = t.asked := by
  rcases t.acquireContext_cases with ⟨rest, top, -, heq⟩ | ⟨-, heq⟩ | ⟨-, heq⟩
  · rw [herror] at heq
    cases heq
  · rw [herror] at heq
    cases heq
  · exact (Prod.mk.inj (herror.symm.trans heq)).2

theorem Lends.release (h : t.Lends (c :: loans)) : (t.releaseContext c).Lends loans :=
  List.perm_middle.symm.trans h

/-- A new context is made only if no other is left in the pool. -/
theorem acquireContext_made (t : Toolchain) :
    t.acquireContext.2.pool.made = t.pool.made ∨
      t.acquireContext.2.pool.made = t.pool.made + 1 ∧ t.acquireContext.2.pool.idle = [] := by
  rcases t.acquireContext_cases with ⟨rest, top, hidle, heq⟩ | ⟨hidle, heq⟩ | ⟨-, heq⟩
  · exact .inl (by rw [heq])
  · exact .inr (by rw [heq]; exact ⟨rfl, hidle⟩)
  · exact .inl (by rw [heq]; rfl)

end Toolchain

/-! ## What sessions do -/

/-- A step of a session. -/
inductive SessionStep where
  | start
  | touch (path : String)
  | beginRebuild
  | react
  | finish (compiled : Except BuildError Nat)
  | takeJournal
  | teardown

namespace Workshop

variable {w : Workshop}

/-- Takes a step. -/
def take (w : Workshop) : SessionStep → Workshop
  | .start => w.start.1
  | .touch path => (w.touch path).2
  | .beginRebuild => w.beginRebuild.1
  | .react => w.react.1
  | .finish compiled => (w.finish compiled).1
  | .takeJournal => w.modify (·.takeJournal.2)
  | .teardown => w.teardown

/-- The pool and the context that the session has. -/
def lent (w : Workshop) : ContextPool × Option ContextId := (w.toolchain.pool, w.session.context)

theorem runTask_pool (task : BuildTask) (w : Workshop) :
    (runTask task w).state.toolchain.pool = w.toolchain.pool := by
  cases task with
  | rebuild path => exact congrArg (·.pool) (rebuild_toolchain w path)
  | resolve d =>
    show (w.resolve d).state.toolchain.pool = w.toolchain.pool
    unfold resolve
    split
    · exact congrArg (·.pool) (produce_toolchain ..)
    · rfl
  | claim ticket d => rfl
  | runComptime file block =>
    unfold runTask runComptime
    dsimp only
    split <;> rfl
  | generate call =>
    show (w.toolchain.generate call).2.pool = w.toolchain.pool
    unfold Toolchain.generate
    dsimp only
    split <;> rfl
  | link f => rfl

theorem compile_lent (w : Workshop) (paths : List String) :
    (w.compile paths).1.lent = w.lent := by
  have hkeeps : GroupRun.Keeps runTask (fun _ => True)
      fun v => v.toolchain.pool = w.toolchain.pool :=
    fun task v _ hv => ⟨(runTask_pool task v).trans hv, fun _ _ => trivial⟩
  have hpool : (w.compile paths).1.toolchain.pool = w.toolchain.pool := by
    have hgroup : (runGroup groupName runTask BuildTask.depth (paths.map .rebuild)
        w).state.toolchain.pool = w.toolchain.pool := hkeeps.runGroup (fun _ _ => trivial) rfl
    unfold compile
    dsimp only
    split <;> exact hgroup
  obtain ⟨phase, hbase⟩ := compile_base w paths
  have hcontext : (w.compile paths).1.session.context = w.session.context :=
    congrArg (fun s => s.context) hbase
  rw [lent, lent, hpool, hcontext]

theorem finish_lent (w : Workshop) (compiled : Except BuildError Nat) :
    (w.finish compiled).1.lent = w.lent := by
  have hpool : (w.finish compiled).1.toolchain.pool = w.toolchain.pool := by
    cases compiled with
    | error e => rfl
    | ok n => exact congrArg (fun t => t.pool) (link_searched w (w.session.cycle + 1))
  obtain ⟨s, hs, hfinish⟩ := finish_session w compiled
  have hcontext : s.context = w.session.context := congrArg (fun s => s.context) hs
  rw [lent, lent, hpool, hfinish, ← hcontext]

theorem runCycle_lent (w : Workshop) (paths : List String) :
    (w.runCycle paths).1.lent = w.lent := by
  unfold runCycle
  dsimp only
  rw [finish_lent, compile_lent]

theorem firstCycle_lent (w : Workshop) : w.firstCycle.1.lent = w.lent := by
  unfold firstCycle
  split
  · rfl
  · rename_i root hroot
    exact runCycle_lent (w.modify fun s => watch { s with phase := .initialCompile } root) [root]

/-- No step but the last one of a session touches the contexts. -/
theorem take_lent {a : SessionStep} (h : a ≠ .teardown) : (w.take a).lent = w.lent := by
  cases a with
  | start =>
    show w.start.1.lent = w.lent
    unfold start
    split
    · rfl
    · extract_lets v v'
      have hv' : v'.lent = w.lent := by
        unfold v'
        split
        · exact congrArg (fun t => (t.pool, w.session.context)) v.toolchain.nativeRuntime_searched
        · rfl
      rw [firstCycle_lent, hv']
  | touch path => rfl
  | beginRebuild =>
    show w.beginRebuild.1.lent = w.lent
    rcases beginRebuild_cases w with ⟨-, -, queue, hstate⟩ | ⟨-, -, hbegin⟩
    · rw [hstate]
      rfl
    · rw [hbegin]
      exact compile_lent w.resumed _
  | react =>
    show w.react.1.lent = w.lent
    rcases react_cases w with ⟨-, queue, hstate⟩ | ⟨-, -, hreact⟩
    · rw [hstate]
      rfl
    · rw [hreact]
      exact runCycle_lent w.resumed _
  | finish compiled => exact finish_lent w compiled
  | takeJournal => rfl
  | teardown => exact absurd rfl h

/-- A session that is torn down gives back the context it has, if it has one. -/
theorem teardown_cases (w : Workshop) :
    w.teardown.lent = w.lent ∨ ∃ c, w.session.context = some c ∧
      w.teardown.lent = (w.toolchain.pool.release c, none) := by
  unfold teardown
  split
  · exact .inl rfl
  · cases hcontext : w.session.context with
    | none => exact .inl (by rw [lent, lent, hcontext])
    | some c => exact .inr ⟨c, rfl, rfl⟩

/-- What a session does is to give its context back, when it is torn down, or nothing. -/
theorem take_cases (w : Workshop) (a : SessionStep) :
    (w.take a).lent = w.lent ∨ ∃ c, w.session.context = some c ∧
      (w.take a).lent = (w.toolchain.pool.release c, none) := by
  by_cases ha : a = .teardown
  · rw [ha]
    exact teardown_cases w
  · exact .inl (take_lent ha)

theorem take_lends {others : List ContextId} (a : SessionStep)
    (h : w.toolchain.Lends (w.session.context.toList ++ others)) :
    (w.take a).toolchain.Lends ((w.take a).session.context.toList ++ others) := by
  rcases take_cases w a with hsame | ⟨c, hc, hback⟩
  · obtain ⟨hpool, hcontext⟩ := Prod.mk.inj hsame
    rwa [Toolchain.Lends, hpool, hcontext]
  · obtain ⟨hpool, hcontext⟩ := Prod.mk.inj hback
    rw [hc] at h
    rw [Toolchain.Lends, hpool, hcontext]
    exact h.release

theorem take_made (w : Workshop) (a : SessionStep) :
    (w.take a).toolchain.pool.made = w.toolchain.pool.made := by
  rcases take_cases w a with hsame | ⟨c, -, hback⟩
  · exact congrArg (·.1.made) hsame
  · exact congrArg (·.1.made) hback

end Workshop

/-! ## Making sessions -/

/-- A session that is being made: its number, what it is made with and its context. -/
structure PendingSession where
  id : Nat
  setup : SessionSetup
  context : ContextId

/-- Begins to make a session. -/
def Toolchain.prepare (t : Toolchain) (setup : SessionSetup) :
    Except BuildError PendingSession × Toolchain :=
  match t.takeSessionId.2.acquireContext with
  | (.ok context, t') => (.ok ⟨t.takeSessionId.1, setup, context⟩, t')
  | (.error e, t') => (.error e, t')

/-- Makes a session, unless its target is not known; then the context goes back. -/
def PendingSession.configure (o : PendingSession) (t : Toolchain) :
    Except BuildError Session × Toolchain :=
  match Machine.configure o.setup.settings.target o.setup.settings.mode with
  | .error e => (.error e, t.releaseContext o.context)
  | .ok machine =>
    (.ok
      { id := o.id, settings := o.setup.settings, machine, context := some o.context
        analyzer := o.setup.analyzer, plan := o.setup.plan, workingDir := o.setup.workingDir }, t)

theorem Toolchain.createSession_eq (t : Toolchain) (setup : SessionSetup) :
    t.createSession setup = match t.prepare setup with
      | (.ok o, t') => o.configure t'
      | (.error e, t') => (.error e, t') := by
  unfold createSession prepare
  dsimp only
  rcases t.takeSessionId.2.acquireContext with ⟨e | context, t'⟩
  · rfl
  · rfl

namespace Toolchain

variable {t t' : Toolchain} {setup : SessionSetup}

theorem prepare_lends {loans : List ContextId} {o : PendingSession} (h : t.Lends loans)
    (hok : t.prepare setup = (.ok o, t')) : t'.Lends (o.context :: loans) := by
  unfold prepare at hok
  split at hok
  · rename_i context t'' hacquire
    cases hok
    exact Lends.acquire (t := t.takeSessionId.2) h hacquire
  · cases hok

theorem eq_asked_of_prepare {e : BuildError} (herror : t.prepare setup = (.error e, t')) :
    t' = t.takeSessionId.2.asked := by
  unfold prepare at herror
  split at herror
  · cases herror
  · rename_i e' t'' hacquire
    cases herror
    exact eq_asked hacquire

/-- No session is begun without a context. -/
theorem prepare_refused {e : BuildError} (herror : t.acquireContext = (.error e, t'))
    (setup : SessionSetup) : t.prepare setup = (.error e, t.takeSessionId.2.asked) := by
  have hfirst : t.takeSessionId.2.acquireContext.1 = .error e := congrArg Prod.fst herror
  rcases hacquire : t.takeSessionId.2.acquireContext with ⟨result, t''⟩
  rw [hacquire] at hfirst
  subst hfirst
  rw [prepare, hacquire, eq_asked hacquire]

theorem prepare_made (t : Toolchain) (setup : SessionSetup) :
    (t.prepare setup).2.pool.made = t.pool.made ∨
      (t.prepare setup).2.pool.made = t.pool.made + 1 ∧ (t.prepare setup).2.pool.idle = [] := by
  have hmade := t.takeSessionId.2.acquireContext_made
  unfold prepare
  split
  · rename_i context t' hacquire
    rwa [hacquire] at hmade
  · rename_i e t' hacquire
    rwa [hacquire] at hmade

end Toolchain

/-- The context of a session that is being made becomes that of the session or goes back. -/
theorem PendingSession.configure_cases (o : PendingSession) (t : Toolchain) :
    (∃ s, o.configure t = (.ok s, t) ∧ s.context = some o.context) ∨
      ∃ e, Machine.configure o.setup.settings.target o.setup.settings.mode = .error e ∧
        o.configure t = (.error e, t.releaseContext o.context) := by
  unfold configure
  cases Machine.configure o.setup.settings.target o.setup.settings.mode with
  | ok machine => exact .inl ⟨_, rfl, rfl⟩
  | error e => exact .inr ⟨e, rfl, rfl⟩

/-! ## Everyone who has a context -/

/-- A toolchain, the files its sessions see, and all who have a context of it: those who asked
for one, sessions that are being made, and sessions. -/
structure Lending where
  toolchain : Toolchain
  files : FileTree
  held : List ContextId := []
  pending : List PendingSession := []
  sessions : List Session := []

/-- What can happen: a context is asked for, or given back by one who asked for it, a session is
begun, or one that was begun is made if it can be, a session takes a step, and in between the
backend changes its mind about how often it can be asked, and the files change. -/
inductive LendingStep where
  | acquire
  | release (i : Nat)
  | prepare (setup : SessionSetup)
  | configure (i : Nat)
  | work (i : Nat) (a : SessionStep)
  | relimit (limit : Option Nat)
  | edit (files : FileTree)

namespace Lending

variable {l : Lending}

/-- The contexts on loan, each as often as someone has it. -/
def onLoan (l : Lending) : List ContextId :=
  l.held ++ (l.pending.map (·.context) ++ l.sessions.flatMap (·.context.toList))

/-- What happens in a step. -/
def step (l : Lending) : LendingStep → Lending
  | .acquire =>
    match l.toolchain.acquireContext with
    | (.ok c, toolchain) => { l with toolchain, held := c :: l.held }
    | (.error _, toolchain) => { l with toolchain }
  | .release i =>
    match l.held[i]? with
    | some c => { l with toolchain := l.toolchain.releaseContext c, held := l.held.eraseIdx i }
    | none => l
  | .prepare setup =>
    match l.toolchain.prepare setup with
    | (.ok o, toolchain) => { l with toolchain, pending := o :: l.pending }
    | (.error _, toolchain) => { l with toolchain }
  | .configure i =>
    match l.pending[i]? with
    | some o =>
      match o.configure l.toolchain with
      | (.ok s, toolchain) =>
        { l with toolchain, pending := l.pending.eraseIdx i, sessions := s :: l.sessions }
      | (.error _, toolchain) => { l with toolchain, pending := l.pending.eraseIdx i }
    | none => l
  | .work i a =>
    match l.sessions[i]? with
    | some s =>
      let w := Workshop.take ⟨s, l.toolchain, l.files⟩ a
      { l with toolchain := w.toolchain, sessions := l.sessions.set i w.session }
    | none => l
  | .relimit limit =>
    { l with toolchain := { l.toolchain with pool := { l.toolchain.pool with limit } } }
  | .edit files => { l with files }

/-- A toolchain of which nobody has had a context so far. -/
def fresh (t : Toolchain) (files : FileTree) : Lending where
  toolchain := { t with pool := { t.pool with idle := [], made := 0 } }
  files

/-- What happens in some steps, in order. -/
def run (l : Lending) (steps : List LendingStep) : Lending := steps.foldl step l

/-- Every context has its place. -/
def Sound (l : Lending) : Prop := l.toolchain.Lends l.onLoan

theorem sound_fresh (t : Toolchain) (files : FileTree) : (fresh t files).Sound := List.Perm.refl []

theorem perm_eraseIdx {α : Type} {xs : List α} {i : Nat} {x : α} (h : xs[i]? = some x) :
    xs.Perm (x :: xs.eraseIdx i) := by
  obtain ⟨hi, rfl⟩ := List.getElem?_eq_some_iff.1 h
  exact (List.getElem_cons_eraseIdx_perm hi).symm

/-- The contexts on loan, that of one session that is being made first. -/
theorem perm_onLoan_pending {i : Nat} {o : PendingSession} (h : l.pending[i]? = some o) :
    l.onLoan.Perm (o.context :: { l with pending := l.pending.eraseIdx i }.onLoan) :=
  ((((perm_eraseIdx h).map (·.context)).append_right _).append_left _).trans List.perm_middle

open scoped List in
/-- The contexts on loan, those of one session first. -/
theorem perm_onLoan {s : Session} {others : List Session} (h : l.sessions.Perm (s :: others)) :
    l.onLoan.Perm (s.context.toList ++
      (l.held ++ (l.pending.map (·.context) ++ others.flatMap (·.context.toList)))) := by
  have hsessions := h.flatMap_right (fun s => s.context.toList)
  rw [List.flatMap_cons] at hsessions
  calc l.onLoan
    _ ~ l.held ++ (l.pending.map (·.context) ++
          (s.context.toList ++ others.flatMap (·.context.toList))) :=
        (hsessions.append_left _).append_left _
    _ ~ l.held ++ (s.context.toList ++
          (l.pending.map (·.context) ++ others.flatMap (·.context.toList))) :=
        List.perm_append_comm_assoc .. |>.append_left _
    _ ~ _ := List.perm_append_comm_assoc ..

/-- No step loses a context or gives one to two. -/
theorem Sound.step (h : l.Sound) (a : LendingStep) : (l.step a).Sound := by
  cases a with
  | acquire =>
    unfold Lending.step
    dsimp only
    split
    · rename_i c t hok
      exact Toolchain.Lends.acquire h hok
    · rename_i e t herror
      rw [Toolchain.eq_asked herror]
      exact h
  | release i =>
    unfold Lending.step
    dsimp only
    split
    · rename_i c hc
      exact Toolchain.Lends.release (h.perm ((perm_eraseIdx hc).append_right _).symm)
    · exact h
  | prepare setup =>
    unfold Lending.step
    dsimp only
    split
    · rename_i o t hok
      exact (Toolchain.prepare_lends h hok).perm List.perm_middle
    · rename_i e t herror
      rw [Toolchain.eq_asked_of_prepare herror]
      exact h
  | configure i =>
    unfold Lending.step
    dsimp only
    split
    · rename_i o ho
      have hloans := perm_onLoan_pending ho
      rcases o.configure_cases l.toolchain with ⟨s, hok, hs⟩ | ⟨e, -, herror⟩
      · rw [hok]
        have hmoved : (l.held ++ ((l.pending.eraseIdx i).map (·.context) ++
            (s :: l.sessions).flatMap (·.context.toList))).Perm
              (o.context :: { l with pending := l.pending.eraseIdx i }.onLoan) := by
          rw [List.flatMap_cons, hs]
          exact (List.perm_middle.append_left _).trans List.perm_middle
        exact h.perm (hmoved.trans hloans.symm)
      · rw [herror]
        exact Toolchain.Lends.release (h.perm hloans.symm)
    · exact h
  | work i a =>
    unfold Lending.step
    dsimp only
    split
    · rename_i s hs
      obtain ⟨hi, -⟩ := List.getElem?_eq_some_iff.1 hs
      have hbefore := perm_onLoan (perm_eraseIdx hs)
      have htake := Workshop.take_lends (w := ⟨s, l.toolchain, l.files⟩) a (h.perm hbefore.symm)
      refine htake.perm ?_
      exact perm_onLoan (l := { l with sessions := l.sessions.set i _ })
        (List.set_perm_cons_eraseIdx hi _)
    · exact h
  | relimit limit => exact h
  | edit files => exact h

theorem Sound.run (h : l.Sound) (steps : List LendingStep) : (l.run steps).Sound := by
  induction steps generalizing l with
  | nil => exact h
  | cons a steps ih => exact ih (h.step a)

/-- A step makes a context only if no other is left in the pool. -/
theorem step_made (l : Lending) (a : LendingStep) :
    (l.step a).toolchain.pool.made = l.toolchain.pool.made ∨
      (l.step a).toolchain.pool.made = l.toolchain.pool.made + 1 ∧
        (l.step a).toolchain.pool.idle = [] := by
  cases a with
  | acquire =>
    have hmade := l.toolchain.acquireContext_made
    unfold Lending.step
    dsimp only
    split
    · rename_i c t hok
      rwa [hok] at hmade
    · rename_i e t herror
      rwa [herror] at hmade
  | prepare setup =>
    have hmade := l.toolchain.prepare_made setup
    unfold Lending.step
    dsimp only
    split
    · rename_i o t hok
      rwa [hok] at hmade
    · rename_i e t herror
      rwa [herror] at hmade
  | release i =>
    left
    unfold Lending.step
    dsimp only
    split <;> rfl
  | configure i =>
    left
    unfold Lending.step
    dsimp only
    split
    · rename_i o ho
      rcases o.configure_cases l.toolchain with ⟨s, hok, -⟩ | ⟨e, -, herror⟩
      · rw [hok]
      · rw [herror]
        rfl
    · rfl
  | work i a =>
    left
    unfold Lending.step
    dsimp only
    split
    · exact Workshop.take_made ..
    · rfl
  | relimit limit => exact .inl rfl
  | edit files => exact .inl rfl

theorem run_concat (l : Lending) (steps : List LendingStep) (a : LendingStep) :
    l.run (steps ++ [a]) = (l.run steps).step a := by
  rw [run, List.foldl_append]
  rfl

theorem Sound.length (h : l.Sound) :
    l.toolchain.pool.idle.length + l.onLoan.length = l.toolchain.pool.made := by
  have hlength := h.length_eq
  rwa [List.length_append, List.length_range] at hlength

/-- As many contexts are made as are ever on loan at once. -/
theorem made_run (h : l.Sound) (hnone : l.toolchain.pool.made = 0) (steps : List LendingStep) :
    (∀ earlier, earlier <+: steps →
      (l.run earlier).onLoan.length ≤ (l.run steps).toolchain.pool.made) ∧
    ∃ earlier, earlier <+: steps ∧
      (l.run earlier).onLoan.length = (l.run steps).toolchain.pool.made := by
  induction steps using List.reverseRecOn with
  | nil =>
    have hlength := h.length
    refine ⟨fun earlier hearlier => ?_, [], List.prefix_rfl, ?_⟩
    · rw [List.prefix_nil.1 hearlier]
      show l.onLoan.length ≤ l.toolchain.pool.made
      omega
    · show l.onLoan.length = l.toolchain.pool.made
      omega
  | append_singleton steps a ih =>
    obtain ⟨hbound, earlier, hearlier, hpeak⟩ := ih
    have hsound := (h.run steps).step a
    have hlength := hsound.length
    have hmade := (l.run steps).step_made a
    rw [run_concat]
    refine ⟨fun earlier' hearlier' => ?_, ?_⟩
    · rcases List.prefix_concat_iff.1 hearlier' with rfl | hearlier'
      · rw [run_concat]
        omega
      · have hle := hbound earlier' hearlier'
        omega
    · rcases hmade with hsame | ⟨hmore, hempty⟩
      · exact ⟨earlier, hearlier.trans (List.prefix_append ..), by rw [hsame, hpeak]⟩
      · refine ⟨steps ++ [a], List.prefix_rfl, ?_⟩
        rw [run_concat, ← hlength, hempty, List.length_nil, Nat.zero_add]

/-- Makes a session that is kept, if it can be made. -/
def create (l : Lending) (setup : SessionSetup) : Lending :=
  match l.toolchain.createSession setup with
  | (.ok s, toolchain) => { l with toolchain, sessions := s :: l.sessions }
  | (.error _, toolchain) => { l with toolchain }

theorem step_prepare_error {setup : SessionSetup} {e : BuildError} {t : Toolchain}
    (h : l.toolchain.prepare setup = (.error e, t)) :
    l.step (.prepare setup) = { l with toolchain := t } := by
  unfold step
  dsimp only
  rw [h]

/-- To make a session is to begin it and, if there is a context for it, to go on at once. -/
theorem create_eq_run (l : Lending) (setup : SessionSetup) :
    l.create setup = l.run [.prepare setup] ∨
      l.create setup = l.run [.prepare setup, .configure 0] := by
  unfold create
  rw [Toolchain.createSession_eq]
  rcases hprepare : l.toolchain.prepare setup with ⟨e | o, t⟩
  · exact .inl (step_prepare_error hprepare).symm
  · right
    have hbegun : l.step (.prepare setup) =
        { l with toolchain := t, pending := o :: l.pending } := by
      unfold step
      dsimp only
      rw [hprepare]
    show _ = (l.step (.prepare setup)).step (.configure 0)
    rw [hbegun]
    rfl

/-- A session whose target is not known is not made, and its context goes back on top of the
pool. -/
theorem step_configure_error {i : Nat} {o : PendingSession} {e : BuildError}
    (ho : l.pending[i]? = some o)
    (herror : Machine.configure o.setup.settings.target o.setup.settings.mode = .error e) :
    l.step (.configure i) = { l with
      toolchain := l.toolchain.releaseContext o.context
      pending := l.pending.eraseIdx i } := by
  unfold step
  dsimp only
  rw [ho]
  dsimp only
  rw [PendingSession.configure, herror]

theorem step_acquire_error {e : BuildError} {t : Toolchain}
    (h : l.toolchain.acquireContext = (.error e, t)) :
    l.step .acquire = { l with toolchain := l.toolchain.asked } := by
  unfold step
  dsimp only
  rw [h, Toolchain.eq_asked h]

/-- What has happened on one toolchain from the beginning. -/
def after (t : Toolchain) (files : FileTree) (steps : List LendingStep) : Lending :=
  (fresh t files).run steps

theorem after_concat (t : Toolchain) (files : FileTree) (steps : List LendingStep)
    (a : LendingStep) : after t files (steps ++ [a]) = (after t files steps).step a :=
  run_concat ..

/-- Whatever happens on one toolchain, every context that was ever made is in the pool or has one
holder, no two of those on loan are one, and as many were made as were ever on loan at once. To
make a session is to begin it and to go on; if its target is not known, its context goes back on
top of the pool, and if the backend refuses a context, nothing changes. -/
theorem contexts_are_conserved (t : Toolchain) (files : FileTree) (steps : List LendingStep) :
    ((after t files steps).toolchain.pool.idle ++ (after t files steps).onLoan).Perm
      (List.range (after t files steps).toolchain.pool.made) ∧
    (after t files steps).onLoan.Nodup ∧
    ((∀ earlier, earlier <+: steps →
        (after t files earlier).onLoan.length ≤ (after t files steps).toolchain.pool.made) ∧
      ∃ earlier, earlier <+: steps ∧
        (after t files earlier).onLoan.length = (after t files steps).toolchain.pool.made) ∧
    (∀ setup, (after t files steps).create setup = after t files (steps ++ [.prepare setup]) ∨
      (after t files steps).create setup =
        after t files (steps ++ [.prepare setup, .configure 0])) ∧
    (∀ i o e, (after t files steps).pending[i]? = some o →
      Machine.configure o.setup.settings.target o.setup.settings.mode = .error e →
      (after t files (steps ++ [.configure i])).toolchain.pool =
          (after t files steps).toolchain.pool.release o.context ∧
        (after t files steps).onLoan.Perm
          (o.context :: (after t files (steps ++ [.configure i])).onLoan)) ∧
    ∀ e t', (after t files steps).toolchain.acquireContext = (.error e, t') →
      after t files (steps ++ [.acquire]) =
          { after t files steps with toolchain := (after t files steps).toolchain.asked } ∧
        ∀ setup, after t files (steps ++ [.prepare setup]) =
          { after t files steps with
            toolchain := (after t files steps).toolchain.takeSessionId.2.asked } := by
  have hsound : (after t files steps).Sound := (sound_fresh t files).run steps
  have hnodup : ((after t files steps).toolchain.pool.idle ++
      (after t files steps).onLoan).Nodup := hsound.nodup_iff.2 List.nodup_range
  refine ⟨hsound, (List.nodup_append.1 hnodup).2.1, made_run (sound_fresh t files) rfl steps,
    fun setup => ?_, fun i o e ho herror => ?_, fun e t' herror => ?_⟩
  · rcases (after t files steps).create_eq_run setup with hcreate | hcreate
    · left
      rw [hcreate, after, after, run, run, run, List.foldl_append]
    · right
      rw [hcreate, after, after, run, run, run, List.foldl_append]
  · rw [after_concat, step_configure_error ho herror]
    exact ⟨rfl, perm_onLoan_pending ho⟩
  · rw [after_concat, step_acquire_error herror]
    refine ⟨rfl, fun setup => ?_⟩
    rw [after_concat, step_prepare_error (Toolchain.prepare_refused herror setup)]

end Lending

end IncrementalBuild
