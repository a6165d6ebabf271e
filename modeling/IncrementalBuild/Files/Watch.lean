import IncrementalBuild.Files.Path

/-!
# Watched files

A watcher gives each path it is asked to watch a token, the same one for every spelling
of a path, and queues the tokens of the files that are reported to have changed. Whoever
reads the queue takes the first token and then all the others, each of which counts once.
-/

set_option autoImplicit false

namespace IncrementalBuild

/-- The handle of a watched path. -/
structure FileToken where
  number : Nat
  deriving DecidableEq, Inhabited

/-- The written form of a token. -/
def FileToken.text (t : FileToken) : String := s!"FileToken({t.number})"

/-- The watched paths, in order of their tokens, and the changes nobody has read yet, oldest
first. -/
structure Watcher where
  paths : List String := []
  queue : List FileToken := []
  deriving Inhabited

namespace Watcher

/-- The token of a watched path. -/
def token? (w : Watcher) (path : String) : Option FileToken :=
  (w.paths.findIdx? (Path.same · path)).map FileToken.mk

/-- Watches a path and yields its token, which is a new one unless the path is watched
already. -/
def subscribe (w : Watcher) (path : String) : FileToken × Watcher :=
  match w.token? path with
  | some token => (token, w)
  | none => (⟨w.paths.length⟩, { w with paths := w.paths ++ [path] })

/-- Reports a change of a path, and says whether the path is watched. -/
def touch (w : Watcher) (path : String) : Bool × Watcher :=
  match w.token? path with
  | some token => (true, { w with queue := w.queue ++ [token] })
  | none => (false, w)

/-- Whether a path is watched. -/
def isSubscribed (w : Watcher) (path : String) : Bool := (w.token? path).isSome

/-- Takes every change out of the queue. -/
def drain (w : Watcher) : List FileToken × Watcher := (w.queue, { w with queue := [] })

/-- Each token at its first place only. -/
def distinct : List FileToken → List FileToken
  | [] => []
  | t :: ts => t :: (distinct ts).filter (· != t)

/-- Takes every change out of the queue and names each changed path once, in the order of
the first change of each. -/
def takeChanges (w : Watcher) : List FileToken × Watcher := (distinct w.queue, { w with queue := [] })

end Watcher

end IncrementalBuild
