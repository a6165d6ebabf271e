import IncrementalBuild.Backend.Machine

/-!
# Options of the backend

Arguments for the backend can be set once, and only before there has been a session. The
architectures are known from the time the backend is initialised on.
-/

set_option autoImplicit false

namespace IncrementalBuild

/-- Why backend options are refused. -/
inductive BackendOptionsError where
  | alreadySet
  | sessionsExist
  deriving DecidableEq

/-- The wording of a refusal. -/
def BackendOptionsError.message : BackendOptionsError → String
  | .alreadySet => "global backend options were already set"
  | .sessionsExist => "global backend options must be set before the first session is created"

/-- What all sessions of a process have in common. -/
structure BackendRegistry where
  options : Option (List String) := none
  /-- Whether anybody ever asked for a session. -/
  sessionAsked : Bool := false
  isInitialised : Bool := false
  deriving Inhabited

namespace BackendRegistry

/-- Sets the options. -/
def setOptions (r : BackendRegistry) (args : List String) :
    Except BackendOptionsError BackendRegistry :=
  if r.sessionAsked then .error .sessionsExist
  else if r.options.isSome then .error .alreadySet
  else .ok { r with options := some args }

/-- Makes the architectures known. -/
def initialise (r : BackendRegistry) : BackendRegistry := { r with isInitialised := true }

/-- The architectures known so far. -/
def architectures (r : BackendRegistry) : List Architecture :=
  if r.isInitialised then Architecture.all else []

/-- Notes that somebody asks for a session, which initialises the backend. -/
def askForSession (r : BackendRegistry) : BackendRegistry :=
  { r.initialise with sessionAsked := true }

end BackendRegistry

end IncrementalBuild
