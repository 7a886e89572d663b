import ThreadAffinity.CpuList.Printer
import ThreadAffinity.Error
import ThreadAffinity.Thread
import ThreadAffinity.Words

/-!
# Log events

What the library reports while it works. An event keeps the values it is about;
`Event.line` is the one place that knows the wording.
-/

namespace ThreadAffinity

/-- Something worth a line in the log. -/
inductive Event where
  /-- A processor was accepted into the selection of a thread. -/
  | processorAdded (thread : Thread) (processor : Nat)
  /-- A thread was bound to these processors. -/
  | affinityApplied (thread : Thread) (processors : List Nat)
  /-- The groups of the system are known. -/
  | topologyLoaded (groups processors : Nat)
  /-- The group of a processor was found; `start` is the group's first processor. -/
  | groupFound (processor group start : Nat)
  /-- A thread was bound to positions of one group. -/
  | groupApplied (thread : Thread) (group : Nat) (mask : Word)
  /-- The calling thread could not be bound to one processor. -/
  | bindFailed (processor : Nat) (error : Error)
  /-- The calling thread could not be bound to a selection. -/
  | bindAllFailed (processors : List Nat) (error : Error)
deriving Repr, DecidableEq

inductive Level where
  | trace
  | debug
  | error
deriving Repr, DecidableEq

def Level.name : Level → String
  | .trace => "TRACE"
  | .debug => "DEBUG"
  | .error => "ERROR"

namespace Event

def level : Event → Level
  | .processorAdded .. | .groupFound .. => .trace
  | .affinityApplied .. | .topologyLoaded .. | .groupApplied .. => .debug
  | .bindFailed .. | .bindAllFailed .. => .error

def message : Event → String
  | .processorAdded .. => "adding processor to pending affinity"
  | .affinityApplied .. => "thread affinity applied"
  | .topologyLoaded .. => "processor group topology loaded"
  | .groupFound .. => "found processor group"
  | .groupApplied .. => "thread group affinity applied"
  | .bindFailed .. | .bindAllFailed .. => "failed to set affinity of the current thread"

def fields : Event → List (String × String)
  | .processorAdded thread processor =>
    [("thread", thread.display), ("processor", toString processor)]
  | .affinityApplied thread processors =>
    [("thread", thread.display), ("processors", CpuList.print processors)]
  | .topologyLoaded groups processors =>
    [("groups", toString groups), ("processors", toString processors)]
  | .groupFound processor group start =>
    [("processor", toString processor), ("group", toString group),
      ("group_start", toString start)]
  | .groupApplied thread group mask =>
    [("thread", thread.display), ("group", toString group), ("mask", toString mask.toNat)]
  | .bindFailed processor error =>
    [("processor", toString processor), ("error", error.message)]
  | .bindAllFailed processors error =>
    [("processors", CpuList.print processors), ("error", error.message)]

/-- The line an event is logged as: level and message, then the fields. -/
def line (event : Event) : String :=
  event.fields.foldl (fun text (name, value) => text ++ " | " ++ name ++ "=" ++ value)
    (event.level.name ++ " " ++ event.message)

end Event

end ThreadAffinity
