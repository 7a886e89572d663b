import ThreadAffinity.CpuList.Parser
import ThreadAffinity.Refusal
import ThreadAffinity.Topology.Problem

/-!
# Errors

One constructor per cause. What a cause needs to be understood is kept as data;
the wording is in `Error.message` alone.
-/

namespace ThreadAffinity

/-- The processor numbers in use are those below this bound, whatever the system. -/
def processorLimit : Nat := 1024

/-- The two questions of a topology query: how long the answer is, and the answer. -/
inductive QueryStage where
  | probe
  | fill
deriving Repr, DecidableEq

def QueryStage.name : QueryStage → String
  | .probe => "probe"
  | .fill => "fill"

/-- The native calls that change the affinity of a thread. -/
inductive Operation where
  /-- Binds a thread to one set of processors. -/
  | setAffinity
  /-- Binds a thread to processors of one group. -/
  | setGroupAffinity
deriving Repr, DecidableEq

/-- The native name of a call. -/
def Operation.name : Operation → String
  | .setAffinity => "pthread_setaffinity_np"
  | .setGroupAffinity => "SetThreadGroupAffinity"

/-- Why an operation of the library failed. -/
inductive Error where
  /-- The system gave no processor set that is large enough. -/
  | setAllocation (capacity : Nat)
  /-- The topology could not be obtained. A probe that succeeds is a failure
  without a refusal: no data fits into an empty buffer. -/
  | topologyQuery (stage : QueryStage) (cause : Option Refusal)
  /-- The topology was obtained and makes no sense. -/
  | malformedTopology (problem : Topology.Problem)
  /-- A processor number is beyond the largest one supported. -/
  | outOfRange (processor max : Nat)
  /-- Nothing was selected. -/
  | emptySelection
  /-- A processor of an earlier group came after one of a later group. -/
  | orderViolation (processor groupStart : Nat)
  /-- No group has the processor. -/
  | notFound (processor : Nat)
  /-- The system refused to bind the thread. -/
  | refused (operation : Operation) (cause : Refusal)
  /-- A processor list could not be read. -/
  | invalidList (fault : CpuList.Fault)
  /-- Processors of two groups met in one pending mask. An internal check: a
  group editor empties its mask before it moves to another group. -/
  | mixedGroups (pending added : Nat)
deriving Repr, DecidableEq

namespace Error

/-- The error for a processor at or beyond the limit. -/
def beyondLimit (processor : Nat) : Error := .outOfRange processor (processorLimit - 1)

def message : Error → String
  | .setAllocation capacity =>
    "failed to allocate a processor set with capacity for " ++ toString capacity ++ " processors"
  | .topologyQuery stage cause =>
    "processor group topology query failed during " ++ stage.name ++ " with status " ++
      toString ((cause.map Refusal.status).getD 0)
  | .malformedTopology problem => "processor group topology is malformed: " ++ problem.message
  | .outOfRange processor max =>
    "processor " ++ toString processor ++ " is out of range, the maximum supported index is " ++
      toString max
  | .emptySelection => "processor selection is empty, at least one processor must be selected"
  | .orderViolation processor groupStart =>
    "processor " ++ toString processor ++
      " was supplied after processors of a group starting at " ++ toString groupStart ++
      ", processors must be supplied in increasing order"
  | .notFound processor =>
    "processor " ++ toString processor ++ " does not exist in any processor group of this system"
  | .refused operation cause =>
    operation.name ++ " failed with status " ++ toString cause.status
  | .invalidList fault => fault.message
  | .mixedGroups _ _ => "adding processors from different groups to the same mask is nonsense"

end Error

end ThreadAffinity
