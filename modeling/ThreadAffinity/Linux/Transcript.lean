import ThreadAffinity.Flat.Transcript
import ThreadAffinity.Linux.Request

/-!
# Transcripts of a Linux system

The calls whose replies a library cannot foresee: how many processors are
configured, and binding a thread. Of a block only what lies within the size
passed is shown, since the system sees no more of it.
-/

namespace ThreadAffinity

namespace Linux

/-- A request and its reply as one line, for the calls that are written down. -/
def callLine? : (request : Request) → Reply request → Option String
  | .configuredProcessors, count =>
    some ("sysconf(_SC_NPROCESSORS_CONF) = " ++ toString (show Int from count))
  | .parallelism, _ => none
  | .currentThread, _ => none
  | .setAffinity thread size block, status =>
    some ("pthread_setaffinity_np(" ++ thread.name ++ ", " ++ toString size ++ ", " ++
      bracketed (block.membersWithin size) ++ ") = " ++ toString (show Int from status))

end Linux

end ThreadAffinity
