import ThreadAffinity.Word

/-!
# Thread handles

A thread is known by the native handle the system gave out for it. The library
never looks into a handle: it is passed back to the system and written into log
lines. Two threads are also known without a handle, by the part they play: the
one that is asking, and a worker it has started.
-/

namespace ThreadAffinity

/-- A thread as the system is told about it. -/
inductive Thread where
  /-- The thread with this native handle. -/
  | handle (raw : Word)
  /-- The thread the questions are asked from. -/
  | caller
  /-- A thread that was started from the calling one. -/
  | worker
deriving Repr, DecidableEq

namespace Thread

/-- The handle in hexadecimal, or the thread's part where it has no handle. -/
def name : Thread → String
  | .handle raw => raw.hex
  | .caller => "self"
  | .worker => "worker"

def display (thread : Thread) : String := "thread " ++ thread.name

def describe : Thread → String
  | .handle raw => "ThreadHandle(" ++ toString raw.toNat ++ ")"
  | thread => "ThreadHandle(" ++ thread.name ++ ")"

end Thread

end ThreadAffinity
