import ThreadAffinity.Linux.Request

/-!
# A Linux system that follows a script

The numbers of processors are fixed. What binding replies is read off a list, one
entry per request, until it is used up; after that it always works.
-/

namespace ThreadAffinity

namespace Linux

structure Script where
  /-- The number of configured processors as it is reported. -/
  configured : Int
  /-- How many threads can run at once. -/
  threads? : Option Nat
  /-- The replies to binding requests. -/
  statuses : List Int
deriving Repr, DecidableEq

def Script.bind (script : Script) : Int × Script :=
  match script.statuses with
  | [] => (0, script)
  | status :: statuses => (status, { script with statuses })

def scripted : System interface Script where
  answer
    | .configuredProcessors, script => (script.configured, script)
    | .parallelism, script => (script.threads?, script)
    | .currentThread, script => (.caller, script)
    | .setAffinity _ _ _, script => script.bind

end Linux

end ThreadAffinity
