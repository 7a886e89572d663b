import ThreadAffinity.Grouped.Request

/-!
# A grouped system that follows a script

The topology data, the verdicts on the two questions about it and the lengths
stored with them are fixed beforehand, so that data that changes between the two
questions can be played through. Verdicts on binding requests are read off a list
until it is used up; after that everything is allowed.
-/

namespace ThreadAffinity

namespace Grouped

structure Script where
  /-- The data that describes the groups. -/
  topology : List UInt8
  /-- The thread that asks. -/
  thread : Thread
  /-- The verdict on the first question about the topology, and the length stored. -/
  probe : Verdict × Nat
  /-- The verdict on every later one, and the length stored. -/
  fill : Verdict × Nat
  /-- Whether the first question was asked. -/
  probed : Bool
  /-- The verdicts on binding requests. -/
  verdicts : List Verdict

namespace Script

/-- Replies to a question about the topology. The first reply writes nothing, every
later one writes all the data there is, whatever the verdict. -/
def query (script : Script) : QueryReply × Script :=
  if script.probed then (⟨script.fill.1, script.topology, script.fill.2⟩, script)
  else (⟨script.probe.1, [], script.probe.2⟩, { script with probed := true })

def judge (script : Script) : Verdict × Script :=
  match script.verdicts with
  | [] => (.ok (), script)
  | verdict :: verdicts => (verdict, { script with verdicts })

end Script

def scripted : System interface Script where
  answer
    | .query _ _, script => script.query
    | .bind _ _, script => script.judge
    | .currentThread, script => (script.thread, script)

end Grouped

end ThreadAffinity
