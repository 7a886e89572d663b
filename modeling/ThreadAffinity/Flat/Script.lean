import ThreadAffinity.Flat.Request

/-!
# A flat system that follows a script

For trying things out without touching a real system: how many processors there
are and which thread asks is fixed, and which sets are lent out and which verdicts
are given is read off two lists, one entry per request, until they are used up.
After that every set is as large as it was asked to be and everything is allowed.
-/

namespace ThreadAffinity

namespace Flat

structure Script where
  /-- How many processors there are. -/
  processors : Nat
  /-- The thread that asks. -/
  thread : Thread
  /-- The capacities of the sets to lend out; none where no set is lent. -/
  capacities : List (Option Nat)
  /-- What is selected in a set before it is lent out. -/
  prefill : List Nat
  /-- The size to report for every set instead of its own. -/
  size? : Option Nat
  /-- The verdicts on binding requests. -/
  verdicts : List Verdict
  /-- How many sets were lent out so far. -/
  lent : Nat
deriving Repr

namespace Script

/-- A new set with the prefilled processors in it, as far as they fit. -/
def newSet (script : Script) (capacity : Nat) : NativeSet :=
  script.prefill.foldl (fun set processor => (set.insert processor).2)
    (NativeSet.ofCapacity capacity)

def lend (script : Script) (capacity : Nat) : Option Loan × Script :=
  (some ⟨script.lent, script.newSet capacity⟩, { script with lent := script.lent + 1 })

/-- Lends a set as the script says, or as asked when the script is used up. -/
def allocate (script : Script) (asked : Nat) : Option Loan × Script :=
  match script.capacities with
  | [] => script.lend asked
  | capacity? :: capacities =>
    match capacity? with
    | none => (none, { script with capacities })
    | some capacity => { script with capacities }.lend capacity

def judge (script : Script) : Verdict × Script :=
  match script.verdicts with
  | [] => (.ok (), script)
  | verdict :: verdicts => (verdict, { script with verdicts })

end Script

def scripted : System interface Script where
  answer
    | .processorCount, script => (script.processors, script)
    | .allocate capacity, script => script.allocate capacity
    | .release _, script => ((), script)
    | .measure loan, script => (script.size?.getD loan.set.byteSize, script)
    | .clear loan, script => (loan.set.clear, script)
    | .select processor loan, script => ((loan.set.insert processor).2, script)
    | .currentThread, script => (script.thread, script)
    | .bind _ _ _, script => script.judge

end Flat

end ThreadAffinity
