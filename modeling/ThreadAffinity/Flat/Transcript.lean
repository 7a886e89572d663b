import ThreadAffinity.Flat.Request

/-!
# Transcripts of a flat system

Each request is written as a native call with its arguments and, where the reply
carries something, what it came back with.
-/

namespace ThreadAffinity

/-- Processors as text, in brackets and set off by blanks. -/
def bracketed (processors : List Nat) : String :=
  "[" ++ " ".intercalate (processors.map toString) ++ "]"

namespace Flat

def lentCapacity : Option Loan → String
  | none => "none"
  | some loan => toString loan.set.capacity

def callLine : (request : Request) → Reply request → String
  | .processorCount, count => "processor_count() = " ++ toString (show Nat from count)
  | .allocate capacity, loan? =>
    "alloc_cpu_set(" ++ toString capacity ++ ") = " ++ lentCapacity loan?
  | .release loan, _ =>
    "free_cpu_set(" ++ toString loan.set.capacity ++ ", " ++ bracketed loan.set.members ++ ")"
  | .measure _, size => "cpu_set_size() = " ++ toString (show Nat from size)
  | .clear _, _ => "zero_cpu_set()"
  | .select processor _, _ => "set_cpu_in_set(" ++ toString processor ++ ")"
  | .currentThread, thread => "current_thread() = " ++ Thread.name thread
  | .bind thread loan size, verdict =>
    "set_thread_affinity(" ++ thread.name ++ ", " ++ bracketed loan.set.members ++ ", " ++
      toString size ++ ") = " ++ Verdict.text verdict

end Flat

end ThreadAffinity
