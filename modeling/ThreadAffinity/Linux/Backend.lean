import ThreadAffinity.Flat.Backend
import ThreadAffinity.Linux.Request

/-!
# A Linux system as a flat system

How the requests to a flat system are met on Linux. Sets are made and filled
without asking anyone, and binding passes on the block of words. Whatever size is
reported for a set, the system is never told to read beyond its end.
-/

namespace ThreadAffinity

namespace Linux

/-- What a user may want to be otherwise: the capacity of every set instead of the
one asked for, and the size reported for every set instead of its own. -/
structure Options where
  capacity? : Option Nat
  size? : Option Nat
deriving Repr, DecidableEq

def Options.standard : Options := ⟨none, none⟩

/-- Processors are counted in 32 bits. -/
def countLimit : Nat := 0x100000000

def reportable? (count : Nat) : Option Nat :=
  if 0 < count ∧ count < countLimit then some count else none

/-- The number of configured processors; where that makes no sense, the number of
threads that can run at once, and one where that is not known either. -/
def countProcessors : Dialogue interface Nat :=
  .ask .configuredProcessors fun configured =>
    match reportable? (Int.toNat configured) with
    | some count => .done count
    | none =>
      .ask .parallelism fun threads? =>
        .done (((show Option Nat from threads?).bind reportable?).getD 1)

/-- Binds a thread; any reply but zero is an error number. -/
def bindThread (thread : Thread) (set : NativeSet) (size : Nat) : Dialogue interface Verdict :=
  .ask (.setAffinity thread (min size set.byteSize) set) fun status =>
    .done (if (show Int from status) = 0 then .ok () else .error (.code status))

def serve (options : Options) : (request : Flat.Request) → Dialogue interface (Flat.Reply request)
  | .processorCount => countProcessors
  | .allocate capacity =>
    .done (some ⟨0, NativeSet.ofCapacity (options.capacity?.getD capacity)⟩)
  | .release _ => .done ()
  | .measure loan => .done (options.size?.getD loan.set.byteSize)
  | .clear loan => .done loan.set.clear
  | .select processor loan => .done (loan.set.insert processor).2
  | .currentThread => .ask .currentThread .done
  | .bind thread loan size => bindThread thread loan.set size

def backend (label : String) (options : Options) : Backend interface Flat.Editor :=
  (Flat.backend label).through (serve options)

/-- The name that the bindings carry unless they are changed. -/
def standardLabel : String := "BuildTargetMaskBindings"

def standard : Backend interface Flat.Editor := backend standardLabel .standard

end Linux

end ThreadAffinity
