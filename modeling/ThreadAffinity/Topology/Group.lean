import ThreadAffinity.Word

/-!
# Processor groups

A system with more processors than fit into one native mask cuts them into
groups. A group says how many of its processors are in use and at which
positions they sit; processors are numbered through all groups, in group order,
counting only those in use.
-/

namespace ThreadAffinity

/-- One group: how many processors are in use, and at which positions. -/
structure Group where
  count : UInt8
  mask : Word
deriving Repr, DecidableEq

namespace Group

def total (groups : List Group) : Nat := groups.foldr (fun g rest => g.count.toNat + rest) 0

@[simp] theorem total_nil : total [] = 0 := rfl

@[simp] theorem total_cons (g : Group) (groups : List Group) :
    total (g :: groups) = g.count.toNat + total groups := rfl

@[simp] theorem total_append (a b : List Group) : total (a ++ b) = total a + total b := by
  induction a with
  | nil => simp
  | cons g a ih => simp [ih, Nat.add_assoc]

/-- The number of the first processor of group `index`: what the groups before
it hold. -/
def startOf (groups : List Group) (index : Nat) : Nat := total (groups.take index)

def describe (g : Group) : String :=
  "ProcessorGroup \x7b active_processor_count: " ++ toString g.count.toNat ++
    ", active_processor_mask: " ++ toString g.mask.toNat ++ " \x7d"

end Group

end ThreadAffinity
