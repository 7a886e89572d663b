import ThreadAffinity.Grouped.Request

/-!
# Positions waiting to be applied

What a group editor has collected and not yet moved on from: positions of one
group. The first position decides the group, and a position of any other group
does not belong in the same mask.
-/

namespace ThreadAffinity

namespace Grouped

/-- Positions of at most one group. -/
structure Pending where
  mask : Word
  group : Option Nat
deriving Repr, DecidableEq

namespace Pending

def none : Pending := ⟨0, Option.none⟩

def isEmpty (pending : Pending) : Bool := pending.mask == 0

/-- Adds a position of a group, unless positions of another group wait already. -/
def add (pending : Pending) (group position : Nat) : Except Error Pending :=
  match pending.group with
  | Option.none => .ok ⟨pending.mask ||| Word.bit position, some group⟩
  | some held =>
    if held = group then .ok ⟨pending.mask ||| Word.bit position, some group⟩
    else .error (.mixedGroups held group)

def affinity? (pending : Pending) : Option GroupAffinity :=
  match pending.group with
  | Option.none => Option.none
  | some group => if pending.isEmpty then Option.none else some ⟨group, pending.mask⟩

def describe (pending : Pending) : String :=
  "GroupMask \x7b mask: " ++ toString pending.mask.toNat ++ ", group: " ++
    (match pending.group with
      | Option.none => "None"
      | some group => "Some(" ++ toString group ++ ")") ++ " \x7d"

end Pending

end Grouped

end ThreadAffinity
