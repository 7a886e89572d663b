/-!
# What can be wrong with topology data

Offsets are counted from the start of the data for records and from the start of
the group part of a record for fields.
-/

namespace ThreadAffinity

namespace Topology

/-- The first thing found wrong with topology data. -/
inductive Problem where
  /-- A record claims to be smaller than its own header. -/
  | recordSize (offset size : Nat)
  /-- A record reaches beyond the data. -/
  | recordTruncated (offset : Nat)
  /-- A group record ends inside its group count. -/
  | fieldTruncated (offset : Nat)
  /-- A group record ends before or inside the group of this index. -/
  | groupTruncated (index : Nat)
  /-- A group record counts no groups. -/
  | noGroups
  /-- The data ends without a group record. -/
  | noGroupRecord
  /-- More groups than a record can count. -/
  | tooManyGroups (count : Nat)
  /-- More bytes than the size of a record can say. -/
  | recordTooLarge (size : Nat)
deriving Repr, DecidableEq

def Problem.message : Problem → String
  | .recordSize offset size =>
    "record at offset " ++ toString offset ++ " has size " ++ toString size
  | .recordTruncated offset => "record at offset " ++ toString offset ++ " is truncated"
  | .fieldTruncated offset => "field at offset " ++ toString offset ++ " is truncated"
  | .groupTruncated index => "processor group " ++ toString index ++ " is truncated"
  | .noGroups => "no active processor groups"
  | .noGroupRecord => "no processor group relationship found"
  | .tooManyGroups count => toString count ++ " processor groups do not fit in one record"
  | .recordTooLarge size => "record of " ++ toString size ++ " bytes is too large"

end Topology

end ThreadAffinity
