import ThreadAffinity.Grouped.Request
import ThreadAffinity.Topology.Decode

/-!
# Finding out about the groups of a system

The topology is asked for twice. The first question comes with an empty buffer and
has to be refused for that very reason; it stores how long the data is. The second
one comes with a buffer of that length. The data may have changed in between, so
only what lies within both lengths is read.
-/

namespace ThreadAffinity

namespace Grouped

/-- The status that says that a buffer was too small. -/
def insufficientBuffer : Int := 122

/-- Asks for the data itself, with a buffer of `length` zero bytes. -/
def fill (length : Nat) : Dialogue interface (Except Error (List Group)) :=
  let buffer := List.replicate length 0
  .ask (.query buffer length) fun reply =>
    match reply.verdict with
    | .error cause => .done (.error (.topologyQuery .fill (some cause)))
    | .ok () =>
      match Topology.decode ((overwrite buffer reply.written).take reply.length) with
      | .error problem => .done (.error (.malformedTopology problem))
      | .ok groups =>
        .note (.topologyLoaded groups.length (Group.total groups)) (.done (.ok groups))

/-- Asks how long the data is and then for the data. -/
def load : Dialogue interface (Except Error (List Group)) :=
  .ask (.query [] 0) fun reply =>
    match reply.verdict with
    | .ok () => .done (.error (.topologyQuery .probe none))
    | .error cause =>
      if cause = .code insufficientBuffer then fill reply.length
      else .done (.error (.topologyQuery .probe (some cause)))

end Grouped

end ThreadAffinity
