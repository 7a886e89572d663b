import ThreadAffinity.Backend
import ThreadAffinity.Grouped.Editor
import ThreadAffinity.Grouped.Query

/-!
# The backend over a grouped system

Which groups there are is asked once, when the backend is made; selections then go
to the system group by group.
-/

namespace ThreadAffinity

namespace Grouped

/-- The backend for a system with these groups. Opening and closing an editor is
nothing the system needs to know of. -/
def backend (label : String) (groups : List Group) : Backend interface Editor where
  processorCount := .done (Group.total groups)
  currentThread := .ask .currentThread .done
  openEditor := fun thread => .done (.ok (Editor.new groups thread))
  select := Editor.select
  apply := Editor.apply
  close := fun _ => .done ()
  describe :=
    "GroupBackend \x7b bindings: " ++ label ++ ", database: GroupDatabase \x7b groups: [" ++
      ", ".intercalate (groups.map Group.describe) ++ "] \x7d \x7d"
  describeEditor := Editor.describe label

/-- Finds out about the groups of a system and makes the backend for them. -/
def connect (label : String) : Dialogue interface (Except Error (Backend interface Editor)) :=
  load.bind fun
    | .error error => .done (.error error)
    | .ok groups => .done (.ok (backend label groups))

end Grouped

end ThreadAffinity
