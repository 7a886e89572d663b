import ThreadAffinity.Backend
import ThreadAffinity.Flat.Editor

/-!
# The backend over a flat system

Selections go to the system whole, in one native set per editor.
-/

namespace ThreadAffinity

namespace Flat

/-- The backend that hands whole selections to the system. The label names the
system in written forms. -/
def backend (label : String) : Backend interface Editor where
  processorCount := .ask .processorCount .done
  currentThread := .ask .currentThread .done
  openEditor := Editor.openFor
  select := Editor.select
  apply := Editor.apply
  close := Editor.close
  describe := "MaskBackend \x7b bindings: " ++ label ++ " \x7d"
  describeEditor := Editor.describe label

end Flat

end ThreadAffinity
