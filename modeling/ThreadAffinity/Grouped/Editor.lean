import ThreadAffinity.Grouped.Pending

/-!
# Collecting a selection group by group

A group editor walks through the groups in order and stands on one of them. A
processor of that group joins the positions waiting there; a processor of a later
group makes the editor apply what waits and walk on; a processor of an earlier
group comes too late. Processors are matched with positions by counting the set
bits of the group's mask, so positions that are not in use are skipped.
-/

namespace ThreadAffinity

namespace Grouped

/-- A number that has to stay below a limit to be passed on at all. -/
def within? (limit n : Nat) : Option Nat := if n < limit then some n else none

/-- Positions are passed on as 8-bit numbers. -/
def positionLimit : Nat := 0x100

/-- Groups are passed on as 16-bit numbers. -/
def groupNumberLimit : Nat := 0x10000

/-- An editor: the groups and the thread it is for, the index and the first
processor of the group it stands on, and what waits there. Behind the last group
it stands on no group at all. -/
structure Editor where
  groups : List Group
  thread : Thread
  index : Nat
  start : Nat
  pending : Pending
deriving Repr, DecidableEq

namespace Editor

/-- A new editor stands on the first group. -/
def new (groups : List Group) (thread : Thread) : Editor := ⟨groups, thread, 0, 0, Pending.none⟩

def current? (editor : Editor) : Option Group := editor.groups[editor.index]?

def holds (editor : Editor) (processor : Nat) : Bool :=
  match editor.current? with
  | some g => editor.start ≤ processor && processor - editor.start < g.count.toNat
  | none => false

/-! ## Walking -/

/-- Where a walk for a processor ends: the index and the first processor of the
group reached, and whether that group has the processor. -/
structure Walk where
  index : Nat
  start : Nat
  found : Bool
deriving Repr, DecidableEq

/-- Walks over the groups that lie ahead, the first of which has the given index
and first processor, up to the one that has the processor or past the last. -/
def walk (processor : Nat) : (index start : Nat) → List Group → Walk
  | index, start, [] => ⟨index, start, false⟩
  | index, start, g :: ahead =>
    if processor < start + g.count.toNat then ⟨index, start, true⟩
    else walk processor (index + 1) (start + g.count.toNat) ahead

/-! ## Operations -/

/-- Adds a processor of the current group to what waits. Its rank in the group,
counted from zero, is the number of set bits below its position. -/
def collect (processor : Nat) (editor : Editor) : Except Error Unit × Editor :=
  let position? := do
    let g ← editor.current?
    let position ← (Word.positions g.mask)[processor - editor.start]?
    within? positionLimit position
  match position?, within? groupNumberLimit editor.index with
  | some position, some group =>
    match editor.pending.add group position with
    | .ok pending => (.ok (), { editor with pending })
    | .error error => (.error error, editor)
  | _, _ => (.error (.notFound processor), editor)

/-- Walks to the group of a processor and adds the processor there. If no group
has it, the editor stays behind the last group. -/
def seek (processor : Nat) (editor : Editor) : Dialogue interface (Except Error Unit × Editor) :=
  let reached := walk processor editor.index editor.start (editor.groups.drop editor.index)
  let moved := { editor with index := reached.index, start := reached.start }
  if reached.found then
    .note (.groupFound processor reached.index reached.start) (.done (moved.collect processor))
  else .done (.error (.notFound processor), moved)

/-- Binds the thread to what waits. It goes on waiting, so that more positions of
the same group can join. -/
def apply (editor : Editor) : Dialogue interface (Except Error Unit × Editor) :=
  match editor.pending.affinity? with
  | none => .done (.error .emptySelection, editor)
  | some affinity =>
    .ask (.bind editor.thread affinity) fun
      | .error cause => .done (.error (.refused .setGroupAffinity cause), editor)
      | .ok () =>
        .note (.groupApplied editor.thread affinity.group affinity.mask)
          (.done (.ok (), editor))

/-- Adds a processor. Leaving a group applies what waits there first; if the
system refuses that, the editor stays where it is. -/
def select (processor : Nat) (editor : Editor) : Dialogue interface (Except Error Unit × Editor) :=
  if processor < editor.start then
    .done (.error (.orderViolation processor editor.start), editor)
  else if editor.holds processor then .done (editor.collect processor)
  else if editor.pending.isEmpty then editor.seek processor
  else
    editor.apply.bind fun
      | (.error error, kept) => .done (.error error, kept)
      | (.ok (), kept) => { kept with pending := Pending.none }.seek processor

def describe (label : String) (editor : Editor) : String :=
  "GroupEditor \x7b bindings: " ++ label ++ ", groups: [" ++
    ", ".intercalate (editor.groups.map Group.describe) ++ "], thread: " ++
    editor.thread.describe ++ ", group_index: " ++ toString editor.index ++
    ", group_start: " ++ toString editor.start ++ ", pending: " ++
    editor.pending.describe ++ " \x7d"

end Editor

end Grouped

end ThreadAffinity
