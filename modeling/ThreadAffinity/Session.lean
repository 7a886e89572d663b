import ThreadAffinity.Bind
import ThreadAffinity.Session.Step
import ThreadAffinity.Session.Table
import ThreadAffinity.Value

/-!
# Sessions

A session goes through a list of steps over one backend and keeps the editors that
are open in between. Each step leaves a record: its answer and the transcript of
what it asked for. When the steps are over, the editors that are still open are
closed in increasing order of their numbers.
-/

namespace ThreadAffinity

namespace Session

/-- Where a session takes place: the backend it is about, and the standard backend
that best-effort steps use. -/
structure Setup (I : Interface) (E : Type) where
  backend : Backend I E
  standard : Backend I E

def Setup.describe {I : Interface} {E : Type} (setup : Setup I E) : String :=
  "Affinity \x7b backend: " ++ setup.backend.describe ++ " \x7d"

/-- The result of a step: an answer, or that the editor asked for is not open. -/
inductive Result where
  | answer (answer : Answer)
  | noEditor

variable {I : Interface} {E σ : Type}

/-! ## Steps on editors -/

def closeAt (backend : Backend I E) (id : Int) (table : Table E) : Dialogue I (Table E) :=
  match table.get? id with
  | none => .done table
  | some editor => (backend.close editor).bind fun _ => .done (table.erase id)

/-- Opens an editor under a number, for the thread that `find` comes up with. The
editor that has the number is closed before anything else is asked, and stays
closed if the new one cannot be opened. -/
def openAt (backend : Backend I E) (id : Int) (find : Dialogue I Thread) (table : Table E) :
    Dialogue I (Except Error Unit × Table E) :=
  (closeAt backend id table).bind fun freed =>
    find.bind fun thread =>
      (backend.openEditor thread).bind fun
        | .error error => .done (.error error, freed)
        | .ok editor => .done (.ok (), freed.put id editor)

/-- Does something with the editor of a number and keeps what becomes of it. -/
def workAt (id : Int) (work : E → Dialogue I (Except Error Unit × E)) (table : Table E) :
    Dialogue I (Result × Table E) :=
  match table.get? id with
  | none => .done (.noEditor, table)
  | some editor =>
    (work editor).bind fun (result, kept) =>
      .done (.answer (.ofUnit result), table.put id kept)

/-! ## Steps -/

def answered (table : Table E) (answer : Answer) : Dialogue I (Result × Table E) :=
  .done (.answer answer, table)

/-- Goes on with the mask of a recipe; if it cannot be made, that is the answer. -/
def withMask (recipe : Mask.Recipe) (table : Table E)
    (go : Mask → Dialogue I (Result × Table E)) : Dialogue I (Result × Table E) :=
  match recipe.build with
  | .error error => answered table (.error error)
  | .ok mask => go mask

def play (setup : Setup I E) (table : Table E) : Step → Dialogue I (Result × Table E)
  | .processorCount =>
    setup.backend.processorCount.bind fun count => answered table (.ok (.number count))
  | .currentThread =>
    setup.backend.currentThread.bind fun thread => answered table (.ok (.thread thread))
  | .describe => answered table (.ok (.text setup.describe))
  | .bindThread thread processor =>
    (setup.backend.bindThread thread processor).bind fun result => answered table (.ofUnit result)
  | .bindThreadTo thread recipe =>
    withMask recipe table fun mask =>
      (setup.backend.bindThreadTo thread mask).bind fun result => answered table (.ofUnit result)
  | .bindCurrent processor =>
    (setup.backend.bindCurrent processor).bind fun result => answered table (.ofUnit result)
  | .bindCurrentTo recipe =>
    withMask recipe table fun mask =>
      (setup.backend.bindCurrentTo mask).bind fun result => answered table (.ofUnit result)
  | .openEditor id thread =>
    (openAt setup.backend id (.done thread) table).bind fun (result, table) =>
      answered table (.ofUnit result)
  | .openCurrent id =>
    (openAt setup.backend id setup.backend.currentThread table).bind fun (result, table) =>
      answered table (.ofUnit result)
  | .select id processor => workAt id (setup.backend.select processor) table
  | .apply id => workAt id setup.backend.apply table
  | .describeEditor id =>
    match table.get? id with
    | none => .done (.noEditor, table)
    | some editor => answered table (.ok (.text (setup.backend.describeEditor editor)))
  | .close id =>
    (closeAt setup.backend id table).bind fun freed =>
      answered freed (.ok (.flag (table.get? id).isSome))
  | .tryBind processor =>
    (setup.standard.tryBind processor).bind fun worked => answered table (.ok (.flag worked))
  | .tryBindTo recipe =>
    withMask recipe table fun mask =>
      (setup.standard.tryBindTo mask).bind fun worked => answered table (.ok (.flag worked))

def closeAll (backend : Backend I E) : List E → Dialogue I Unit
  | [] => .done ()
  | editor :: editors => (backend.close editor).bind fun _ => closeAll backend editors

/-! ## Records -/

structure Record (I : Interface) where
  result : Result
  entries : List (Entry I)

/-- Where a list of steps leads: the records, the editors still open and the state
of the system. -/
structure Progress (I : Interface) (E σ : Type) where
  records : List (Record I)
  table : Table E
  state : σ

def playAll (setup : Setup I E) (system : System I σ) :
    List Step → Table E → σ → Progress I E σ
  | [], table, state => ⟨[], table, state⟩
  | step :: steps, table, state =>
    let taken := (play setup table step).run system state
    let rest := playAll setup system steps taken.value.2 taken.state
    { rest with records := ⟨taken.value.1, taken.entries⟩ :: rest.records }

/-- What a whole session leaves behind: a record per step, and the transcript of
closing what was left open. -/
structure History (I : Interface) where
  records : List (Record I)
  closing : List (Entry I)

def run (setup : Setup I E) (system : System I σ) (steps : List Step) (state : σ) : History I :=
  let progress := playAll setup system steps .empty state
  let closing := (closeAll setup.backend progress.table.editors).run system progress.state
  ⟨progress.records, closing.entries⟩

/-- What a session leaves behind whose backend had to be found first: what came of
finding it, the transcript of that, and the session itself if there was one. -/
structure Opening (I : Interface) where
  found : Except Error Unit
  entries : List (Entry I)
  history? : Option (History I)

def start (find : Dialogue I (Except Error (Backend I E))) (system : System I σ)
    (steps : List Step) (state : σ) : Opening I :=
  let sought := find.run system state
  match sought.value with
  | .error error => ⟨.error error, sought.entries, none⟩
  | .ok backend =>
    ⟨.ok (), sought.entries, some (run ⟨backend, backend⟩ system steps sought.state)⟩

/-- Steps taken one list after another are steps taken in one list. -/
theorem playAll_append (setup : Setup I E) (system : System I σ) (front back : List Step)
    (table : Table E) (state : σ) :
    playAll setup system (front ++ back) table state =
      let first := playAll setup system front table state
      let second := playAll setup system back first.table first.state
      { second with records := first.records ++ second.records } := by
  induction front generalizing table state with
  | nil => rfl
  | cons step front ih => simp only [List.cons_append, playAll, ih]

end Session

end ThreadAffinity
