import ThreadAffinity.CpuList.Item

/-!
# Reading a processor list

A list such as `0-3,8,10-16:2` is cut at its commas; the parts are read from left
to right and the first part that cannot be read decides the error. An empty part
lists nothing, a part with a dash is a range with an optional stride behind a
colon, and any other part is a single number.
-/

namespace ThreadAffinity

namespace CpuList

/-! ## Faults -/

/-- Why a part of a list cannot be read. -/
inductive Fault where
  /-- The text before the dash is no number. -/
  | start (text : List Char) (why : NumberFault)
  /-- The text between the dash and the colon, or the end, is no number. -/
  | finish (text : List Char) (why : NumberFault)
  /-- The text after the colon is no number. -/
  | stride (text : List Char) (why : NumberFault)
  /-- The stride is zero, so the range would never end. -/
  | zeroStride
  /-- The range ends before it starts. -/
  | reversed (first last : Nat)
  /-- A part without a dash is no number. -/
  | single (text : List Char) (why : NumberFault)
deriving Repr, DecidableEq

/-- The piece of input a fault is about, as it was written. -/
def Fault.value : Fault → String
  | .start text _ | .finish text _ | .stride text _ | .single text _ => String.ofList text
  | .zeroStride => "0"
  | .reversed first last =>
    String.ofList (digits first) ++ "-" ++ String.ofList (digits last)

def Fault.problem : Fault → String
  | .start _ why => "range start could not be parsed as an integer: " ++ why.message
  | .finish _ why => "range end could not be parsed as an integer: " ++ why.message
  | .stride _ why => "range stride could not be parsed as an integer: " ++ why.message
  | .zeroStride => "range stride must not be zero"
  | .reversed _ _ => "range start must be <= end"
  | .single _ why =>
    "part was not a range but could not be parsed as an integer either: " ++ why.message

def Fault.message (fault : Fault) : String :=
  "invalid cpulist syntax: '" ++ fault.value ++ "' is invalid: " ++ fault.problem

/-! ## Cutting -/

/-- The text before the first separator and the text after it, if there is a
separator. -/
def cutFirst? (sep : Char) : List Char → Option (List Char × List Char)
  | [] => none
  | c :: rest =>
    if c = sep then some ([], rest)
    else (cutFirst? sep rest).map fun (before, after) => (c :: before, after)

/-! ## Reading -/

/-- Reads a number and says which fault it is if that fails. -/
def numberOr (fault : List Char → NumberFault → Fault) (text : List Char) : Except Fault Nat :=
  match readNumber text with
  | .ok n => .ok n
  | .error why => .error (fault text why)

/-- Reads the text behind the dash: the end and, behind a colon, the stride. -/
def readRest (rest : List Char) : Except Fault (Nat × Nat) :=
  match cutFirst? ':' rest with
  | none => do
    let last ← numberOr .finish rest
    return (last, 1)
  | some (finish, stride) => do
    let last ← numberOr .finish finish
    let step ← numberOr .stride stride
    return (last, step)

/-- Reads a range from the texts before and behind its first dash. All numbers
are read before the range is looked at as a whole. -/
def readRange (start rest : List Char) : Except Fault Item := do
  let first ← numberOr .start start
  let (last, stride) ← readRest rest
  if hs : 0 < stride then
    if hl : first ≤ last then return ⟨first, last, stride, hl, hs⟩
    else throw (.reversed first last)
  else throw .zeroStride

/-- Reads one part of a list; an empty part lists nothing. -/
def readPart (part : List Char) : Except Fault (Option Item) :=
  match part with
  | [] => .ok none
  | _ =>
    match cutFirst? '-' part with
    | some (start, rest) => (readRange start rest).map some
    | none => (numberOr .single part).map fun n => some (.single n)

/-- Reads the parts in order; the first one that fails decides. -/
def readParts : List (List Char) → Except Fault (List Item)
  | [] => .ok []
  | part :: parts => do
    let item? ← readPart part
    let items ← readParts parts
    return item?.toList ++ items

/-- Reads a processor list. There is always one part more than there are commas, so
the empty text is one empty part and lists nothing. -/
def parse (text : String) : Except Fault (List Item) := readParts (text.toList.splitOn ',')

def names (items : List Item) (n : Nat) : Bool := items.any (·.lists n)

/-- The smallest number a list names that is at least `bound`. -/
def nextFrom? (items : List Item) (bound : Nat) : Option Nat :=
  (items.filterMap (·.nextFrom? bound)).min?

end CpuList

end ThreadAffinity
