import ThreadAffinity.CpuList.Number

/-!
# Writing a processor list

Numbers are written in increasing order with neighbours drawn together: a run of
three or more as `first-last`, a run of two as its two numbers, a number without
neighbours as itself. The pieces are joined by commas, so the empty selection is
the empty text.
-/

namespace ThreadAffinity

namespace CpuList

/-- The maximal runs of consecutive numbers of an increasing list, each as its
first and last number. -/
def runs : List Nat → List (Nat × Nat)
  | [] => []
  | n :: rest =>
    match runs rest with
    | [] => [(n, n)]
    | (first, last) :: more =>
      if n + 1 = first then (n, last) :: more else (n, n) :: (first, last) :: more

def runPieces : Nat × Nat → List (List Char)
  | (first, last) =>
    if first = last then [digits first]
    else if first + 1 = last then [digits first, digits last]
    else [digits first ++ '-' :: digits last]

/-- The text of an increasing list of numbers. -/
def print (numbers : List Nat) : String :=
  String.ofList ([','].intercalate ((runs numbers).flatMap runPieces))

end CpuList

end ThreadAffinity
