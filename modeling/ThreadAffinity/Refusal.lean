/-!
# Refusals

The system answers a request either by doing it or by a refusal, which carries a
native status code when there is one.
-/

namespace ThreadAffinity

/-- Why the system did not do what it was asked. -/
inductive Refusal where
  /-- The native status code. -/
  | code (status : Int)
  /-- No status code is known. -/
  | uncoded
deriving Repr, DecidableEq

/-- The status to report: the code, or -1 where there is none. -/
def Refusal.status : Refusal → Int
  | .code status => status
  | .uncoded => -1

/-- The system's verdict on a request that yields nothing but success. -/
abbrev Verdict := Except Refusal Unit

/-- A verdict as text: the status code of a refusal if there is one. -/
def Verdict.text : Verdict → String
  | .ok () => "ok"
  | .error (.code status) => "error " ++ toString status
  | .error .uncoded => "error nocode"

end ThreadAffinity
