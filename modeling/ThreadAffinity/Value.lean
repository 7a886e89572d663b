import ThreadAffinity.Error
import ThreadAffinity.Thread

/-!
# Answers

What a step of a session comes to: a value of one of a few kinds, or an error.
-/

namespace ThreadAffinity

inductive Value where
  /-- Nothing but success. -/
  | unit
  | flag (value : Bool)
  | number (value : Nat)
  | numbers (values : List Nat)
  | words (values : List Word)
  | thread (value : Thread)
  | text (value : String)
deriving Repr, DecidableEq

/-- A value, or the error that took its place. -/
abbrev Answer := Except Error Value

/-- The answer to something that yields nothing but success. -/
def Answer.ofUnit : Except Error Unit → Answer
  | .ok () => .ok .unit
  | .error error => .error error

end ThreadAffinity
