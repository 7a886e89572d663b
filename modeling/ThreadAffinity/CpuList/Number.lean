/-!
# Processor numbers as text

Decimal numbers below `2 ^ 32`, written without leading zeros and read with an
optional plus sign in front. Reading goes through the characters from left to
right and stops at the first one that cannot be taken: a character is first
checked for being a digit and only then for what it does to the value, so
`4294967295x` has an invalid digit while `4294967296x` is too large.
-/

namespace ThreadAffinity

namespace CpuList

/-! ## Digits -/

/-- The value of an ASCII digit; no other character counts as one. -/
def digitValue? (c : Char) : Option Nat := if c.isDigit then some (c.toNat - 48) else none

theorem digitValue?_digitChar {d : Nat} (h : d < 10) : digitValue? (Nat.digitChar d) = some d := by
  simp [digitValue?, Nat.isDigit_digitChar, Nat.toNat_digitChar_sub_48_of_lt_ten h, h]

/-! ## Writing -/

/-- The decimal digits of a number, most significant first, `0` for zero. -/
def digits (n : Nat) : List Char := Nat.toDigits 10 n

theorem digits_of_lt {n : Nat} (h : n < 10) : digits n = [Nat.digitChar n] :=
  Nat.toDigits_of_lt_base h

theorem digits_of_ge {n : Nat} (h : 10 ≤ n) :
    digits n = digits (n / 10) ++ [Nat.digitChar (n % 10)] :=
  Nat.toDigits_of_base_le (by decide) h

theorem isDigit_of_mem_digits {n : Nat} {c : Char} (h : c ∈ digits n) : c.isDigit = true :=
  Nat.isDigit_of_mem_toDigits (by decide) (by decide) h

/-! ## Reading -/

/-- Numbers have to stay below this bound. -/
def numberLimit : Nat := 0x100000000

inductive NumberFault where
  /-- There is nothing to read. -/
  | empty
  /-- A character is no digit, or a sign stands alone. -/
  | invalidDigit
  /-- The digits read so far exceed the bound. -/
  | tooLarge
deriving Repr, DecidableEq

def NumberFault.message : NumberFault → String
  | .empty => "cannot parse integer from empty string"
  | .invalidDigit => "invalid digit found in string"
  | .tooLarge => "number too large to fit in target type"

/-- Reads digits on top of the value collected so far. -/
def readDigits : Nat → List Char → Except NumberFault Nat
  | value, [] => .ok value
  | value, c :: rest =>
    match digitValue? c with
    | none => .error .invalidDigit
    | some d =>
      if 10 * value + d < numberLimit then readDigits (10 * value + d) rest
      else .error .tooLarge

/-- Reads a number: at least one digit after an optional plus sign. -/
def readNumber : List Char → Except NumberFault Nat
  | [] => .error .empty
  | ['+'] => .error .invalidDigit
  | '+' :: rest => readDigits 0 rest
  | text => readDigits 0 text

theorem readDigits_append {text : List Char} {value mid : Nat}
    (h : readDigits value text = .ok mid) (rest : List Char) :
    readDigits value (text ++ rest) = readDigits mid rest := by
  induction text generalizing value with
  | nil =>
    simp only [readDigits, Except.ok.injEq] at h
    simp [h]
  | cons c text ih =>
    simp only [List.cons_append, readDigits] at h ⊢
    split at h
    · cases h
    · split at h
      · rename_i hlt
        simp only [hlt, if_true]
        exact ih h
      · cases h

/-- What is written is read back. -/
theorem readDigits_digits {n : Nat} (h : n < numberLimit) : readDigits 0 (digits n) = .ok n := by
  induction n using Nat.strongRecOn with
  | ind n ih =>
    by_cases hn : n < 10
    · simp [digits_of_lt hn, readDigits, digitValue?_digitChar hn, h]
    · rw [digits_of_ge (Nat.le_of_not_lt hn), readDigits_append (ih _ (by omega) (by omega))]
      simp only [readDigits, digitValue?_digitChar (Nat.mod_lt n (by decide : 10 > 0))]
      have : 10 * (n / 10) + n % 10 = n := Nat.div_add_mod n 10
      simp [this, h]

end CpuList

end ThreadAffinity
