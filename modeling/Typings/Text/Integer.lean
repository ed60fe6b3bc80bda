/-!
# Decimal integers of 64 bits

Reading a signed decimal integer: one optional sign, then ASCII digits and nothing else, the value
within 64 bits.
-/

namespace Typings.Text

/-- The least value of a signed 64-bit integer. -/
def minInteger : Int := -9223372036854775808

/-- The greatest value of a signed 64-bit integer. -/
def maxInteger : Int := 9223372036854775807

/-- The value of a non-empty run of ASCII digits. -/
def readDigits (cs : List Char) : Option Nat :=
  if !cs.isEmpty && cs.all Char.isDigit then
    some (cs.foldl (fun n c => 10 * n + (c.toNat - '0'.toNat)) 0)
  else none

/-- The value of a signed decimal integer, when it is one and fits into 64 bits. -/
def readInteger (s : String) : Option Int :=
  let value : Option Int :=
    match s.toList with
    | '-' :: digits => (readDigits digits).map fun n => -(n : Int)
    | '+' :: digits => (readDigits digits).map Int.ofNat
    | digits => (readDigits digits).map Int.ofNat
  value.filter fun n => minInteger ≤ n && n ≤ maxInteger

/-- A value that was read lies in the range of 64 bits. -/
theorem readInteger_range {s : String} {n : Int} (h : readInteger s = some n) :
    minInteger ≤ n ∧ n ≤ maxInteger := by
  simp only [readInteger, Option.filter_eq_some_iff, Bool.and_eq_true, decide_eq_true_eq] at h
  exact h.2

end Typings.Text
