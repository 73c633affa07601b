import LodeDB.Core.Basic
import Mathlib.Data.Nat.Basic

/-!
# Entries and numbers of JSON values
-/

namespace LodeDB

namespace Value

/-- The entry of an object under a key. -/
def get (value : Value) (key : String) : Option Value :=
  match value with
  | .object entries => entries.lookup key
  | _ => none

/-- The number a value holds, if it is printed as a natural one. -/
def asU64 : Value → Option ℕ
  | .number text =>
    if text.toList ≠ [] && text.toList.all Char.isDigit then
      some (text.toList.foldl (fun total digit => total * 10 + (digit.toNat - 48)) 0)
    else none
  | _ => none

end Value

/-- A natural number as JSON. -/
def natural (number : ℕ) : Value := .number (toString number)

theorem toString_toList (n : ℕ) : (toString n).toList = Nat.toDigits 10 n := by
  rw [Nat.toString_eq_ofList_toDigits, String.toList_ofList]

theorem asU64_natural (n : ℕ) : (natural n).asU64 = some n := by
  have hdigits : (toString n).toList = Nat.toDigits 10 n := toString_toList n
  have hall : (Nat.toDigits 10 n).all Char.isDigit = true :=
    List.all_eq_true.mpr fun c hc => Nat.isDigit_of_mem_toDigits (by decide) (by decide) hc
  have hvalue := Nat.ofDigitChars_ten_toDigits (n := n)
  rw [Nat.ofDigitChars_eq_foldl] at hvalue
  simp only [natural, Value.asU64, hdigits, hall, Nat.toDigits_ne_nil, ne_eq, not_false_eq_true, decide_true,
    Bool.and_self, if_true, Option.some.injEq]
  conv_rhs => rw [← hvalue]
  congr 1
  funext total digit
  rw [Nat.mul_comm]
  rfl

end LodeDB
