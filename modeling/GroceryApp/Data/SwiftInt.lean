import Mathlib.Data.Int.Notation
import Mathlib.Data.List.Basic
import Mathlib.Data.Nat.Notation

/-!
# The texts of 64-bit integers

`intOfString` is Swift's `Int(_ text: String)` and `stringOfInt` its `String(_ value: Int)`, the
two conversions between the amount of a grocery and the text of its form field.
-/

namespace GroceryApp

/-- The value of a non-empty run of decimal digits. -/
def digitsValue (cs : List Char) : Option ℤ :=
  if cs ≠ [] ∧ cs.all Char.isDigit then some (Nat.ofDigitChars 10 cs 0) else none

/-- An optional sign and decimal digits, read as an integer. -/
def signedValue : List Char → Option ℤ
  | '-' :: cs => (digitsValue cs).map Neg.neg
  | '+' :: cs => digitsValue cs
  | cs => digitsValue cs

/-- `Int(text)`: `none` unless the text is a decimal integer that fits into 64 bits. -/
def intOfString (text : String) : Option Int64 :=
  (signedValue text.toList).bind fun v =>
    if Int64.minValue.toInt ≤ v ∧ v ≤ Int64.maxValue.toInt then some (Int64.ofInt v) else none

/-- `String(value)`. -/
def stringOfInt (value : Int64) : String := toString value.toInt

theorem digitsValue_toDigits (n : ℕ) : digitsValue (Nat.toDigits 10 n) = some (n : ℤ) := by
  have hall : (Nat.toDigits 10 n).all Char.isDigit = true :=
    List.all_eq_true.mpr fun _ hc => Nat.isDigit_of_mem_toDigits (by omega) (by omega) hc
  rw [digitsValue, if_pos ⟨Nat.toDigits_ne_nil, hall⟩, Nat.ofDigitChars_ten_toDigits]

/-- A text that starts with a digit has no sign. -/
theorem signedValue_of_digit {c : Char} {cs : List Char} (h : c.isDigit = true) :
    signedValue (c :: cs) = digitsValue (c :: cs) := by
  have hminus : c ≠ '-' := by rintro rfl; cases h
  have hplus : c ≠ '+' := by rintro rfl; cases h
  unfold signedValue
  split
  · rename_i heq; exact absurd (List.cons.inj heq).1 hminus
  · rename_i heq; exact absurd (List.cons.inj heq).1 hplus
  · rfl

theorem signedValue_toDigits (n : ℕ) : signedValue (Nat.toDigits 10 n) = some (n : ℤ) := by
  obtain ⟨c, cs, hcs⟩ := List.exists_cons_of_ne_nil (Nat.toDigits_ne_nil (n := n) (b := 10))
  have hc : c.isDigit = true :=
    Nat.isDigit_of_mem_toDigits (b := 10) (n := n) (by omega) (by omega) (by simp [hcs])
  rw [hcs, signedValue_of_digit hc, ← hcs, digitsValue_toDigits]

theorem signedValue_toString (v : ℤ) : signedValue (toString v).toList = some v := by
  cases v with
  | ofNat n =>
    show signedValue n.repr.toList = some (n : ℤ)
    rw [Nat.toList_repr, signedValue_toDigits]
  | negSucc n =>
    show signedValue ("-" ++ (n + 1).repr).toList = some (Int.negSucc n)
    rw [String.toList_append, Nat.toList_repr]
    show (digitsValue (Nat.toDigits 10 (n + 1))).map Neg.neg = some (Int.negSucc n)
    rw [digitsValue_toDigits]
    rfl

/-- Reading back the text of an integer. -/
@[simp] theorem intOfString_stringOfInt (value : Int64) :
    intOfString (stringOfInt value) = some value := by
  have hrange : Int64.minValue.toInt ≤ value.toInt ∧ value.toInt ≤ Int64.maxValue.toInt :=
    ⟨value.minValue_le_toInt, value.toInt_le⟩
  rw [intOfString, stringOfInt, signedValue_toString, Option.bind_some, if_pos hrange,
    Int64.ofInt_toInt]

example : intOfString "+7" = some 7 := by decide
example : intOfString "9223372036854775808" = none := by decide

end GroceryApp
