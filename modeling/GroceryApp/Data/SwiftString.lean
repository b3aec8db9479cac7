import Mathlib.Data.List.Basic

/-!
# Comparing strings

Swift's `==` compares strings by canonical equivalence: a letter with an accent is equal to the base
letter followed by the combining accent, while the two are different sequences of scalars and of
UTF-8 bytes. Strings are equal if their canonical forms are: every character decomposed, and the
marks after a base character sorted by their combining class.
-/

namespace GroceryApp

/-- What the comparison reads of the tables of Unicode. -/
structure UnicodeData where
  /-- The full canonical decomposition. -/
  decomposition : Char → List Char
  /-- The canonical combining class, 0 for a character that is no mark. -/
  combiningClass : Char → ℕ
  decomposition_ascii : ∀ c : Char, c.toNat < 128 → decomposition c = [c]
  combiningClass_ascii : ∀ c : Char, c.toNat < 128 → combiningClass c = 0

namespace UnicodeData

variable (data : UnicodeData)

/-- A character before marks in canonical order: it goes behind those of a lower class. -/
def insertMark (c : Char) : List Char → List Char
  | [] => [c]
  | d :: ds =>
    if 0 < data.combiningClass d ∧ data.combiningClass d < data.combiningClass c then
      d :: insertMark c ds
    else c :: d :: ds

/-- The canonical ordering of marks, which keeps the order within one class. -/
def canonicalOrder : List Char → List Char
  | [] => []
  | c :: cs => data.insertMark c (canonicalOrder cs)

/-- The form in which strings are compared. -/
def canonicalForm (s : String) : List Char :=
  data.canonicalOrder (s.toList.flatMap data.decomposition)

/-- A string that is its own canonical form. -/
def IsCanonical (s : String) : Prop := data.canonicalForm s = s.toList

/-- `==` on optional strings compares this. -/
def identity (name : Option String) : Option (List Char) := name.map data.canonicalForm

variable {data} {s t : String} {c : Char} {cs : List Char}

theorem insertMark_of_class_eq_zero (h : data.combiningClass c = 0) :
    data.insertMark c cs = c :: cs := by
  cases cs with
  | nil => rfl
  | cons d ds => rw [insertMark, h, if_neg (fun hd => absurd hd.2 (Nat.not_lt_zero _))]

theorem canonicalOrder_of_class_eq_zero (h : ∀ c ∈ cs, data.combiningClass c = 0) :
    data.canonicalOrder cs = cs := by
  induction cs with
  | nil => rfl
  | cons c cs ih =>
    rw [canonicalOrder, ih fun d hd => h d (List.mem_cons_of_mem c hd),
      insertMark_of_class_eq_zero (h c List.mem_cons_self)]

theorem isCanonical_ascii (h : ∀ c ∈ s.toList, c.toNat < 128) : data.IsCanonical s := by
  have hdecomposed : s.toList.flatMap data.decomposition = s.toList := by
    rw [List.flatMap_congr fun c hc => data.decomposition_ascii c (h c hc)]
    exact List.flatMap_singleton' s.toList
  rw [IsCanonical, canonicalForm, hdecomposed,
    canonicalOrder_of_class_eq_zero fun c hc => data.combiningClass_ascii c (h c hc)]

/-- Among canonical strings `==` is equality. -/
theorem IsCanonical.eq_of_canonicalForm_eq (hs : data.IsCanonical s) (ht : data.IsCanonical t)
    (h : data.canonicalForm s = data.canonicalForm t) : s = t :=
  String.toList_inj.mp (hs.symm.trans (h.trans ht))

/-- The letter e with an acute accent, and the combining acute accent. -/
def eAcute : Char := Char.ofNat 0xE9

def combiningAcute : Char := Char.ofNat 0x301

/-- The tables as far as these two characters go. -/
def acuteE : UnicodeData where
  decomposition c := if c = eAcute then [Char.ofNat 0x65, combiningAcute] else [c]
  combiningClass c := if c = combiningAcute then 230 else 0
  decomposition_ascii := by
    intro c hc
    refine if_neg ?_
    rintro rfl
    exact absurd hc (by decide)
  combiningClass_ascii := by
    intro c hc
    refine if_neg ?_
    rintro rfl
    exact absurd hc (by decide)

end UnicodeData

end GroceryApp
