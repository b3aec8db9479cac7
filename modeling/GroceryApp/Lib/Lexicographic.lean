import Mathlib.Data.List.Infix
import Mathlib.Data.List.Lex
import Mathlib.Order.Lattice

/-!
# Prefixes in the lexicographic order

The lists that extend a given one are an interval of the lexicographic order: from the list on, the
first one that does not extend it is above all that do (`prefix_or_lt`), so a scan may stop there
(`not_prefix_of_lt`).
-/

namespace Lexicographic

variable {α : Type*} [LinearOrder α] {p a b : List α}

theorem nil_le (a : List α) : [] ≤ a := not_lt.mp (List.not_lt_nil a)

theorem not_cons_le_nil (x : α) (a : List α) : ¬ x :: a ≤ [] :=
  not_le.mpr (List.lt_iff_lex_lt [] (x :: a) |>.mpr .nil)

theorem cons_le_cons_iff {x y : α} : x :: a ≤ y :: b ↔ x < y ∨ x = y ∧ a ≤ b := by
  rw [← not_lt, List.cons_lt_cons_iff, not_or, not_lt, not_and, not_lt, le_iff_lt_or_eq]
  constructor
  · rintro ⟨hlt | rfl, hab⟩
    · exact .inl hlt
    · exact .inr ⟨rfl, hab rfl⟩
  · rintro (hlt | ⟨rfl, hab⟩)
    · exact ⟨.inl hlt, fun h => absurd h hlt.ne'⟩
    · exact ⟨.inr rfl, fun _ => hab⟩

theorem append_le_append_left (p : List α) (h : a ≤ b) : p ++ a ≤ p ++ b := by
  induction p with
  | nil => exact h
  | cons x p ih => exact cons_le_cons_iff.mpr (.inr ⟨rfl, ih⟩)

theorem le_append (p s : List α) : p ≤ p ++ s := by
  have h := append_le_append_left p (nil_le s)
  rwa [List.append_nil] at h

/-- A list that is not below `p` extends it or is above all lists that do. -/
theorem prefix_or_lt (h : p ≤ a) : p <+: a ∨ ∀ s, p ++ s < a := by
  induction p generalizing a with
  | nil => exact .inl a.nil_prefix
  | cons x p ih =>
    cases a with
    | nil => exact absurd h (not_cons_le_nil x p)
    | cons y a =>
      rcases cons_le_cons_iff.mp h with hlt | ⟨rfl, hle⟩
      · exact .inr fun s => List.cons_lt_cons_iff.mpr (.inl hlt)
      · rcases ih hle with hpre | hlt
        · exact .inl (List.prefix_cons_inj x |>.mpr hpre)
        · exact .inr fun s => List.cons_lt_cons_iff.mpr (.inr ⟨rfl, hlt s⟩)

/-- Past the extensions of `p` there are no more. -/
theorem not_prefix_of_lt (hpa : p ≤ a) (hab : a < b) (h : ¬ p <+: a) : ¬ p <+: b := by
  rcases prefix_or_lt hpa with hpre | hlt
  · exact absurd hpre h
  · rintro ⟨s, rfl⟩
    exact lt_irrefl _ (hab.trans (hlt s))

end Lexicographic
