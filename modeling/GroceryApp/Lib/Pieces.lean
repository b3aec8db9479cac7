import Mathlib.Data.List.Basic
import Mathlib.Data.String.Basic

/-!
# Splitting a string into its non-empty pieces

`pieces sep s` are the maximal runs of `s` without the separator `sep`, in order. Separators at
either end, and doubled ones, leave no trace, so different strings may have the same pieces.
-/

namespace Pieces

/-- The non-empty pieces of `s` between the separators. -/
def pieces (sep : Char) (s : String) : List String :=
  ((s.toList.splitOn sep).filter fun p => !p.isEmpty).map String.ofList

/-- Two separators stand side by side. -/
def hasDouble (sep : Char) : List Char → Bool
  | [] => false
  | [_] => false
  | c :: d :: cs => (c == sep && d == sep) || hasDouble sep (d :: cs)

variable {sep : Char} {s : String}

/-- A non-empty string without separators is its own only piece. -/
theorem pieces_of_notMem (hs : s ≠ "") (h : sep ∉ s.toList) : pieces sep s = [s] := by
  have hsplit : s.toList.splitOn sep = [s.toList] := by
    refine List.splitOnP_eq_singleton fun c hc => ?_
    rw [beq_eq_false_iff_ne]
    rintro rfl
    exact h hc
  have hne : s.toList ≠ [] := fun h0 => hs (String.toList_inj.mp (by simpa using h0))
  simp [pieces, hsplit, hne]

theorem hasDouble_of_notMem {l : List Char} (h : sep ∉ l) : hasDouble sep l = false := by
  induction l with
  | nil => rfl
  | cons c l ih =>
    obtain ⟨hc, hl⟩ := not_or.mp (mt List.mem_cons.mpr h)
    cases l with
    | nil => rfl
    | cons d l => simp [hasDouble, ih hl, Ne.symm hc]

end Pieces
