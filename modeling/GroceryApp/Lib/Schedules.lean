import GroceryApp.Lib.Runs
import Mathlib.Data.List.Nodup
import Mathlib.Data.List.Perm.Basic
import Mathlib.Data.List.Sort

/-!
# Schedules of one set of operations

A schedule is a list of operations' names, each once. Two schedules of one set that keep the order
of conflicting operations have the operations of each class of conflicting ones in the same order
(`KeepsOrder.filter_eq`). In a store of cells whose operations act on one cell at most, two
operations conflict if they act on one cell, and such schedules leave the same in every cell
(`CellStep.view_schedules_eq`).
-/

namespace Schedules

open Runs

variable {ι : Type*}

/-- `t` has the operations of `s` and keeps the order of those that conflict. -/
structure KeepsOrder (conflict : ι → ι → Prop) (s t : List ι) : Prop where
  perm : s.Perm t
  order : ∀ i j, conflict i j → List.Sublist [i, j] s → List.Sublist [i, j] t

/-- In a list without repetition two elements stand in one order only. -/
theorem eq_of_sublist_pair {s : List ι} (hs : s.Nodup) {i j : ι} (hij : List.Sublist [i, j] s)
    (hji : List.Sublist [j, i] s) : i = j := by
  induction s with
  | nil => cases hij
  | cons a s ih =>
    rw [List.nodup_cons] at hs
    rw [List.sublist_cons_iff] at hij hji
    rcases hij with hij | ⟨_, hi, hij⟩
    · rcases hji with hji | ⟨_, hj, hji⟩
      · exact ih hs.2 hij hji
      · obtain ⟨rfl, rfl⟩ := List.cons.inj hj
        exact absurd (hij.subset (by simp)) hs.1
    · obtain ⟨rfl, rfl⟩ := List.cons.inj hi
      rcases hji with hji | ⟨_, hj, -⟩
      · exact absurd (hji.subset (by simp)) hs.1
      · exact (List.cons.inj hj).1.symm

variable {conflict : ι → ι → Prop} {s t : List ι}

/-- Both schedules have the operations of a class of conflicting ones in the same order. -/
theorem KeepsOrder.filter_eq (h : KeepsOrder conflict s t) (hs : s.Nodup) {p : ι → Bool}
    (hp : ∀ i j, p i → p j → conflict i j) : s.filter p = t.filter p := by
  have ht : t.Nodup := h.perm.nodup_iff.mp hs
  have hpair : ∀ {i j : ι} {u : List ι}, List.Sublist [i, j] (u.filter p) →
      p i ∧ p j ∧ List.Sublist [i, j] u := by
    intro i j u hsub
    have hmem : ∀ k ∈ [i, j], p k := fun k hk => (List.mem_filter.mp (hsub.subset hk)).2
    exact ⟨hmem i (by simp), hmem j (by simp), hsub.trans List.filter_sublist⟩
  -- both lists are sorted by their order in `t`
  have hsorted : (s.filter p).Pairwise fun i j => List.Sublist [i, j] t := by
    refine List.pairwise_iff_forall_sublist.mpr fun hsub => ?_
    obtain ⟨hi, hj, hsub⟩ := hpair hsub
    exact h.order _ _ (hp _ _ hi hj) hsub
  have hsorted' : (t.filter p).Pairwise fun i j => List.Sublist [i, j] t :=
    List.pairwise_iff_forall_sublist.mpr fun hsub => (hpair hsub).2.2
  apply List.Perm.eq_of_pairwise _ hsorted hsorted' (h.perm.filter p)
  exact fun i j _ _ => eq_of_sublist_pair ht

/-! ## Stores of cells -/

variable {σ ε κ α : Type*} {step : σ → ε → σ} {cell : ε → Option κ} {view : σ → κ → α}
  {act : ε → α → α}

/-- An operation acts on the one cell it addresses, if any, and leaves the others as they are. -/
structure CellStep (step : σ → ε → σ) (cell : ε → Option κ) (view : σ → κ → α)
    (act : ε → α → α) : Prop where
  view_step_self : ∀ s e k, cell e = some k → view (step s e) k = act e (view s k)
  view_step_other : ∀ s e k, cell e ≠ some k → view (step s e) k = view s k

variable [DecidableEq κ]

/-- After a run a cell holds what the operations on it have made of it. -/
theorem CellStep.view_run (h : CellStep step cell view act) (s : σ) (es : List ε) (k : κ) :
    view (run step s es) k =
      run (fun a e => act e a) (view s k) (es.filter fun e => cell e = some k) := by
  induction es generalizing s with
  | nil => rfl
  | cons e es ih =>
    rw [run_cons, ih]
    by_cases hk : cell e = some k
    · rw [List.filter_cons_of_pos (by simpa using hk), run_cons, h.view_step_self s e k hk]
    · rw [List.filter_cons_of_neg (by simpa using hk), h.view_step_other s e k hk]

/-- Schedules that keep the order of the operations on each cell leave the same in every cell. -/
theorem CellStep.view_schedules_eq (h : CellStep step cell view act) (ops : ι → ε)
    {schedule schedule' : List ι}
    (hkeeps : KeepsOrder (fun i j => ∃ k, cell (ops i) = some k ∧ cell (ops j) = some k)
      schedule schedule') (hnodup : schedule.Nodup) (s : σ) (k : κ) :
    view (run step s (schedule.map ops)) k = view (run step s (schedule'.map ops)) k := by
  rw [h.view_run, h.view_run, List.filter_map, List.filter_map]
  rw [hkeeps.filter_eq hnodup]
  intro i j hi hj
  exact ⟨k, by simpa using hi, by simpa using hj⟩

end Schedules
