import GroceryApp.Lib.Runs
import Mathlib.Logic.Function.Basic

/-!
# Read-modify-write sessions without a check

A cell holds one value after the other. A client reads one of them, not always the latest, later
writes `f c v` for the value `v` it read, and does not look at the cell again in between. The last
write then decides the whole value (`run_twoSessions`): it is computed from the value that the last
writer read, and what the other client wrote is in it only if that very value was read.
-/

namespace BlindWrite

open Runs

/-- `zs` is a merge of `xs` and `ys` that keeps the order of each. -/
inductive Shuffle {α : Type*} : List α → List α → List α → Prop where
  | nil : Shuffle [] [] []
  | left {x : α} {xs ys zs : List α} : Shuffle xs ys zs → Shuffle (x :: xs) ys (x :: zs)
  | right {y : α} {xs ys zs : List α} : Shuffle xs ys zs → Shuffle xs (y :: ys) (y :: zs)

theorem Shuffle.symm {α : Type*} {xs ys zs : List α} (h : Shuffle xs ys zs) :
    Shuffle ys xs zs := by
  induction h with
  | nil => exact .nil
  | left _ ih => exact ih.right
  | right _ ih => exact ih.left

theorem Shuffle.getLast? {α : Type*} {xs ys zs : List α} (h : Shuffle xs ys zs) :
    zs.getLast? = xs.getLast? ∨ zs.getLast? = ys.getLast? := by
  have hcons : ∀ {x : α} {xs ys zs : List α}, Shuffle xs ys zs →
      (zs.getLast? = xs.getLast? ∨ zs.getLast? = ys.getLast?) →
      (x :: zs).getLast? = (x :: xs).getLast? ∨ (x :: zs).getLast? = ys.getLast? := by
    intro x xs ys zs h ih
    simp only [List.getLast?_cons]
    rcases ih with hxs | hys
    · exact .inl (by rw [hxs])
    · cases hlast : ys.getLast? with
      | some y => exact .inr (by rw [hys, hlast, Option.getD_some])
      | none =>
        rw [hlast, List.getLast?_eq_none_iff] at hys
        subst hys
        cases h
        exact .inl rfl
  induction h with
  | nil => exact .inl rfl
  | left h ih => exact hcons h ih
  | right h ih => exact (hcons h.symm ih.symm).symm

/-- A list whose image is a merge is a merge. -/
theorem Shuffle.exists_of_map {α β : Type*} {f : α → β} {xs ys : List β} {zs : List α}
    (h : Shuffle xs ys (zs.map f)) :
    ∃ xs' ys', xs'.map f = xs ∧ ys'.map f = ys ∧ Shuffle xs' ys' zs := by
  induction zs generalizing xs ys with
  | nil =>
    cases h
    exact ⟨[], [], rfl, rfl, .nil⟩
  | cons z zs ih =>
    rw [List.map_cons] at h
    rcases h with _ | h | h
    · obtain ⟨xs', ys', rfl, rfl, hmerge⟩ := ih h
      exact ⟨z :: xs', ys', rfl, rfl, hmerge.left⟩
    · obtain ⟨xs', ys', rfl, rfl, hmerge⟩ := ih h
      exact ⟨xs', z :: ys', rfl, rfl, hmerge.right⟩

/-- A read is of the value with a number, the first one being number 0. -/
inductive Op (C : Type*) where
  | read (client : C) (version : ℕ)
  | write (client : C)
  deriving DecidableEq

/-- The values of the cell so far, and the number of the value each client has read and not yet
written back. -/
structure Cell (C α : Type*) where
  history : List α
  held : C → Option ℕ

variable {C α : Type*} [DecidableEq C]

def Cell.step (f : C → α → α) (cell : Cell C α) : Op C → Cell C α
  | .read c version => { cell with held := Function.update cell.held c (some version) }
  | .write c =>
    match (cell.held c).bind (cell.history[·]?) with
    | none => cell
    | some v => { history := cell.history ++ [f c v], held := Function.update cell.held c none }

/-- The read is of a value that the cell has had. -/
def Cell.Reads (cell : Cell C α) (op : Op C) : Prop :=
  ∀ c version, op = .read c version → version < cell.history.length

/-- The client that writes has read. -/
def Cell.Writes (cell : Cell C α) (op : Op C) : Prop :=
  ∀ c, op = .write c → (cell.held c).isSome

/-- The schedules of one session of `a`, which reads value number `va`, and one of `b`. -/
def TwoSessions (a b : C) (va vb : ℕ) (ops : List (Op C)) : Prop :=
  Shuffle [.read a va, .write a] [.read b vb, .write b] ops

variable {a b : C} {va vb : ℕ} {ops : List (Op C)}

omit [DecidableEq C] in
theorem TwoSessions.cases (h : TwoSessions a b va vb ops) :
    ops = [.read a va, .write a, .read b vb, .write b] ∨
    ops = [.read a va, .read b vb, .write a, .write b] ∨
    ops = [.read b vb, .read a va, .write a, .write b] ∨
    ops = [.read a va, .read b vb, .write b, .write a] ∨
    ops = [.read b vb, .read a va, .write b, .write a] ∨
    ops = [.read b vb, .write b, .read a va, .write a] := by
  unfold TwoSessions at h
  rcases h with _ | h | h
  · rcases h with _ | h | h
    · rcases h with _ | _ | h
      rcases h with _ | _ | h
      cases h
      simp
    · rcases h with _ | h | h
      · rcases h with _ | _ | h
        cases h
        simp
      · rcases h with _ | h | _
        cases h
        simp
  · rcases h with _ | h | h
    · rcases h with _ | h | h
      · rcases h with _ | _ | h
        cases h
        simp
      · rcases h with _ | h | _
        cases h
        simp
    · rcases h with _ | h | _
      rcases h with _ | h | _
      cases h
      simp

omit [DecidableEq C] in
theorem TwoSessions.mem_read (h : TwoSessions a b va vb ops) : .read b vb ∈ ops := by
  rcases h.cases with rfl | rfl | rfl | rfl | rfl | rfl <;> simp

variable {f : C → α → α} {cell : Cell C α}

omit [DecidableEq C] in
/-- What `b` read from value number `n` on, with `n` values before the sessions, is what `a`
wrote. -/
theorem eq_of_read {x y : α} (hread : (cell.history ++ [y])[vb]? = some x)
    (hvb : cell.history.length ≤ vb) : x = y := by
  rw [List.getElem?_append_right hvb] at hread
  exact List.mem_singleton.mp (List.mem_of_getElem? hread)

@[simp] theorem Cell.step_read (c : C) (version : ℕ) : cell.step f (.read c version) =
    { cell with held := Function.update cell.held c (some version) } := rfl

/-- A write computes the new value from the one its client has read. -/
theorem Cell.step_write {c : C} {version : ℕ} {v : α} (hheld : cell.held c = some version)
    (hv : cell.history[version]? = some v) : cell.step f (.write c) =
      { history := cell.history ++ [f c v], held := Function.update cell.held c none } := by
  simp only [Cell.step, hheld, Option.bind_some, hv]

theorem Cell.held_write {c c' : C} (hne : c ≠ c') :
    (cell.step f (.write c')).held c = cell.held c := by
  simp only [Cell.step]
  split
  · rfl
  · exact Function.update_of_ne hne _ _

/-- In a schedule of two sessions every write follows a read of the same client. -/
theorem TwoSessions.along_writes (h : TwoSessions a b va vb ops) (hab : a ≠ b) (f : C → α → α)
    (cell : Cell C α) : Along (Cell.step f) Cell.Writes cell ops := by
  have hba : b ≠ a := Ne.symm hab
  rcases h.cases with rfl | rfl | rfl | rfl | rfl | rfl <;>
    simp [Cell.Writes, hab, hba, Cell.held_write, Function.update_of_ne]

/-- **The last write decides.** When `b` writes last, the value is `b`'s, computed from the value
that `b` read: one of the values before the sessions, or the one that `a` wrote. -/
theorem run_twoSessions (h : TwoSessions a b va vb ops) (hab : a ≠ b)
    (hlast : ops.getLast? = some (.write b)) (hreads : Along (Cell.step f) Cell.Reads cell ops) :
    ∃ xa xb, (run (Cell.step f) cell ops).history = cell.history ++ [f a xa, f b xb] ∧
      (cell.history ++ [f a xa])[vb]? = some xb := by
  have hba : b ≠ a := Ne.symm hab
  have hread : ∀ {c : C} {version : ℕ} {cell' : Cell C α}, cell'.Reads (.read c version) →
      ∃ x, cell'.history[version]? = some x :=
    fun h => ⟨_, List.getElem?_eq_getElem (h _ _ rfl)⟩
  -- when `b` reads before `a` writes, what `b` read is still there
  have hstay : ∀ {x : α} (y : α), cell.history[vb]? = some x →
      (cell.history ++ [y])[vb]? = some x := by
    intro x y hx
    rw [List.getElem?_append_left (List.getElem?_eq_some_iff.mp hx).1, hx]
  rcases h.cases with rfl | rfl | rfl | rfl | rfl | rfl
  · obtain ⟨ha, -, hb, -⟩ := hreads
    obtain ⟨xa, hxa⟩ := hread ha
    have hwrite : Cell.step f (Cell.step f cell (.read a va)) (.write a) =
        ⟨cell.history ++ [f a xa], Function.update (Function.update cell.held a (some va)) a none⟩ :=
      Cell.step_write (Function.update_self ..) hxa
    rw [hwrite] at hb
    obtain ⟨xb, hxb⟩ := hread hb
    refine ⟨xa, xb, ?_, hxb⟩
    rw [run_cons, run_cons, hwrite]
    simp only at hxb
    simp [Cell.step, hxb]
  · obtain ⟨ha, hb, -, -⟩ := hreads
    obtain ⟨xa, hxa⟩ := hread ha
    obtain ⟨xb, hxb⟩ := hread hb
    refine ⟨xa, xb, ?_, hstay _ hxb⟩
    simp only [Cell.step_read] at hxa hxb
    simp [Cell.step, Function.update_of_ne hab, Function.update_of_ne hba, hxa, hstay _ hxb]
  · obtain ⟨hb, ha, -, -⟩ := hreads
    obtain ⟨xb, hxb⟩ := hread hb
    obtain ⟨xa, hxa⟩ := hread ha
    refine ⟨xa, xb, ?_, hstay _ hxb⟩
    simp only [Cell.step_read] at hxa hxb
    simp [Cell.step, Function.update_of_ne hba, hxa, hstay _ hxb]
  all_goals
    simp [hab] at hlast

end BlindWrite
