import Mathlib.Data.List.Basic
import Mathlib.Data.List.Lookmap

/-!
# Trees with labelled children

A tree is a leaf with a value or a node with labelled children; the node without children is the
empty tree, which no node keeps as a child. `updateChild p t n` replaces the subtree of `t` at the
path `p` by `n`: missing nodes on the way are made, a leaf on the way is replaced by a node, and a
node left without children disappears.

What a write does to the children of its root is `children_updateImmediateChild`; writes under
a label act on the subtree at that label as they would alone (`getImmediateChild_updateChild`).
-/

/-- A tree with labels in `K` and values in `V`. -/
inductive KeyTree (K V : Type) where
  | leaf (value : V)
  | node (children : List (K × KeyTree K V))

namespace KeyTree

variable {K V : Type}

/-- The tree without values. -/
def empty : KeyTree K V := node []

def isEmpty : KeyTree K V → Bool
  | leaf _ => false
  | node cs => cs.isEmpty

/-- The labelled subtrees directly under the root. -/
def children : KeyTree K V → List (K × KeyTree K V)
  | leaf _ => []
  | node cs => cs

/-- The value of a leaf. -/
def value? : KeyTree K V → Option V
  | leaf v => some v
  | node _ => none

@[simp] theorem children_leaf (v : V) : (leaf v : KeyTree K V).children = [] := rfl
@[simp] theorem isEmpty_empty : (empty : KeyTree K V).isEmpty = true := rfl
@[simp] theorem children_node (cs : List (K × KeyTree K V)) : (node cs).children = cs := rfl

theorem eq_empty_of_isEmpty {t : KeyTree K V} (h : t.isEmpty = true) : t = empty := by
  cases t with
  | leaf v => cases h
  | node cs => rw [List.isEmpty_iff.mp h]; rfl

variable [DecidableEq K]

/-- The subtree at one label, empty when there is none. -/
def getImmediateChild (t : KeyTree K V) (k : K) : KeyTree K V := (t.children.lookup k).getD empty

/-- The subtree at a path. -/
def getChild : List K → KeyTree K V → KeyTree K V
  | [], t => t
  | k :: ks, t => getChild ks (t.getImmediateChild k)

/-- The tree with the subtree at one label replaced; an empty subtree is removed. -/
def updateImmediateChild (t : KeyTree K V) (k : K) (new : KeyTree K V) : KeyTree K V :=
  match t with
  | leaf v => if new.isEmpty then leaf v else node [(k, new)]
  | node cs =>
    if new.isEmpty then node (cs.filter fun c => c.1 ≠ k)
    else node ((k, new) :: cs.filter fun c => c.1 ≠ k)

/-- The tree with the subtree at a path replaced. -/
def updateChild : List K → KeyTree K V → KeyTree K V → KeyTree K V
  | [], _, new => new
  | k :: ks, leaf v, new =>
    if new.isEmpty then leaf v
    else (leaf v).updateImmediateChild k (updateChild ks empty new)
  | k :: ks, node cs, new =>
    (node cs).updateImmediateChild k (updateChild ks ((node cs).getImmediateChild k) new)

/-! ## The children after a write -/

/-- A write at `k` decides what stands at `k` and leaves the other labels as they are. -/
theorem children_updateImmediateChild (t new : KeyTree K V) (k : K) :
    (t.updateImmediateChild k new).children =
      (if new.isEmpty then [] else [(k, new)]) ++ t.children.filter fun c => c.1 ≠ k := by
  cases t with
  | leaf v => cases h : new.isEmpty <;> simp [updateImmediateChild, h]
  | node cs => cases h : new.isEmpty <;> simp [updateImmediateChild, h]

theorem updateImmediateChild_of_not_isEmpty {t new : KeyTree K V} {k : K}
    (h : new.isEmpty = false) :
    t.updateImmediateChild k new = node ((k, new) :: t.children.filter fun c => c.1 ≠ k) := by
  cases t <;> simp [updateImmediateChild, h]

theorem mem_children_updateImmediateChild {t new : KeyTree K V} {k k' : K} {c : KeyTree K V} :
    (k', c) ∈ (t.updateImmediateChild k new).children ↔
      (k' = k ∧ c = new ∧ new.isEmpty = false) ∨ (k' ≠ k ∧ (k', c) ∈ t.children) := by
  rw [children_updateImmediateChild]
  cases h : new.isEmpty <;> simp [and_comm]

/-- Distinct labels. -/
def NodupKeys (t : KeyTree K V) : Prop := (t.children.map Prod.fst).Nodup

omit [DecidableEq K] in
theorem nodupKeys_empty : (empty : KeyTree K V).NodupKeys := List.nodup_nil

theorem NodupKeys.updateImmediateChild {t : KeyTree K V} (h : t.NodupKeys) (k : K)
    (new : KeyTree K V) : (t.updateImmediateChild k new).NodupKeys := by
  have hf : ((t.children.filter fun c => c.1 ≠ k).map Prod.fst).Nodup :=
    h.sublist (List.filter_sublist.map _)
  unfold NodupKeys
  rw [children_updateImmediateChild]
  cases hn : new.isEmpty
  · simp only [Bool.false_eq_true, if_false, List.singleton_append, List.map_cons,
      List.nodup_cons]
    exact ⟨by simp, hf⟩
  · simpa only [if_true, List.nil_append] using hf

/-! ## Reading back -/

theorem lookup_filter_self {α : Type} (cs : List (K × α)) (k : K) :
    (cs.filter fun c => c.1 ≠ k).lookup k = none := by
  induction cs with
  | nil => rfl
  | cons c cs ih =>
    by_cases h : c.1 = k
    · simpa [h] using ih
    · rw [List.filter_cons_of_pos (by simpa using h), List.lookup_cons,
        beq_eq_false_iff_ne.mpr (Ne.symm h)]
      exact ih

/-- Reading a label right after writing it. -/
theorem getImmediateChild_updateImmediateChild (t new : KeyTree K V) (k : K) :
    (t.updateImmediateChild k new).getImmediateChild k = new := by
  unfold getImmediateChild updateImmediateChild
  cases h : new.isEmpty
  · cases t <;> simp
  · rw [eq_empty_of_isEmpty h]
    cases t with
    | leaf v => rfl
    | node cs => simp only [if_true, children_node, lookup_filter_self, Option.getD_none]

theorem updateChild_empty (ks : List K) : updateChild ks (empty : KeyTree K V) empty = empty := by
  induction ks with
  | nil => rfl
  | cons k ks ih =>
    have hget : (empty : KeyTree K V).getImmediateChild k = empty := rfl
    show (empty : KeyTree K V).updateImmediateChild k
      (updateChild ks ((empty : KeyTree K V).getImmediateChild k) empty) = empty
    rw [hget, ih]
    rfl

/-- On a leaf too, a write below `k` is a write at `k`. -/
theorem updateChild_cons (k : K) (ks : List K) (t new : KeyTree K V) :
    updateChild (k :: ks) t new =
      t.updateImmediateChild k (updateChild ks (t.getImmediateChild k) new) := by
  cases t with
  | node cs => rfl
  | leaf v =>
    have hget : (leaf v : KeyTree K V).getImmediateChild k = empty := rfl
    rw [updateChild, hget]
    by_cases h : new.isEmpty = true
    · rw [if_pos h, eq_empty_of_isEmpty h, updateChild_empty]
      rfl
    · rw [if_neg h]

/-- A write below `k` acts on the subtree at `k` as it would act on that subtree alone. -/
theorem getImmediateChild_updateChild (k : K) (ks : List K) (t new : KeyTree K V) :
    (updateChild (k :: ks) t new).getImmediateChild k =
      updateChild ks (t.getImmediateChild k) new := by
  rw [updateChild_cons, getImmediateChild_updateImmediateChild]

theorem lookup_filter_of_ne {α : Type} (cs : List (K × α)) {k k' : K} (h : k' ≠ k) :
    (cs.filter fun c => c.1 ≠ k).lookup k' = cs.lookup k' := by
  induction cs with
  | nil => rfl
  | cons c cs ih =>
    by_cases hc : c.1 = k
    · rw [List.filter_cons_of_neg (by simpa using hc), ih, List.lookup_cons,
        beq_eq_false_iff_ne.mpr (hc ▸ h)]
    · rw [List.filter_cons_of_pos (by simpa using hc), List.lookup_cons, List.lookup_cons, ih]

/-- A write below `k` acts on no other label. -/
theorem getImmediateChild_updateChild_of_ne {t new : KeyTree K V} {k k' : K} {ks : List K}
    (h : k' ≠ k) : (updateChild (k :: ks) t new).getImmediateChild k' = t.getImmediateChild k' := by
  unfold getImmediateChild
  rw [updateChild_cons, children_updateImmediateChild]
  have hne : (k' == k) = false := beq_eq_false_iff_ne.mpr h
  split
  · rw [List.nil_append, lookup_filter_of_ne _ h]
  · simp only [List.singleton_append, List.lookup_cons, hne, lookup_filter_of_ne _ h]

/-- Reading a path right after writing it. -/
theorem getChild_updateChild_self (ks : List K) (t new : KeyTree K V) :
    getChild ks (updateChild ks t new) = new := by
  induction ks generalizing t with
  | nil => rfl
  | cons k ks ih => rw [getChild, getImmediateChild_updateChild, ih]

/-! ## What a write leaves of a leaf -/

/-- Where something is written there is no empty tree. -/
theorem isEmpty_updateChild {ks : List K} {t new : KeyTree K V} (h : new.isEmpty = false) :
    (updateChild ks t new).isEmpty = false := by
  induction ks generalizing t with
  | nil => exact h
  | cons k ks ih =>
    rw [updateChild_cons, updateImmediateChild_of_not_isEmpty ih]
    rfl

/-- Where a node is written there is no leaf. -/
theorem value?_updateChild {ks : List K} {t new : KeyTree K V} (h : new.isEmpty = false)
    (hvalue : new.value? = none) : (updateChild ks t new).value? = none := by
  cases ks with
  | nil => exact hvalue
  | cons k ks =>
    rw [updateChild_cons, updateImmediateChild_of_not_isEmpty (isEmpty_updateChild h)]
    rfl

/-- A leaf stays when something below it is removed, and a node does not become a leaf. -/
theorem value?_updateChild_empty (k : K) (ks : List K) (t : KeyTree K V) :
    (updateChild (k :: ks) t empty).value? = t.value? := by
  cases t with
  | leaf v => rfl
  | node cs =>
    rw [updateChild_cons, updateImmediateChild]
    split <;> rfl

/-! ## The other labels -/

/-- The child at one label and the children at the others. -/
theorem NodupKeys.children_perm {t : KeyTree K V} (h : t.NodupKeys) (k : K) :
    t.children.Perm
      (((t.children.lookup k).map (k, ·)).toList ++ t.children.filter fun c => c.1 ≠ k) := by
  unfold NodupKeys at h
  generalize t.children = cs at h ⊢
  induction cs with
  | nil => exact .nil
  | cons c cs ih =>
    rw [List.map_cons, List.nodup_cons] at h
    by_cases hc : c.1 = k
    · have hfilter : cs.filter (fun c => c.1 ≠ k) = cs := by
        refine List.filter_eq_self.mpr fun c' hc' => ?_
        have hne : c'.1 ≠ k := fun he => h.1 (List.mem_map.mpr ⟨c', hc', he.trans hc.symm⟩)
        simpa using hne
      rw [List.lookup_cons, beq_iff_eq.mpr hc.symm, List.filter_cons_of_neg (by simpa using hc),
        hfilter, ← hc]
      exact .refl _
    · rw [List.lookup_cons, beq_eq_false_iff_ne.mpr (Ne.symm hc),
        List.filter_cons_of_pos (by simpa using hc)]
      exact ((ih h.2).cons c).trans List.perm_middle.symm

theorem NodupKeys.mem_children_iff {t c : KeyTree K V} {k : K} (h : t.NodupKeys) :
    (k, c) ∈ t.children ↔ t.children.lookup k = some c := by
  rw [(h.children_perm k).mem_iff, List.mem_append]
  simp

/-- A write below `k` keeps the children at other labels. -/
theorem mem_children_updateChild_of_ne {t new : KeyTree K V} {k k' : K} {ks : List K}
    {c : KeyTree K V} (h : k' ≠ k) :
    (k', c) ∈ (updateChild (k :: ks) t new).children ↔ (k', c) ∈ t.children := by
  rw [updateChild_cons, mem_children_updateImmediateChild]
  simp [h]

end KeyTree
