import GroceryApp.FirestoreCore.ViewChanges
import Mathlib.Data.List.Sort

/-!
# The changes of a snapshot

A snapshot lists its changes by their type and then by document. The list tells of every document
what became of it (`Tells`), also if changes of metadata only are left out (`Tells.filter`).
-/

namespace GroceryApp.FirestoreCore

/-- The change of a document in a list. -/
def changeAt (changes : List DocumentViewChange) (key : DocumentKey) : Option DocumentViewChange :=
  changes.find? fun change => decide (change.key = key)

/-- A list of changes, at most one for each document and in order, tells what became of `old`; it may
leave out documents whose data have not changed. -/
structure Tells (old new : DocumentMap) (changes : List DocumentViewChange) : Prop where
  nodup : (changes.map (·.key)).Nodup
  sorted : changes.Pairwise View.changeBefore
  told : ∀ key change, changeAt changes key = some change →
    Describes key (old.find? key) (new.find? key) (some change)
  untold : ∀ key, changeAt changes key = none →
    (new.find? key).map (·.data) = (old.find? key).map (·.data)

section Lists

variable {changes changes' : List DocumentViewChange} {key : DocumentKey}
  {change : DocumentViewChange} {old new : DocumentMap}

theorem changeAt_eq_some_iff (h : (changes.map (·.key)).Nodup) :
    changeAt changes key = some change ↔ change ∈ changes ∧ change.key = key := by
  unfold changeAt
  constructor
  · intro hfind
    exact ⟨List.mem_of_find?_eq_some hfind, by simpa using List.find?_some hfind⟩
  · rintro ⟨hmem, rfl⟩
    cases hfind : changes.find? fun c => decide (c.key = change.key) with
    | none => exact absurd (List.find?_eq_none.mp hfind change hmem) (by simp)
    | some found =>
      have hkey : found.key = change.key := by simpa using List.find?_some hfind
      rw [List.inj_on_of_nodup_map h (List.mem_of_find?_eq_some hfind) hmem hkey]

/-- Changes of metadata only can be left out. -/
theorem Tells.filter (h : Tells old new changes) (p : DocumentViewChange → Bool)
    (hp : ∀ change ∈ changes, p change = false → change.type = .metadata) :
    Tells old new (changes.filter p) := by
  have hnodup : ((changes.filter p).map (·.key)).Nodup :=
    h.nodup.sublist (List.filter_sublist.map _)
  refine ⟨hnodup, h.sorted.filter p, fun key change hchange => ?_, fun key hnone => ?_⟩
  · obtain ⟨hmem, hkey⟩ := (changeAt_eq_some_iff hnodup).mp hchange
    exact h.told key change
      ((changeAt_eq_some_iff h.nodup).mpr ⟨(List.mem_filter.mp hmem).1, hkey⟩)
  · cases hchange : changeAt changes key with
    | none => exact h.untold key hchange
    | some change =>
      obtain ⟨hmem, hkey⟩ := (changeAt_eq_some_iff h.nodup).mp hchange
      have hfalse : p change = false := by
        rw [← Bool.not_eq_true]
        intro htrue
        have hsome := (changeAt_eq_some_iff hnodup).mpr ⟨List.mem_filter.mpr ⟨hmem, htrue⟩, hkey⟩
        rw [hnone] at hsome
        cases hsome
      have htold := (h.told key change hchange).2
      simp only [hp change hmem hfalse] at htold
      rw [htold.1, htold.2]
      rfl

theorem Tells.of_nil (h : Tells old new []) (key : DocumentKey) :
    (new.find? key).map (·.data) = (old.find? key).map (·.data) := h.untold key rfl

end Lists

namespace View

instance : Std.Total changeBefore where
  total a b := by
    unfold changeBefore
    rcases lt_trichotomy (typePosition a.type) (typePosition b.type) with h | h | h
    · exact .inl (.inl h)
    · rcases le_total a.key b.key with hkey | hkey
      · exact .inl (.inr ⟨h, hkey⟩)
      · exact .inr (.inr ⟨h.symm, hkey⟩)
    · exact .inr (.inl h)

instance : IsTrans DocumentViewChange changeBefore where
  trans a b c := by
    rintro (hab | ⟨hab, hab'⟩) (hbc | ⟨hbc, hbc'⟩)
    · exact .inl (hab.trans hbc)
    · exact .inl (hbc ▸ hab)
    · exact .inl (hab ▸ hbc)
    · exact .inr ⟨hab.trans hbc, hab'.trans hbc'⟩

theorem Explains.tells {view : View} {changes : ViewDocumentChanges} (h : view.Explains changes) :
    Tells view.documentSet changes.documentSet
      ((DocumentViewChangeSet.getChanges changes.changeSet).insertionSort changeBefore) := by
  have hkey : ∀ e ∈ changes.changeSet.entries, e.2.key = e.1 := by
    intro e he
    have hdescribes := h e.1
    unfold ViewDocumentChanges.slot at hdescribes
    rw [SortedMap.mem_entries.mp he] at hdescribes
    exact hdescribes.1
  have hperm := List.perm_insertionSort changeBefore
    (DocumentViewChangeSet.getChanges changes.changeSet)
  have hnodup : (((DocumentViewChangeSet.getChanges changes.changeSet).insertionSort
      changeBefore).map (·.key)).Nodup := by
    rw [(hperm.map _).nodup_iff]
    unfold DocumentViewChangeSet.getChanges
    rw [List.map_map]
    show (changes.changeSet.entries.map fun e => e.2.key).Nodup
    rw [List.map_congr_left hkey]
    exact SortedMap.nodup_keys
  have hmem : ∀ key change, changeAt ((DocumentViewChangeSet.getChanges
      changes.changeSet).insertionSort changeBefore) key = some change ↔
        changes.changeSet.find? key = some change := by
    intro key change
    rw [changeAt_eq_some_iff hnodup, hperm.mem_iff]
    unfold DocumentViewChangeSet.getChanges
    rw [List.mem_map]
    constructor
    · rintro ⟨⟨e, he, rfl⟩, rfl⟩
      rw [hkey e he]
      exact SortedMap.mem_entries.mp he
    · intro hfind
      have he := SortedMap.mem_entries.mpr hfind
      exact ⟨⟨_, he, rfl⟩, hkey _ he⟩
  refine ⟨hnodup, List.pairwise_insertionSort _ _, fun key change hchange => ?_, fun key hnone => ?_⟩
  · have hdescribes := h key
    unfold ViewDocumentChanges.slot at hdescribes
    rwa [(hmem key change).mp hchange] at hdescribes
  · have hdescribes := h key
    unfold ViewDocumentChanges.slot at hdescribes
    cases hfind : changes.changeSet.find? key with
    | none =>
      rw [hfind] at hdescribes
      rw [show changes.documentSet.find? key = _ from hdescribes]
    | some change =>
      rw [(hmem key change).mpr hfind] at hnone
      cases hnone

end View

end GroceryApp.FirestoreCore
