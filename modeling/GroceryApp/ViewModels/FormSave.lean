import GroceryApp.ViewModels.GroceryViewModel

/-!
# Saving the form

The typed name is a document path that nobody checks. A save does what the user expects exactly if
the name is one segment and no other listed name is the same segment (`storedAndListed_iff`). Any
other name traps, lands in a document that is never listed, or replaces the grocery of another
name.
-/

namespace GroceryApp

open CloudFireStore Pieces Runs

/-- A save returns without a trap, lists one entry under the typed name with the typed
description, and leaves the entries under other names as they were. -/
def StoredAndListed (db : Firestore) (vm : GroceryViewModel) : Prop :=
  ∃ db', addGrocery db vm.onTapAddGrocery = .ok db' ∧
    (∃ row, (getAllGroceries db').filter (·.name = some vm.groceryName) = [row] ∧
      row.description = some vm.groceryDescription) ∧
    ((getAllGroceries db').filter (·.name ≠ some vm.groceryName)).Perm
      ((getAllGroceries db).filter (·.name ≠ some vm.groceryName))

/-- The name is a single segment that no listed grocery with another name has. -/
def Saveable (db : Firestore) (name : String) : Prop :=
  hasDouble '/' name.toList = false ∧ ∃ id, pieces '/' name = [id] ∧
    ∀ row ∈ getAllGroceries db, ∀ other, row.name = some other → pieces '/' other = [id] →
      other = name

namespace CloudFireStore

variable {db db' : Firestore} {g : GroceryVO} {name id : String}

/-- A save under a saveable name does what the user expects. -/
theorem Written.storedAndListed (h : Written db) {vm : GroceryViewModel}
    (hs : Saveable db vm.groceryName) : StoredAndListed db vm := by
  obtain ⟨hdouble, id, hid, hother⟩ := hs
  have hdoc : groceries.document vm.groceryName = .ok (groceryRef id) :=
    document_eq_groceryRef_iff.mpr ⟨hdouble, hid⟩
  have hadd : CloudFireStore.addGrocery db vm.onTapAddGrocery =
      .ok (db.setData (groceryRef id) (groceryDictionary vm.onTapAddGrocery)) :=
    addGrocery_eq_ok_iff.mpr ⟨_, hdoc, rfl⟩
  have hw := h.addGrocery hadd
  refine ⟨_, hadd, ⟨stored vm.onTapAddGrocery, ?_, rfl⟩, ?_⟩
  · exact hw.filter_name (mem_getAllGroceries_setData.mpr (.inl rfl)) rfl
  · rw [List.perm_ext_iff_of_nodup (hw.nodup.filter _) (h.nodup.filter _)]
    intro row
    simp only [List.mem_filter, decide_eq_true_iff]
    refine and_congr_left fun hne => ?_
    rw [mem_getAllGroceries_setData]
    constructor
    · rintro (rfl | ⟨id', data, -, hlookup, hread⟩)
      · exact absurd rfl hne
      · exact CloudFireStore.mem_getAllGroceries.mpr ⟨id', data, hlookup, hread⟩
    · intro hrow
      obtain ⟨id', g, rfl, hlookup, hg⟩ := h.mem_getAllGroceries.mp hrow
      refine .inr ⟨id', _, ?_, hlookup, readDocument_groceryDictionary g⟩
      rintro rfl
      exact hne (congrArg some (hother _ hrow _ rfl (document_eq_groceryRef_iff.mp hg).2))

/-- A save that does what the user expects was under a saveable name. -/
theorem Written.saveable (h : Written db) {vm : GroceryViewModel} (hs : StoredAndListed db vm) :
    Saveable db vm.groceryName := by
  obtain ⟨db', hadd, ⟨row, hfilter, -⟩, hperm⟩ := hs
  have hw := h.addGrocery hadd
  have hrow : row ∈ getAllGroceries db' ∧ row.name = some vm.groceryName := by
    have hmem : row ∈ (getAllGroceries db').filter (·.name = some vm.groceryName) := by
      rw [hfilter]
      exact List.mem_singleton_self row
    simpa using hmem
  obtain ⟨id, hdoc⟩ := hw.exists_id hrow.1 hrow.2
  obtain ⟨hdouble, hid⟩ := document_eq_groceryRef_iff.mp hdoc
  refine ⟨hdouble, id, hid, fun row' hrow' other hother hotherid => ?_⟩
  by_contra hne
  have hmem : row' ∈ (getAllGroceries db).filter (·.name ≠ some vm.groceryName) := by
    simp [hrow', hother, hne]
  have hrow'db' : row' ∈ getAllGroceries db' := (List.mem_filter.mp (hperm.mem_iff.mpr hmem)).1
  obtain ⟨id', hdoc'⟩ := h.exists_id hrow' hother
  obtain rfl : id' = id := by
    simpa [hotherid, eq_comm] using (document_eq_groceryRef_iff.mp hdoc').2
  have heq := hw.row_unique hrow'db' (by rw [hother]; exact hdoc') hrow.1
    (by rw [hrow.2]; exact hdoc)
  rw [heq, hrow.2] at hother
  exact hne (Option.some.inj hother).symm

end CloudFireStore

/-- In every reachable collection and for all form texts: the save stores and lists what was typed
exactly if the typed name is a single segment that no listed grocery with another name has. -/
theorem storedAndListed_iff {Client : Type} [DecidableEq Client] (es : List (ClientEvent Client))
    (vm : GroceryViewModel) :
    StoredAndListed (run World.step ({} : World Client) es).db vm ↔
      Saveable (run World.step ({} : World Client) es).db vm.groceryName :=
  ⟨(World.consistent es).written.saveable, (World.consistent es).written.storedAndListed⟩

/-- The empty form traps. -/
theorem not_storedAndListed_empty :
    ¬ ∀ (es : List (ClientEvent ℕ)) (vm : GroceryViewModel),
      StoredAndListed (run World.step ({} : World ℕ) es).db vm := by
  intro h
  obtain ⟨db', hadd, -⟩ := h [] {}
  have htrap : addGrocery ∅ ({} : GroceryViewModel).onTapAddGrocery =
      .error (.invalidDocumentReference ["groceries"]) := by decide
  cases htrap.symm.trans hadd

end GroceryApp
