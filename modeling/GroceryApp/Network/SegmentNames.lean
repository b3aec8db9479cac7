import GroceryApp.Network.ListedRows

/-!
# Groceries under segment names

A non-empty name without slashes is the id of its own document. As long as only such names are
used the collection is a map from names to rows (`rowOf`): the list shows exactly its rows, a save
or a completed upload replaces the row of its name, and a delete removes it.
-/

namespace GroceryApp

open CloudFireStore

def IsSegment (name : String) : Prop := name ≠ "" ∧ '/' ∉ name.toList

instance : DecidablePred IsSegment := fun name =>
  inferInstanceAs (Decidable (name ≠ "" ∧ '/' ∉ name.toList))

namespace CloudFireStore

theorem isSegment_of_listed {db : Firestore} {name : String}
    (h : ∀ row ∈ getAllGroceries db, IsSegment (row.name.getD "")) (hl : Listed db name) :
    IsSegment name := by
  obtain ⟨row, hrow, hname⟩ := hl
  have hsegment := h row hrow
  rwa [hname] at hsegment

theorem document_of_isSegment {name : String} (h : IsSegment name) :
    groceries.document name = .ok (groceryRef name) := document_of_notMem h.1 h.2

/-- The row that is read from the document with the name as its id. -/
def rowOf (db : Firestore) (name : String) : Option GroceryVO :=
  (db.lookup (groceryRef name)).map readDocument

/-- Every document was written under a segment name and has it as its id. -/
def Keyed (db : Firestore) : Prop :=
  ∀ ref data, db.lookup ref = some data → ∃ g name, data = groceryDictionary g ∧
    g.name = some name ∧ IsSegment name ∧ ref = groceryRef name

variable {db : Firestore} {name name' : String} {g row : GroceryVO}

theorem keyed_empty : Keyed ∅ := by
  intro ref data h
  simp at h

theorem Keyed.written (h : Keyed db) : Written db := by
  intro ref data hdata
  obtain ⟨g, name, rfl, hname, hsegment, rfl⟩ := h ref data hdata
  exact ⟨g, rfl, by rw [hname]; exact document_of_isSegment hsegment⟩

theorem Keyed.setData (h : Keyed db) (hname : g.name = some name) (hsegment : IsSegment name) :
    Keyed (db.setData (groceryRef name) (groceryDictionary g)) := by
  intro ref data hdata
  rw [Firestore.lookup_setData] at hdata
  split_ifs at hdata with he
  · obtain rfl := Option.some.inj hdata
    exact ⟨g, name, rfl, hname, hsegment, he⟩
  · exact h ref data hdata

theorem Keyed.delete (h : Keyed db) (ref : DocumentReference) : Keyed (db.delete ref) := by
  intro ref' data hdata
  rw [Firestore.lookup_delete] at hdata
  split_ifs at hdata
  exact h ref' data hdata

/-! ## The collection as a map -/

theorem rowOf_setData (name' : String) :
    rowOf (db.setData (groceryRef name) (groceryDictionary g)) name' =
      if name' = name then some (stored g) else rowOf db name' := by
  simp only [rowOf, Firestore.lookup_setData, groceryRef_injective.eq_iff]
  split_ifs
  · rw [Option.map_some, readDocument_groceryDictionary]
  · rfl

theorem rowOf_delete (name' : String) :
    rowOf (db.delete (groceryRef name)) name' = if name' = name then none else rowOf db name' := by
  simp only [rowOf, Firestore.lookup_delete, groceryRef_injective.eq_iff]
  split_ifs <;> rfl

theorem mem_getAllGroceries_iff_rowOf :
    row ∈ getAllGroceries db ↔ ∃ name, rowOf db name = some row := by
  rw [mem_getAllGroceries]
  simp only [rowOf, Option.map_eq_some_iff]

theorem Keyed.exists_of_rowOf (h : Keyed db) (hrow : rowOf db name = some row) :
    ∃ g, row = stored g ∧ g.name = some name ∧ IsSegment name ∧
      db.lookup (groceryRef name) = some (groceryDictionary g) := by
  obtain ⟨data, hdata, rfl⟩ := Option.map_eq_some_iff.mp hrow
  obtain ⟨g, name', rfl, hname, hsegment, href⟩ := h _ _ hdata
  obtain rfl := groceryRef_injective href
  exact ⟨g, readDocument_groceryDictionary g, hname, hsegment, hdata⟩

theorem Keyed.rowOf_eq_some_iff (h : Keyed db) :
    rowOf db name = some row ↔ row ∈ getAllGroceries db ∧ row.name = some name := by
  constructor
  · intro hrow
    obtain ⟨g, rfl, hname, -⟩ := h.exists_of_rowOf hrow
    exact ⟨mem_getAllGroceries_iff_rowOf.mpr ⟨name, hrow⟩, by simp [hname]⟩
  · rintro ⟨hmem, hname⟩
    obtain ⟨name', hrow⟩ := mem_getAllGroceries_iff_rowOf.mp hmem
    obtain ⟨g, rfl, hname', -⟩ := h.exists_of_rowOf hrow
    obtain rfl : name' = name := by simpa [hname'] using hname
    exact hrow

end CloudFireStore

end GroceryApp
