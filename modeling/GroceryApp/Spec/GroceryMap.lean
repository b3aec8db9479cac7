import GroceryApp.Data.GroceryVO
import Mathlib.Data.Finmap

/-!
# The groceries as a map

What a back end is for: a map from names to entries. An add or a completed upload overwrites the
entry of its name, a delete removes it, and the list shows one row for each entry.
-/

namespace GroceryApp

/-- A name that is one key in both back ends. -/
def IsKey (name : String) : Prop :=
  name ≠ "" ∧ ∀ c ∈ name.toList, c ∉ ['/', '.', '#', '$', '[', ']']

instance : DecidablePred IsKey := fun name =>
  inferInstanceAs (Decidable (name ≠ "" ∧ ∀ c ∈ name.toList, c ∉ ['/', '.', '#', '$', '[', ']']))

/-- A grocery whose name is a key. -/
structure KeyGrocery where
  name : String
  isKey : IsKey name
  description : Option String := none
  amount : Option Int64 := none
  image : Option String := none

def KeyGrocery.toVO (g : KeyGrocery) : GroceryVO where
  name := some g.name
  description := g.description
  amount := g.amount
  image := g.image

/-- The calls of the protocol `FirebaseApi` that write; an upload is a completed one. -/
inductive FirebaseApiCall where
  | addGrocery (grocery : KeyGrocery)
  | deleteGrocery (grocery : KeyGrocery)
  | uploadImage (downloadURL : String) (grocery : KeyGrocery)

structure Entry where
  description : String
  amount : Option Int64
  image : String
  deriving DecidableEq

def Entry.row (name : String) (e : Entry) : GroceryVO where
  name := some name
  description := some e.description
  amount := e.amount
  image := some e.image

theorem Entry.row_injective (name : String) : Function.Injective (Entry.row name) := by
  intro e e' h
  cases e
  cases e'
  simpa [Entry.row] using h

def KeyGrocery.entry (g : KeyGrocery) : Entry where
  description := g.description.getD ""
  amount := g.amount
  image := g.image.getD ""

theorem KeyGrocery.stored_toVO (g : KeyGrocery) : stored g.toVO = g.entry.row g.name := rfl

abbrev GroceryMap := Finmap fun _ : String => Entry

namespace GroceryMap

def step (m : GroceryMap) : FirebaseApiCall → GroceryMap
  | .addGrocery grocery => m.insert grocery.name grocery.entry
  | .deleteGrocery grocery => m.erase grocery.name
  | .uploadImage downloadURL grocery =>
    m.insert grocery.name { grocery.entry with image := downloadURL }

/-- The row of a name. -/
def row? (m : GroceryMap) (name : String) : Option GroceryVO :=
  (m.lookup name).map (Entry.row name)

/-- One row for each entry. -/
def rows (m : GroceryMap) : Multiset GroceryVO := m.entries.map fun e => e.2.row e.1

variable {m : GroceryMap} {row : GroceryVO}

theorem row?_insert (name : String) (e : Entry) (name' : String) :
    row? (m.insert name e) name' = if name' = name then some (e.row name) else m.row? name' := by
  unfold row?
  split_ifs with h
  · rw [h, Finmap.lookup_insert, Option.map_some]
  · rw [Finmap.lookup_insert_of_ne m h]

theorem row?_erase (name name' : String) :
    row? (m.erase name) name' = if name' = name then none else m.row? name' := by
  unfold row?
  split_ifs with h
  · rw [h, Finmap.lookup_erase, Option.map_none]
  · rw [Finmap.lookup_erase_ne h]

theorem name_of_row? {name : String} (h : m.row? name = some row) : row.name = some name := by
  obtain ⟨e, -, rfl⟩ := Option.map_eq_some_iff.mp h
  rfl

theorem mem_rows : row ∈ m.rows ↔ ∃ name, m.row? name = some row := by
  simp only [rows, Multiset.mem_map, row?, Option.map_eq_some_iff, Finmap.lookup_eq_some_iff]
  constructor
  · rintro ⟨⟨name, e⟩, he, rfl⟩
    exact ⟨name, e, he, rfl⟩
  · rintro ⟨name, e, he, rfl⟩
    exact ⟨⟨name, e⟩, he, rfl⟩

theorem nodup_rows (m : GroceryMap) : m.rows.Nodup := by
  refine Multiset.Nodup.map_on ?_ m.nodup_entries
  rintro ⟨name, e⟩ - ⟨name', e'⟩ - h
  obtain rfl : name = name' := Option.some.inj (congrArg GroceryVO.name h)
  obtain rfl : e = e' := Entry.row_injective name h
  rfl

/-- A list of distinct rows that are those of the map is the map's list, up to order. -/
theorem coe_eq_rows {l : List GroceryVO} (hl : l.Nodup)
    (h : ∀ row, row ∈ l ↔ ∃ name, m.row? name = some row) : (l : Multiset GroceryVO) = m.rows := by
  rw [Multiset.Nodup.ext (Multiset.coe_nodup.mpr hl) m.nodup_rows]
  intro row
  rw [Multiset.mem_coe, h, mem_rows]

end GroceryMap

end GroceryApp
