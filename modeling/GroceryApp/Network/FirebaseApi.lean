import GroceryApp.Network.RealtimeDatabase
import GroceryApp.Network.SegmentNames
import GroceryApp.Spec.GroceryMap

/-!
# The protocol `FirebaseApi` and its two implementations

An implementation refines the grocery map if some relation to the map survives every add and every
delete under a key and makes the list that of the map (`FirebaseApi.Refines`); the rest follows for
all sequences of calls (`Refines.run`). Both implementations do, so under names that are keys
neither fails and both list the rows of the map (`firebaseApi_refines`).
-/

namespace GroceryApp

open Pieces Runs

variable {name : String}

theorem IsKey.isSegment (h : IsKey name) : IsSegment name :=
  ⟨h.1, fun hc => h.2 _ hc (by simp)⟩

theorem IsKey.isValidPathString (h : IsKey name) : isValidPathString name = true := by
  rw [GroceryApp.isValidPathString, Bool.and_eq_true, decide_eq_true_iff, List.all_eq_true]
  refine ⟨h.1, fun c hc => ?_⟩
  have hc' := h.2 c hc
  simp only [List.mem_cons, List.not_mem_nil, or_false, not_or] at hc'
  simp [hc']

theorem IsKey.pieces (h : IsKey name) : Pieces.pieces '/' name = [name] :=
  pieces_of_notMem h.isSegment.1 h.isSegment.2

/-- What the protocol asks of an implementation with stored state `σ` and failures `ε`. -/
structure FirebaseApi (σ ε : Type) where
  getAllGroceries : σ → List GroceryVO
  addGrocery : σ → GroceryVO → Except ε σ
  deleteGrocery : σ → GroceryVO → Except ε σ
  /-- The last closure of `uploadImage`: the object it captured afterwards, and the write. -/
  uploadImage : σ → GroceryVO → Option String → GroceryVO × Except ε σ

namespace FirebaseApi

variable {σ ε : Type}

def perform (api : FirebaseApi σ ε) (db : σ) : FirebaseApiCall → Except ε σ
  | .addGrocery grocery => api.addGrocery db grocery.toVO
  | .deleteGrocery grocery => api.deleteGrocery db grocery.toVO
  | .uploadImage downloadURL grocery => (api.uploadImage db grocery.toVO (some downloadURL)).2

/-- The relation `R` between stored states and maps shows that the implementation, started in
`init`, does to its state what the calls do to the map. -/
structure Refines (api : FirebaseApi σ ε) (init : σ) (R : σ → GroceryMap → Prop) : Prop where
  init : R init ∅
  uploadImage : api.uploadImage = completeUpload api.addGrocery
  addGrocery : ∀ db m (g : KeyGrocery), R db m →
    ∃ db', api.addGrocery db g.toVO = .ok db' ∧ R db' (m.insert g.name g.entry)
  deleteGrocery : ∀ db m (g : KeyGrocery), R db m →
    ∃ db', api.deleteGrocery db g.toVO = .ok db' ∧ R db' (m.erase g.name)
  getAllGroceries : ∀ db m, R db m → (api.getAllGroceries db : Multiset GroceryVO) = m.rows

variable {api : FirebaseApi σ ε} {init db : σ} {R : σ → GroceryMap → Prop} {m : GroceryMap}

/-- Every call succeeds and keeps the relation. -/
theorem Refines.perform (h : Refines api init R) (hR : R db m) (call : FirebaseApiCall) :
    ∃ db', api.perform db call = .ok db' ∧ R db' (m.step call) := by
  rcases call with g | g | ⟨url, g⟩
  · exact h.addGrocery db m g hR
  · exact h.deleteGrocery db m g hR
  · -- the closure adds the object it captured, with the URL as its image
    obtain ⟨db', hadd, hR'⟩ := h.addGrocery db m { g with image := some url } hR
    have hdone : api.uploadImage db g.toVO (some url) =
        ({ g.toVO with image := some url }, .ok db') := by
      rw [h.uploadImage]
      exact completeUpload_eq_ok_iff.mpr (.inr ⟨url, rfl, rfl, hadd⟩)
    exact ⟨db', by simp only [FirebaseApi.perform, hdone], hR'⟩

/-- No sequence of calls fails, and the list after it is that of the map. -/
theorem Refines.run (h : Refines api init R) (calls : List FirebaseApiCall) :
    ∃ db, calls.foldlM api.perform init = .ok db ∧
      (api.getAllGroceries db : Multiset GroceryVO) = (run GroceryMap.step ∅ calls).rows := by
  obtain ⟨db, hdb, hR⟩ :=
    foldlM_related (R := R) (fun _ _ call hR => h.perform hR call) h.init calls
  exact ⟨db, hdb, h.getAllGroceries _ _ hR⟩

end FirebaseApi

variable {m : GroceryMap}

namespace CloudFireStore

/-- `CloudFireStoreFirebaseApiImpl`. -/
def impl : FirebaseApi Firestore HardFail where
  getAllGroceries := getAllGroceries
  addGrocery := addGrocery
  deleteGrocery := deleteGrocery
  uploadImage := onDownloadURL

/-- The collection has the rows of the map. -/
structure Shows (db : Firestore) (m : GroceryMap) : Prop where
  keyed : Keyed db
  rows : ∀ name, rowOf db name = m.row? name

variable {db : Firestore}

theorem Shows.insert (h : Shows db m) (g : KeyGrocery) :
    ∃ db', addGrocery db g.toVO = .ok db' ∧ Shows db' (m.insert g.name g.entry) := by
  refine ⟨_, addGrocery_eq_ok_iff.mpr
    ⟨_, document_of_isSegment g.isKey.isSegment, rfl⟩, h.keyed.setData rfl g.isKey.isSegment, ?_⟩
  intro name
  rw [rowOf_setData, GroceryMap.row?_insert, g.stored_toVO, h.rows]
  rfl

theorem Shows.erase (h : Shows db m) (g : KeyGrocery) :
    ∃ db', deleteGrocery db g.toVO = .ok db' ∧ Shows db' (m.erase g.name) := by
  refine ⟨_, deleteGrocery_eq_ok_iff.mpr ⟨_, document_of_isSegment g.isKey.isSegment, rfl⟩,
    h.keyed.delete _, ?_⟩
  intro name
  rw [rowOf_delete, GroceryMap.row?_erase, h.rows]
  rfl

theorem Shows.getAllGroceries (h : Shows db m) :
    (CloudFireStore.getAllGroceries db : Multiset GroceryVO) = m.rows := by
  refine GroceryMap.coe_eq_rows h.keyed.written.nodup fun row => ?_
  simp only [mem_getAllGroceries_iff_rowOf, h.rows]

theorem impl_refines : impl.Refines ∅ Shows where
  init := ⟨keyed_empty, fun _ => rfl⟩
  uploadImage := rfl
  addGrocery := fun _ _ g h => h.insert g
  deleteGrocery := fun _ _ g h => h.erase g
  getAllGroceries := fun _ _ h => h.getAllGroceries

end CloudFireStore

namespace RealtimeDatabase

/-- `FirebaseRealtimeDatabaseApiImpl`. -/
def impl : FirebaseApi Database NSException where
  getAllGroceries := getAllGroceries
  addGrocery := addGrocery
  deleteGrocery := deleteGrocery
  uploadImage := onDownloadURL

/-- The tree has the rows of the map, each under its name. -/
structure Shows (db : Database) (m : GroceryMap) : Prop where
  nodup : (db.getChild groceries).NodupKeys
  rows : ∀ key row, (∃ t, (key, t) ∈ snapshotChildren db ∧ readChild t = row) ↔
    m.row? key = some row

variable {db : Database}

theorem shows_empty : Shows .empty ∅ := by
  refine ⟨KeyTree.nodupKeys_empty, fun key row => ?_⟩
  constructor
  · rintro ⟨t, ht, -⟩
    cases ht
  · intro h
    cases h

/-- Writing a whole entry writes the row of its key. -/
theorem Shows.updateChild (h : Shows db m) {key : String} {new : Database} {m' : GroceryMap}
    (hkey : ∀ row, new.isEmpty = false ∧ readChild new = row ↔ m'.row? key = some row)
    (hother : ∀ key', key' ≠ key → m'.row? key' = m.row? key') :
    Shows (db.updateChild (groceries ++ [key]) new) m' where
  nodup := by
    rw [getChild_updateChild, KeyTree.updateChild_cons]
    exact h.nodup.updateImmediateChild key _
  rows := by
    intro key' row
    simp only [snapshotChildren_updateChild, KeyTree.updateChild_cons, KeyTree.updateChild,
      KeyTree.mem_children_updateImmediateChild]
    by_cases he : key' = key
    · subst he
      rw [← hkey]
      simp only [true_and, ne_eq, not_true_eq_false, false_and, or_false]
      constructor
      · rintro ⟨t, ⟨rfl, hne⟩, hread⟩
        exact ⟨hne, hread⟩
      · rintro ⟨hne, hread⟩
        exact ⟨new, ⟨rfl, hne⟩, hread⟩
    · rw [hother key' he, ← h.rows]
      simp only [he, false_and, ne_eq, not_false_eq_true, true_and, false_or]
      rfl

theorem Shows.insert (h : Shows db m) (g : KeyGrocery) :
    ∃ db', addGrocery db g.toVO = .ok db' ∧ Shows db' (m.insert g.name g.entry) := by
  refine ⟨_, addGrocery_eq_ok_iff.mpr ⟨g.isKey.isValidPathString, rfl⟩, ?_⟩
  show Shows (db.updateChild (groceries ++ Pieces.pieces '/' g.name) _) _
  rw [g.isKey.pieces]
  refine h.updateChild (fun row => ?_) fun key' hne => ?_
  · rw [readChild_valueTree, GroceryMap.row?_insert, if_pos rfl, g.stored_toVO, Option.some.injEq]
    exact and_iff_right (isEmpty_valueTree g.toVO)
  · rw [GroceryMap.row?_insert, if_neg hne]

theorem Shows.erase (h : Shows db m) (g : KeyGrocery) :
    ∃ db', deleteGrocery db g.toVO = .ok db' ∧ Shows db' (m.erase g.name) := by
  refine ⟨_, deleteGrocery_eq_ok_iff.mpr ⟨g.isKey.isValidPathString, rfl⟩, ?_⟩
  show Shows (db.updateChild (groceries ++ Pieces.pieces '/' g.name) _) _
  rw [g.isKey.pieces]
  refine h.updateChild (fun row => ?_) fun key' hne => ?_
  · rw [GroceryMap.row?_erase, if_pos rfl]
    simp
  · rw [GroceryMap.row?_erase, if_neg hne]

/-- The names of the list are the keys of the children. -/
theorem Shows.nodup_getAllGroceries (h : Shows db m) :
    (RealtimeDatabase.getAllGroceries db).Nodup := by
  have hnames : (RealtimeDatabase.getAllGroceries db).map (·.name) =
      ((snapshotChildren db).map Prod.fst).map some := by
    rw [RealtimeDatabase.getAllGroceries, List.map_map, List.map_map]
    refine List.map_congr_left fun c hc => ?_
    exact GroceryMap.name_of_row? ((h.rows c.1 _).mp ⟨c.2, hc, rfl⟩)
  refine List.Nodup.of_map (·.name) ?_
  rw [hnames]
  exact h.nodup.map (Option.some_injective _)

theorem Shows.getAllGroceries (h : Shows db m) :
    (RealtimeDatabase.getAllGroceries db : Multiset GroceryVO) = m.rows := by
  refine GroceryMap.coe_eq_rows h.nodup_getAllGroceries fun row => ?_
  rw [RealtimeDatabase.getAllGroceries, List.mem_map]
  constructor
  · rintro ⟨⟨key, t⟩, ht, hread⟩
    exact ⟨key, (h.rows key row).mp ⟨t, ht, hread⟩⟩
  · rintro ⟨key, hrow⟩
    obtain ⟨t, ht, hread⟩ := (h.rows key row).mpr hrow
    exact ⟨(key, t), ht, hread⟩

theorem impl_refines : impl.Refines .empty Shows where
  init := shows_empty
  uploadImage := rfl
  addGrocery := fun _ _ g h => h.insert g
  deleteGrocery := fun _ _ g h => h.erase g
  getAllGroceries := fun _ _ h => h.getAllGroceries

end RealtimeDatabase

/-- For every sequence of calls under names that are keys, and so after each of its prefixes: no
call fails, and both back ends list the rows of the grocery map. -/
theorem firebaseApi_refines (calls : List FirebaseApiCall) :
    ∃ (store : Firestore) (database : Database),
      calls.foldlM CloudFireStore.impl.perform ∅ = .ok store ∧
      calls.foldlM RealtimeDatabase.impl.perform .empty = .ok database ∧
      (CloudFireStore.getAllGroceries store : Multiset GroceryVO) =
        RealtimeDatabase.getAllGroceries database ∧
      (CloudFireStore.getAllGroceries store : Multiset GroceryVO) =
        (run GroceryMap.step ∅ calls).rows := by
  obtain ⟨store, hstore, hrows⟩ := CloudFireStore.impl_refines.run calls
  obtain ⟨database, hdatabase, hrows'⟩ := RealtimeDatabase.impl_refines.run calls
  exact ⟨store, database, hstore, hdatabase, hrows.trans hrows'.symm, hrows⟩

end GroceryApp
