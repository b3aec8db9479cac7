import GroceryApp.Lib.Schedules
import GroceryApp.Network.CloudFireStore
import Mathlib.Data.Fin.VecNotation
import Mathlib.Data.Finmap

/-!
# Order independence across groceries

Store operations with fixed payloads act on one document each, the one their name resolves to, or
on none if the name traps. Schedules that keep the order of the operations on each document end
in the same collection and list the same rows. What conflicts is the resolved document, not the
text: `"a"` and `"/a"` are one document, `"a"` and `"a/b/c"` are two.
-/

namespace GroceryApp

open CloudFireStore Runs Schedules

/-- A store operation and its payload; an upload is its final write. -/
inductive StoreOp where
  | addGrocery (grocery : GroceryVO)
  | deleteGrocery (grocery : GroceryVO)
  | uploadImage (grocery : GroceryVO) (downloadURL : String)

namespace StoreOp

/-- The path text of the document. -/
def name : StoreOp → String
  | .addGrocery grocery | .deleteGrocery grocery | .uploadImage grocery _ => grocery.name.getD ""

def perform (db : Firestore) : StoreOp → Except HardFail Firestore
  | .addGrocery grocery => CloudFireStore.addGrocery db grocery
  | .deleteGrocery grocery => CloudFireStore.deleteGrocery db grocery
  | .uploadImage grocery downloadURL => (onDownloadURL db grocery (some downloadURL)).2

/-- The collection after an operation, which a trap leaves as it was. -/
def step (db : Firestore) (op : StoreOp) : Firestore :=
  match op.perform db with
  | .error _ => db
  | .ok db => db

/-- What an operation leaves in its document. -/
def result : StoreOp → Option Document
  | .addGrocery grocery => some (groceryDictionary grocery)
  | .deleteGrocery _ => none
  | .uploadImage grocery downloadURL =>
    some (groceryDictionary { grocery with image := some downloadURL })

/-- The two names resolve to one document. -/
def SameDocument (op op' : StoreOp) : Prop :=
  ∃ ref, groceries.document op.name = .ok ref ∧ groceries.document op'.name = .ok ref

/-- What an operation does with the document its name resolves to. -/
def write (op : StoreOp) (db : Firestore) (ref : DocumentReference) : Firestore :=
  match op.result with
  | none => db.delete ref
  | some data => db.setData ref data

variable {db : Firestore} {op : StoreOp} {ref : DocumentReference}

/-- All operations resolve their name and then write that one document. -/
theorem perform_eq (db : Firestore) (op : StoreOp) :
    op.perform db = (groceries.document op.name).map (op.write db) := by
  cases op with
  | addGrocery g => rfl
  | deleteGrocery g => rfl
  | uploadImage g url =>
    simp only [perform, onDownloadURL, completeUpload, CloudFireStore.addGrocery, name]
    cases groceries.document (g.name.getD "") <;> rfl

theorem step_of_document (h : groceries.document op.name = .ok ref) :
    op.step db = op.write db ref := by
  simp only [step, perform_eq, h, Except.map]

/-- An operation that traps on its path changes nothing. -/
theorem step_of_trap (h : ∀ ref, groceries.document op.name ≠ .ok ref) : op.step db = db := by
  unfold step
  rw [perform_eq]
  cases hdoc : groceries.document op.name with
  | error e => rfl
  | ok ref => exact absurd hdoc (h ref)

/-- The document an operation addresses. -/
def cell (op : StoreOp) : Option DocumentReference := (groceries.document op.name).toOption

theorem cell_eq_some_iff : op.cell = some ref ↔ groceries.document op.name = .ok ref := by
  unfold cell
  cases groceries.document op.name <;> simp [Except.toOption]

/-- The collection is a store of documents. -/
theorem cellStep :
    CellStep (fun db op => step db op) cell (fun db ref => db.lookup ref)
      fun op _ => op.result where
  view_step_self := by
    intro db op ref h
    rw [step_of_document (cell_eq_some_iff.mp h), write]
    cases op.result with
    | none => exact Firestore.lookup_delete_self
    | some data => exact Firestore.lookup_setData_self
  view_step_other := by
    intro db op ref h
    by_cases hdoc : ∃ ref', groceries.document op.name = .ok ref'
    · obtain ⟨ref', hdoc⟩ := hdoc
      have hne : ref ≠ ref' := fun he => h (cell_eq_some_iff.mpr (he ▸ hdoc))
      rw [step_of_document hdoc, write]
      cases op.result with
      | none => exact Firestore.lookup_delete_of_ne hne
      | some data => exact Firestore.lookup_setData_of_ne hne
    · rw [step_of_trap (not_exists.mp hdoc)]

instance (op op' : StoreOp) : Decidable (SameDocument op op') :=
  decidable_of_iff (groceries.document op.name = groceries.document op'.name ∧ op.cell.isSome) <| by
    simp only [Option.isSome_iff_exists, cell_eq_some_iff]
    constructor
    · rintro ⟨heq, ref, href⟩
      exact ⟨ref, href, heq ▸ href⟩
    · rintro ⟨ref, href, href'⟩
      exact ⟨href.trans href'.symm, ref, href⟩

end StoreOp

open StoreOp

/-- Any two schedules of a set of operations with arbitrary names that keep the order of those on
one document end, from every collection, in the same collection and list the same rows; an
operation that traps changes nothing wherever it runs. -/
theorem schedules_agree {ι : Type} (ops : ι → StoreOp) (schedule schedule' : List ι)
    (hnodup : schedule.Nodup)
    (hkeeps : KeepsOrder (fun i j => SameDocument (ops i) (ops j)) schedule schedule')
    (db : Firestore) :
    (run step db (schedule.map ops)).toFinmap = (run step db (schedule'.map ops)).toFinmap ∧
    getAllGroceries (run step db (schedule.map ops)) =
      getAllGroceries (run step db (schedule'.map ops)) ∧
    ∀ i ∈ schedule, (∀ ref, groceries.document (ops i).name ≠ .ok ref) →
      ∀ db', step db' (ops i) = db' := by
  have hlookup : ∀ ref, (run step db (schedule.map ops)).lookup ref =
      (run step db (schedule'.map ops)).lookup ref := by
    refine cellStep.view_schedules_eq ops ⟨hkeeps.perm, fun i j hij => hkeeps.order i j ?_⟩
      hnodup db
    obtain ⟨ref, hi, hj⟩ := hij
    exact ⟨ref, cell_eq_some_iff.mp hi, cell_eq_some_iff.mp hj⟩
  refine ⟨Finmap.ext_lookup fun ref => ?_, getAllGroceries_congr fun id => hlookup _,
    fun i _ htrap db' => step_of_trap htrap⟩
  rw [Finmap.lookup_toFinmap, Finmap.lookup_toFinmap, hlookup]

/-- Milk is added, eggs are deleted and milk is added again under a second text of its path: the
delete can go first. -/
theorem schedules_agree_milk :
    let ops : Fin 3 → StoreOp :=
      ![.addGrocery { name := some "milk" }, .deleteGrocery { name := some "eggs" },
        .uploadImage { name := some "/milk" } "url"]
    (run step ∅ ([0, 1, 2].map ops)).toFinmap = (run step ∅ ([1, 0, 2].map ops)).toFinmap := by
  intro ops
  refine (schedules_agree ops [0, 1, 2] [1, 0, 2] (by decide) ⟨by decide, ?_⟩ ∅).1
  decide

example : groceries.document "/a" = groceries.document "a" := by decide

example : groceries.document "a" = .ok (groceryRef "a") ∧
    ∃ ref, groceries.document "a/b/c" = .ok ref ∧ ref ≠ groceryRef "a" :=
  ⟨by decide, ⟨["groceries", "a", "b", "c"], rfl⟩, by decide, by decide⟩

end GroceryApp
