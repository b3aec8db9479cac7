import GroceryApp.Data.GroceryVO
import GroceryApp.Lib.Pieces
import Mathlib.Data.List.AList
import Mathlib.Data.List.Sort

/-!
# The Firestore client

Paths, references and the document store behind `Firestore.firestore()`. A path text is split at
its slashes and the empty segments are dropped, so `"a"`, `"/a"` and `"a/"` name one document of a
collection, `"a/b/c"` names a document of a subcollection, and `"a//b"`, `""` and `"a/b"` fail an
assertion that ends the program. A write replaces the whole document, a delete of a missing
document does nothing, and a query on a collection sees the documents one segment below it, in the
order of their paths.
-/

namespace GroceryApp

open Pieces

abbrev ResourcePath := List String

def ResourcePath.canonicalString (path : ResourcePath) : String := "/".intercalate path

/-- The assertions of the client that a path can fail. -/
inductive HardFail where
  | invalidPath (path : String)
  | invalidDocumentReference (path : ResourcePath)
  deriving DecidableEq, Repr

def HardFail.message : HardFail → String
  | invalidPath path => "Invalid path (" ++ path ++ "). Paths must not contain // in them."
  | invalidDocumentReference path =>
    "Invalid document reference. Document references must have an even number of segments, but " ++
      path.canonicalString ++ " has " ++ toString path.length

/-- `ResourcePath::FromStringView`. -/
def ResourcePath.fromString (path : String) : Except HardFail ResourcePath :=
  if hasDouble '/' path.toList then .error (.invalidPath path) else .ok (pieces '/' path)

structure DocumentReference where
  path : ResourcePath
  even : path.length % 2 = 0
  deriving DecidableEq

@[ext] theorem DocumentReference.ext {ref ref' : DocumentReference} (h : ref.path = ref'.path) :
    ref = ref' := by
  cases ref
  cases ref'
  congr

/-- `DocumentReference::DocumentReference`. -/
def documentReference (path : ResourcePath) : Except HardFail DocumentReference :=
  if h : path.length % 2 = 0 then .ok ⟨path, h⟩ else .error (.invalidDocumentReference path)

/-- Only a path with an even number of segments makes a reference, and then to itself. -/
theorem documentReference_eq_ok_iff {path : ResourcePath} {ref : DocumentReference} :
    documentReference path = .ok ref ↔ ref.path = path := by
  unfold documentReference
  constructor
  · intro h
    split at h
    · rw [← Except.ok.inj h]
    · cases h
  · rintro rfl
    rw [dif_pos ref.even]

structure CollectionReference where
  path : ResourcePath
  odd : path.length % 2 = 1
  deriving DecidableEq

/-- `CollectionReference::Document`. -/
def CollectionReference.document (collection : CollectionReference) (documentPath : String) :
    Except HardFail DocumentReference := do
  let subPath ← ResourcePath.fromString documentPath
  documentReference (collection.path ++ subPath)

/-- Where a path text leads: nowhere if it contains a doubled slash or makes the number of
segments odd. -/
theorem CollectionReference.document_eq_ok_iff {collection : CollectionReference}
    {documentPath : String} {ref : DocumentReference} :
    collection.document documentPath = .ok ref ↔
      hasDouble '/' documentPath.toList = false ∧
        ref.path = collection.path ++ pieces '/' documentPath := by
  unfold CollectionReference.document ResourcePath.fromString
  cases h : hasDouble '/' documentPath.toList
  · exact documentReference_eq_ok_iff.trans (by simp)
  · simp [bind, Except.bind]

/-- The fields of a document, under their names. -/
abbrev Document := List (String × FieldValue)

abbrev Firestore := AList fun _ : DocumentReference => Document

namespace Firestore

def setData (db : Firestore) (ref : DocumentReference) (data : Document) : Firestore :=
  db.insert ref data

def delete (db : Firestore) (ref : DocumentReference) : Firestore := db.erase ref

/-- `BasePath::IsImmediateParentOf`. -/
def isImmediateParentOf (collection : CollectionReference) (ref : DocumentReference) : Bool :=
  ref.path.length == collection.path.length + 1 && collection.path.isPrefixOf ref.path

abbrev QueryDocumentSnapshot := Σ _ : DocumentReference, Document

/-- The documents a query on the collection sees. -/
def documents (db : Firestore) (collection : CollectionReference) : List QueryDocumentSnapshot :=
  (db.entries.filter fun e => isImmediateParentOf collection e.1).insertionSort
    fun a b => a.1.path ≤ b.1.path

section Lookup

variable {db : Firestore} {ref ref' : DocumentReference} {data : Document}

@[simp] theorem lookup_setData_self : (db.setData ref data).lookup ref = some data :=
  AList.lookup_insert db

theorem lookup_setData_of_ne (h : ref' ≠ ref) :
    (db.setData ref data).lookup ref' = db.lookup ref' := AList.lookup_insert_ne h

@[simp] theorem lookup_delete_self : (db.delete ref).lookup ref = none := AList.lookup_erase ref db

theorem lookup_delete_of_ne (h : ref' ≠ ref) : (db.delete ref).lookup ref' = db.lookup ref' :=
  AList.lookup_erase_ne h

theorem lookup_setData : (db.setData ref data).lookup ref' =
    if ref' = ref then some data else db.lookup ref' := by
  split_ifs with h
  · rw [h, lookup_setData_self]
  · exact lookup_setData_of_ne h

theorem lookup_delete : (db.delete ref).lookup ref' =
    if ref' = ref then none else db.lookup ref' := by
  split_ifs with h
  · rw [h, lookup_delete_self]
  · exact lookup_delete_of_ne h

end Lookup

/-! ## What a query sees -/

variable {db : Firestore} {c : CollectionReference} {ref : DocumentReference} {data : Document}

theorem mem_documents :
    (⟨ref, data⟩ : QueryDocumentSnapshot) ∈ db.documents c ↔
      db.lookup ref = some data ∧ isImmediateParentOf c ref = true := by
  unfold documents
  rw [(List.perm_insertionSort _ _).mem_iff, List.mem_filter, ← Option.mem_def,
    AList.mem_lookup_iff]

theorem nodup_documents_keys : ((db.documents c).map Sigma.fst).Nodup := by
  unfold documents
  rw [((List.perm_insertionSort _ _).map _).nodup_iff]
  exact (AList.keys_nodup db).sublist (List.filter_sublist.map _)

theorem nodup_documents : (db.documents c).Nodup := nodup_documents_keys.of_map _

theorem pairwise_documents : (db.documents c).Pairwise fun a b => a.1.path ≤ b.1.path := by
  unfold documents
  exact List.pairwise_insertionSort _ _

/-- What a query sees depends on the documents of its collection alone. -/
theorem documents_congr {db' : Firestore}
    (h : ∀ ref, isImmediateParentOf c ref = true → db.lookup ref = db'.lookup ref) :
    db.documents c = db'.documents c := by
  have hperm : (db.documents c).Perm (db'.documents c) := by
    rw [List.perm_ext_iff_of_nodup nodup_documents nodup_documents]
    rintro ⟨ref, data⟩
    rw [mem_documents, mem_documents]
    exact and_congr_left fun hparent => by rw [h ref hparent]
  refine List.Perm.eq_of_pairwise ?_ pairwise_documents pairwise_documents hperm
  intro a b ha hb hab hba
  have hkey : a.1 = b.1 := DocumentReference.ext (le_antisymm hab hba)
  exact List.inj_on_of_nodup_map nodup_documents_keys ha (hperm.mem_iff.mpr hb) hkey

end Firestore

end GroceryApp
