import GroceryApp.Network.Firestore

/-!
# `CloudFireStoreFirebaseApiImpl`

The four functions of the Firestore back end. The name of a grocery is its document path, and the
document also stores the name; `Written` says that the two agree in every document, so that the
name read from a listed document leads back to it. It holds of the empty collection and every
call keeps it.
-/

namespace GroceryApp

namespace CloudFireStore

/-- `db.collection("groceries")`. -/
def groceries : CollectionReference := ⟨["groceries"], rfl⟩

def readDocument (data : Document) : GroceryVO := readGrocery fun key => data.lookup key

/-- The closure given to `addSnapshotListener`: the list it hands to `success`. The error is not
looked at, and a missing snapshot has no documents. -/
def snapshotListener (snapshot : Option (List Firestore.QueryDocumentSnapshot))
    (_error : Option String) : List GroceryVO :=
  (snapshot.getD []).map fun singleSnapShot => readDocument singleSnapShot.2

/-- The list handed to `success` when the collection is `db`. -/
def getAllGroceries (db : Firestore) : List GroceryVO :=
  snapshotListener (some (db.documents groceries)) none

def addGrocery (db : Firestore) (grocery : GroceryVO) : Except HardFail Firestore := do
  let ref ← groceries.document (grocery.name.getD "")
  return db.setData ref (groceryDictionary grocery)

def deleteGrocery (db : Firestore) (grocery : GroceryVO) : Except HardFail Firestore := do
  let ref ← groceries.document (grocery.name.getD "")
  return db.delete ref

def onDownloadURL : Firestore → GroceryVO → Option String →
    GroceryVO × Except HardFail Firestore := completeUpload addGrocery

/-- The document one segment below `groceries`. -/
def groceryRef (id : String) : DocumentReference := ⟨["groceries", id], by simp⟩

theorem groceryRef_injective : Function.Injective groceryRef := by
  intro a b h
  simpa [groceryRef] using h

theorem isImmediateParentOf_iff {ref : DocumentReference} :
    Firestore.isImmediateParentOf groceries ref = true ↔ ∃ id, ref = groceryRef id := by
  constructor
  · intro h
    obtain ⟨path, even⟩ := ref
    simp only [Firestore.isImmediateParentOf, groceries, Bool.and_eq_true, beq_iff_eq] at h
    obtain ⟨hlen, hpre⟩ := h
    rcases path with _ | ⟨a, _ | ⟨id, _ | ⟨b, path⟩⟩⟩
    · simp at hlen
    · simp at hlen
    · obtain rfl : "groceries" = a := by simpa using hpre
      exact ⟨id, rfl⟩
    · simp at hlen
  · rintro ⟨id, rfl⟩
    simp [Firestore.isImmediateParentOf, groceries, groceryRef]

/-! ## Resolving a name -/

/-- Where a name leads: `document` succeeds unless the name contains a doubled slash or the
whole path has an odd number of segments. -/
theorem document_eq_ok_iff {name : String} {ref : DocumentReference} :
    groceries.document name = .ok ref ↔
      Pieces.hasDouble '/' name.toList = false ∧
        ref.path = "groceries" :: Pieces.pieces '/' name :=
  CollectionReference.document_eq_ok_iff

theorem document_eq_groceryRef_iff {name id : String} :
    groceries.document name = .ok (groceryRef id) ↔
      Pieces.hasDouble '/' name.toList = false ∧ Pieces.pieces '/' name = [id] := by
  rw [document_eq_ok_iff, groceryRef, List.cons.injEq, and_iff_right rfl, eq_comm (a := [id])]

/-- A name leads to one document at most. -/
theorem document_unique {name : String} {ref ref' : DocumentReference}
    (h : groceries.document name = .ok ref) (h' : groceries.document name = .ok ref') :
    ref = ref' := Except.ok.inj (h.symm.trans h')

/-- A non-empty name without slashes is the id of its document. -/
theorem document_of_notMem {name : String} (hne : name ≠ "") (h : '/' ∉ name.toList) :
    groceries.document name = .ok (groceryRef name) :=
  document_eq_groceryRef_iff.mpr
    ⟨Pieces.hasDouble_of_notMem h, Pieces.pieces_of_notMem hne h⟩

/-! ## What the calls do -/

variable {db db' : Firestore} {g : GroceryVO}

theorem addGrocery_eq_ok_iff : addGrocery db g = .ok db' ↔
    ∃ ref, groceries.document (g.name.getD "") = .ok ref ∧
      db' = db.setData ref (groceryDictionary g) := by
  unfold addGrocery
  cases h : groceries.document (g.name.getD "") with
  | error e => simp [bind, Except.bind]
  | ok ref => simp [bind, Except.bind, pure, Except.pure, eq_comm]

theorem deleteGrocery_eq_ok_iff : deleteGrocery db g = .ok db' ↔
    ∃ ref, groceries.document (g.name.getD "") = .ok ref ∧ db' = db.delete ref := by
  unfold deleteGrocery
  cases h : groceries.document (g.name.getD "") with
  | error e => simp [bind, Except.bind]
  | ok ref => simp [bind, Except.bind, pure, Except.pure, eq_comm]

theorem onDownloadURL_eq_ok_iff {url : Option String} {g' : GroceryVO} :
    onDownloadURL db g url = (g', .ok db') ↔
      (url = none ∧ g' = g ∧ db' = db) ∨
        ∃ downloadURL, url = some downloadURL ∧ g' = { g with image := some downloadURL } ∧
          addGrocery db g' = .ok db' := completeUpload_eq_ok_iff

/-- With a URL and a name that leads to a document, the closure writes that document. -/
theorem onDownloadURL_of_document {ref : DocumentReference}
    (href : groceries.document (g.name.getD "") = .ok ref) (url : String) :
    onDownloadURL db g (some url) = ({ g with image := some url },
      .ok (db.setData ref (groceryDictionary { g with image := some url }))) :=
  onDownloadURL_eq_ok_iff.mpr
    (.inr ⟨url, rfl, rfl, addGrocery_eq_ok_iff.mpr ⟨ref, href, rfl⟩⟩)

/-! ## Documents that hold their own name -/

/-- Every document was written by `addGrocery` at the place its name leads to. -/
def Written (db : Firestore) : Prop :=
  ∀ ref data, db.lookup ref = some data →
    ∃ g : GroceryVO, data = groceryDictionary g ∧
      groceries.document (g.name.getD "") = .ok ref

theorem written_empty : Written ∅ := by
  intro ref data h
  simp at h

theorem Written.addGrocery (h : Written db) (hadd : addGrocery db g = .ok db') : Written db' := by
  obtain ⟨ref, href, rfl⟩ := addGrocery_eq_ok_iff.mp hadd
  intro ref' data hdata
  rw [Firestore.lookup_setData] at hdata
  split_ifs at hdata with he
  · rw [he]
    exact ⟨g, (Option.some.inj hdata).symm, href⟩
  · exact h ref' data hdata

theorem Written.deleteGrocery (h : Written db) (hdel : deleteGrocery db g = .ok db') :
    Written db' := by
  obtain ⟨ref, -, rfl⟩ := deleteGrocery_eq_ok_iff.mp hdel
  intro ref' data hdata
  rw [Firestore.lookup_delete] at hdata
  split_ifs at hdata
  exact h ref' data hdata

/-! ## The list handed to `success` -/

theorem readDocument_groceryDictionary (g : GroceryVO) :
    readDocument (groceryDictionary g) = stored g := readGrocery_groceryDictionary g

theorem mem_getAllGroceries {vo : GroceryVO} : vo ∈ getAllGroceries db ↔
    ∃ id data, db.lookup (groceryRef id) = some data ∧ readDocument data = vo := by
  simp only [getAllGroceries, snapshotListener, Option.getD_some, List.mem_map]
  constructor
  · rintro ⟨⟨ref, data⟩, hmem, rfl⟩
    obtain ⟨hlookup, hparent⟩ := Firestore.mem_documents.mp hmem
    obtain ⟨id, rfl⟩ := isImmediateParentOf_iff.mp hparent
    exact ⟨id, data, hlookup, rfl⟩
  · rintro ⟨id, data, hlookup, rfl⟩
    exact ⟨⟨groceryRef id, data⟩, Firestore.mem_documents.mpr
      ⟨hlookup, isImmediateParentOf_iff.mpr ⟨id, rfl⟩⟩, rfl⟩

theorem getAllGroceries_congr {db' : Firestore}
    (h : ∀ id, db.lookup (groceryRef id) = db'.lookup (groceryRef id)) :
    getAllGroceries db = getAllGroceries db' := by
  unfold getAllGroceries
  rw [Firestore.documents_congr]
  intro ref hparent
  obtain ⟨id, rfl⟩ := isImmediateParentOf_iff.mp hparent
  exact h id

/-- In a written collection a listed row is a written grocery, read back from the document its
name leads to. -/
theorem Written.mem_getAllGroceries (h : Written db) {vo : GroceryVO} :
    vo ∈ getAllGroceries db ↔ ∃ id g, vo = stored g ∧
      db.lookup (groceryRef id) = some (groceryDictionary g) ∧
      groceries.document (g.name.getD "") = .ok (groceryRef id) := by
  rw [CloudFireStore.mem_getAllGroceries]
  constructor
  · rintro ⟨id, data, hlookup, rfl⟩
    obtain ⟨g, rfl, hg⟩ := h _ _ hlookup
    exact ⟨id, g, readDocument_groceryDictionary g, hlookup, hg⟩
  · rintro ⟨id, g, rfl, hlookup, -⟩
    exact ⟨id, _, hlookup, readDocument_groceryDictionary g⟩

/-- The names of the listed rows are distinct. -/
theorem Written.nodup_names (h : Written db) : ((getAllGroceries db).map (·.name)).Nodup := by
  unfold getAllGroceries snapshotListener
  rw [Option.getD_some, List.map_map]
  refine List.Nodup.map_on ?_ Firestore.nodup_documents
  rintro ⟨ref, data⟩ hmem ⟨ref', data'⟩ hmem' hname
  have hlookup := (Firestore.mem_documents.mp hmem).1
  have hlookup' := (Firestore.mem_documents.mp hmem').1
  obtain ⟨g, rfl, hg⟩ := h _ _ hlookup
  obtain ⟨g', rfl, hg'⟩ := h _ _ hlookup'
  have hnames : g.name.getD "" = g'.name.getD "" := by
    simpa [readDocument_groceryDictionary] using hname
  rw [← hnames] at hg'
  obtain rfl := document_unique hg hg'
  rw [Option.some.inj (hlookup.symm.trans hlookup')]

theorem Written.nodup (h : Written db) : (getAllGroceries db).Nodup := h.nodup_names.of_map _

/-- Two listed rows with one name are one row. -/
theorem Written.eq_of_name_eq (h : Written db) {vo vo' : GroceryVO}
    (hvo : vo ∈ getAllGroceries db) (hvo' : vo' ∈ getAllGroceries db)
    (hname : vo.name = vo'.name) : vo = vo' :=
  List.inj_on_of_nodup_map h.nodup_names hvo hvo' hname

/-- A name is listed. -/
def Listed (db : Firestore) (name : String) : Prop :=
  ∃ vo ∈ getAllGroceries db, vo.name = some name

instance (db : Firestore) (name : String) : Decidable (Listed db name) :=
  inferInstanceAs (Decidable (∃ vo ∈ getAllGroceries db, vo.name = some name))

end CloudFireStore

end GroceryApp
