import GroceryApp.Network.FirebaseApi

/-!
# The stages of an upload

`onImageChosen` encodes the picture, `uploadImage` puts the bytes under a new path of Cloud Storage,
asks for the URL of the object and, if it gets one, writes the grocery with it. The errors of the
first two stages are not looked at. A failed `putData` leaves no object and so no URL, which stops
the upload; but for a picture that cannot be encoded the empty `Data()` is put, and its URL is
written (`atomic_iff`).
-/

namespace GroceryApp

open Runs

/-- The objects of Cloud Storage under their paths. -/
abbrev Storage := AList fun _ : String => List UInt8

namespace Storage

def putData (storage : Storage) (path : String) (imageData : List UInt8) (succeeds : Bool) :
    Storage :=
  if succeeds then storage.insert path imageData else storage

/-- The path whose URL is handed to the closure, if the object exists. -/
def downloadURL (storage : Storage) (path : String) (succeeds : Bool) : Option String :=
  if succeeds ∧ (storage.lookup path).isSome then some path else none

end Storage

/-- How the stages of one upload go. -/
structure UploadStages where
  jpegData : Option (List UInt8)
  putDataSucceeds : Bool
  downloadURLSucceeds : Bool

def UploadStages.SomeFails (stages : UploadStages) : Prop :=
  stages.jpegData = none ∨ stages.putDataSucceeds = false ∨ stages.downloadURLSucceeds = false

/-- The collection, the chosen grocery and the objects. -/
structure UploadState (σ : Type) where
  collection : σ
  chosenGrocery : GroceryVO
  storage : Storage

variable {σ ε : Type}

namespace FirebaseApi

/-- `uploadImage` with the path it has chosen, up to its last closure. A trap in that closure leaves
the collection as it was, but the grocery has its new image by then. -/
def upload (api : FirebaseApi σ ε) (absoluteString : String → String) (path : String)
    (s : UploadState σ) (stages : UploadStages) (imageData : List UInt8) : UploadState σ :=
  let storage := s.storage.putData path imageData stages.putDataSucceeds
  let url := (storage.downloadURL path stages.downloadURLSucceeds).map absoluteString
  let done := api.uploadImage s.collection s.chosenGrocery url
  { collection := done.2.toOption.getD s.collection, chosenGrocery := done.1, storage }

def onImageChosen (api : FirebaseApi σ ε) (absoluteString : String → String) (path : String)
    (s : UploadState σ) (stages : UploadStages) : UploadState σ :=
  api.upload absoluteString path s stages (stages.jpegData.getD [])

end FirebaseApi

/-- No object has the path and the chosen grocery does not have its URL. -/
structure UploadState.Fresh (absoluteString : String → String) (path : String)
    (s : UploadState σ) : Prop where
  no_object : s.storage.lookup path = none
  no_image : s.chosenGrocery.image ≠ some (absoluteString path)

/-- The URL is of an object with the bytes. -/
def Storage.Holds (absoluteString : String → String) (storage : Storage) (url : String)
    (bytes : List UInt8) : Prop :=
  ∃ path, url = absoluteString path ∧ storage.lookup path = some bytes

/-- A failed upload changes neither the collection nor the grocery, and the stored image of the
grocery is replaced by the URL of the complete picture only. -/
structure Atomic (storedImage : σ → GroceryVO → Option String) (absoluteString : String → String)
    (stages : UploadStages) (s s' : UploadState σ) : Prop where
  failed : stages.SomeFails → s'.collection = s.collection ∧ s'.chosenGrocery = s.chosenGrocery
  replaced : storedImage s'.collection s.chosenGrocery ≠ storedImage s.collection s.chosenGrocery →
    ∃ url bytes, storedImage s'.collection s.chosenGrocery = some url ∧
      stages.jpegData = some bytes ∧ s'.storage.Holds absoluteString url bytes

/-- The picture can be encoded, or some other stage stops the upload. -/
def UploadStages.Harmless (stages : UploadStages) : Prop :=
  stages.jpegData.isSome ∨ stages.putDataSucceeds = false ∨ stages.downloadURLSucceeds = false

/-- What the uploads rely on in a back end: the closure changes the grocery and adds it, and an added
grocery is stored with its image. -/
structure StoresImages (api : FirebaseApi σ ε) (storedImage : σ → GroceryVO → Option String) :
    Prop where
  uploadImage : api.uploadImage = completeUpload api.addGrocery
  storedImage : ∀ db (g : GroceryVO) url db',
    api.addGrocery db { g with image := some url } = .ok db' → storedImage db' g = some url

section Stages

variable {api : FirebaseApi σ ε} {storedImage : σ → GroceryVO → Option String}
  {absoluteString : String → String} {path : String} {s : UploadState σ} {stages : UploadStages}
  {imageData : List UInt8}

/-- Without a URL nothing is written. -/
theorem StoresImages.upload_of_no_url (h : StoresImages api storedImage)
    (hnone : (s.storage.putData path imageData stages.putDataSucceeds).downloadURL path
      stages.downloadURLSucceeds = none) :
    (api.upload absoluteString path s stages imageData).collection = s.collection ∧
      (api.upload absoluteString path s stages imageData).chosenGrocery = s.chosenGrocery := by
  have hdone : api.uploadImage s.collection s.chosenGrocery none =
      (s.chosenGrocery, .ok s.collection) := by
    rw [h.uploadImage]
    rfl
  simp only [FirebaseApi.upload, hnone, Option.map_none, hdone, Except.toOption, Option.getD_some,
    and_self]

/-- A failed `putData` or `downloadURL` stops an upload under a fresh path. -/
theorem StoresImages.upload_of_stopped (h : StoresImages api storedImage)
    (hpath : s.storage.lookup path = none)
    (hstop : stages.putDataSucceeds = false ∨ stages.downloadURLSucceeds = false) :
    (api.upload absoluteString path s stages imageData).collection = s.collection ∧
      (api.upload absoluteString path s stages imageData).chosenGrocery = s.chosenGrocery := by
  refine h.upload_of_no_url ?_
  unfold Storage.downloadURL Storage.putData
  rcases hstop with hput | hurl
  · simp [hput, hpath]
  · simp [hurl]

/-- With the bytes put and the URL asked for, the grocery gets the URL of the new object. -/
theorem StoresImages.upload_of_url (h : StoresImages api storedImage)
    (absoluteString : String → String) (imageData : List UInt8)
    (hput : stages.putDataSucceeds = true) (hurl : stages.downloadURLSucceeds = true) :
    (api.upload absoluteString path s stages imageData).chosenGrocery =
        { s.chosenGrocery with image := some (absoluteString path) } ∧
      (api.upload absoluteString path s stages imageData).storage.lookup path = some imageData ∧
      (storedImage (api.upload absoluteString path s stages imageData).collection s.chosenGrocery ≠
          storedImage s.collection s.chosenGrocery →
        storedImage (api.upload absoluteString path s stages imageData).collection
          s.chosenGrocery = some (absoluteString path)) := by
  have hlookup : (s.storage.putData path imageData true).lookup path = some imageData :=
    AList.lookup_insert s.storage
  have hpath : (s.storage.putData path imageData true).downloadURL path true = some path := by
    simp [Storage.downloadURL, hlookup]
  simp only [FirebaseApi.upload, hput, hurl, hpath, Option.map_some, h.uploadImage]
  refine ⟨rfl, hlookup, fun hne => ?_⟩
  cases hadd : api.addGrocery s.collection
      { s.chosenGrocery with image := some (absoluteString path) } with
  | error e =>
    -- the write traps, and the collection stays
    simp only [completeUpload, hadd] at hne
    exact absurd rfl hne
  | ok db' =>
    simp only [completeUpload, hadd]
    exact h.storedImage _ _ _ _ hadd

/-- The stages of an upload are atomic exactly if it is harmless. -/
theorem StoresImages.atomic_iff (h : StoresImages api storedImage)
    (hfresh : s.Fresh absoluteString path) :
    Atomic storedImage absoluteString stages s (api.onImageChosen absoluteString path s stages) ↔
      stages.Harmless := by
  unfold FirebaseApi.onImageChosen
  constructor
  · intro hatomic
    by_contra hharm
    simp only [UploadStages.Harmless, not_or, Bool.not_eq_true, Option.isSome_eq_false_iff,
      Option.isNone_iff_eq_none, Bool.not_eq_false] at hharm
    obtain ⟨hjpeg, hput, hurl⟩ := hharm
    have hsame := (hatomic.failed (.inl hjpeg)).2
    rw [(h.upload_of_url _ _ hput hurl).1] at hsame
    exact hfresh.no_image (congrArg GroceryVO.image hsame).symm
  · intro hharm
    by_cases hstop : stages.putDataSucceeds = false ∨ stages.downloadURLSucceeds = false
    · refine ⟨fun _ => h.upload_of_stopped hfresh.no_object hstop, fun hne => ?_⟩
      rw [(h.upload_of_stopped hfresh.no_object hstop).1] at hne
      exact absurd rfl hne
    · obtain ⟨bytes, hjpeg⟩ := Option.isSome_iff_exists.mp (hharm.resolve_right hstop)
      rw [not_or, Bool.not_eq_false, Bool.not_eq_false] at hstop
      obtain ⟨-, hlookup, himage⟩ :=
        h.upload_of_url absoluteString bytes hstop.1 hstop.2
      rw [hjpeg, Option.getD_some]
      refine ⟨fun hfails => ?_, fun hne => ⟨_, bytes, himage hne, hjpeg, path, rfl, hlookup⟩⟩
      simp [UploadStages.SomeFails, hjpeg, hstop] at hfails

end Stages

/-! ## The two back ends -/

namespace CloudFireStore

/-- The image in the document of the grocery. -/
def storedImage (db : Firestore) (grocery : GroceryVO) : Option String :=
  match groceries.document (grocery.name.getD "") with
  | .error _ => none
  | .ok ref => (db.lookup ref).bind fun data => (readDocument data).image

theorem impl_storesImages : StoresImages impl storedImage where
  uploadImage := rfl
  storedImage := by
    intro db g url db' hadd
    obtain ⟨ref, href, rfl⟩ := addGrocery_eq_ok_iff.mp hadd
    have hdoc : groceries.document (g.name.getD "") = .ok ref := href
    simp only [storedImage, hdoc, Firestore.lookup_setData_self, Option.bind_some,
      readDocument_groceryDictionary, stored_image, Option.getD_some]

/-- The stages of an upload end as the calls of the app do that put the bytes, ask for the URL and
run the last closure with what came of it. -/
theorem upload_eq_run {s : ApiState} {r : ℕ} {g : GroceryVO} (hg : s.objects[r]? = some g)
    (absoluteString : String → String) (path : String) (storage : Storage)
    (stages : UploadStages) (imageData : List UInt8) :
    let done := impl.upload absoluteString path ⟨s.db, g, storage⟩ stages imageData
    let url := ((storage.putData path imageData stages.putDataSucceeds).downloadURL path
      stages.downloadURLSucceeds).map absoluteString
    let s' := run ApiState.step s [.uploadImage r, .putDataDone s.uploads.length,
      .downloadURLDone s.uploads.length url]
    s'.db = done.collection ∧ s'.objects[r]? = some done.chosenGrocery := by
  intro done url s'
  obtain ⟨hr, -⟩ := List.getElem?_eq_some_iff.mp hg
  simp only [s', ApiState.run_upload_eq hg]
  refine ⟨?_, List.getElem?_set_self hr⟩
  show (s.orElse (onDownloadURL s.db g url).2).db = (onDownloadURL s.db g url).2.toOption.getD s.db
  cases (onDownloadURL s.db g url).2 <;> rfl

end CloudFireStore

namespace RealtimeDatabase

/-- The image in the entry of the grocery. -/
def storedImage (db : Database) (grocery : GroceryVO) : Option String :=
  (readChild (db.getChild (groceries ++ Pieces.pieces '/' (grocery.name.getD "")))).image

theorem impl_storesImages : StoresImages impl storedImage where
  uploadImage := rfl
  storedImage := by
    intro db g url db' hadd
    obtain ⟨-, rfl⟩ := addGrocery_eq_ok_iff.mp hadd
    have himage : (readChild (valueTree (groceryDictionary { g with image := some url }))).image =
        some url := by
      rw [readChild_valueTree]
      rfl
    rw [← himage, storedImage]
    congr 2
    exact KeyTree.getChild_updateChild_self _ _ _

end RealtimeDatabase

/-- In both back ends, for every collection, chosen grocery, picture and outcome of the stages: an
upload under a fresh path is atomic exactly if the picture can be encoded, or `putData` or
`downloadURL` fails. -/
theorem uploads_atomic_iff (absoluteString : String → String) (path : String)
    (stages : UploadStages) :
    (∀ s : UploadState Firestore, s.Fresh absoluteString path →
      (Atomic CloudFireStore.storedImage absoluteString stages s
          (CloudFireStore.impl.onImageChosen absoluteString path s stages) ↔ stages.Harmless)) ∧
    ∀ s : UploadState Database, s.Fresh absoluteString path →
      (Atomic RealtimeDatabase.storedImage absoluteString stages s
          (RealtimeDatabase.impl.onImageChosen absoluteString path s stages) ↔ stages.Harmless) :=
  ⟨fun _ => CloudFireStore.impl_storesImages.atomic_iff,
    fun _ => RealtimeDatabase.impl_storesImages.atomic_iff⟩

/-- Milk with a picture. -/
def milkState : UploadState Firestore where
  collection := Firestore.setData ∅ (CloudFireStore.groceryRef "milk")
    (groceryDictionary { name := some "milk", image := some "https://storage/old" })
  chosenGrocery := ⟨some "milk", some "", none, some "https://storage/old"⟩
  storage := AList.insert "old" [255, 216] ∅

def absoluteURL (path : String) : String := "https://storage/" ++ path

theorem milkState_fresh : milkState.Fresh absoluteURL "new" where
  no_object := by decide
  no_image := by decide

theorem uploads_atomic_milk :
    Atomic CloudFireStore.storedImage absoluteURL ⟨some [255, 216, 1], true, false⟩ milkState
      (CloudFireStore.impl.onImageChosen absoluteURL "new" milkState
        ⟨some [255, 216, 1], true, false⟩) :=
  ((uploads_atomic_iff absoluteURL "new" ⟨some [255, 216, 1], true, false⟩).1 milkState
    milkState_fresh).mpr (.inl rfl)

/-- The picture cannot be encoded: an empty object is put, and the URL of milk leads to it. -/
theorem uploads_not_atomic : ¬ ∀ (stages : UploadStages) (s : UploadState Firestore),
    s.Fresh absoluteURL "new" → Atomic CloudFireStore.storedImage absoluteURL stages s
      (CloudFireStore.impl.onImageChosen absoluteURL "new" s stages) := by
  intro h
  have hsame := ((h ⟨none, true, true⟩ milkState milkState_fresh).failed (.inl rfl)).2
  revert hsame
  decide

end GroceryApp
