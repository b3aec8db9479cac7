import GroceryApp.Network.SegmentNames
import GroceryApp.ViewModels.Sessions

/-!
# Who changes images

Users save, edit, upload and delete one after the other, under segment names. A completed upload
writes the row it was started from with the new image. A save writes a grocery made of the form
texts, which has no image, so a save under a listed name erases the image it had. The images are
those of the uploads along exactly the runs in which this erases nothing
(`imagesFromUploads_iff`).
-/

namespace GroceryApp

open CloudFireStore Runs

abbrev SegmentName := {name : String // IsSegment name}

/-- What a user carries out to the end. An edit, an upload and a delete start at a row. -/
inductive Operation (Client : Type) where
  | addNew (client : Client) (name : SegmentName) (description amount : String)
  | pencilEdit (client : Client) (row name : SegmentName) (description amount : String)
  | uploadImage (client : Client) (row : SegmentName) (url : Option String)
  | deleteGrocery (client : Client) (row : SegmentName)

namespace World

variable {Client : Type} [DecidableEq Client]

/-- The operation from its first tap to its last callback. There is no row to tap for a name that
is not listed. -/
def perform (w : World Client) : Operation Client → World Client
  | .addNew c name description amount => w.saveForm c name description amount
  | .pencilEdit c row name description amount =>
    if Listed w.db row then
      (w.tapRow c row (.tapPencil c)).saveForm c name description amount
    else w
  | .uploadImage c row url =>
    if Listed w.db row then (w.tapRow c row (.tapUpload c)).uploadImage c url else w
  | .deleteGrocery c row => if Listed w.db row then w.tapRow c row (.tapDelete c) else w

/-- The name an operation saves the form under. -/
def savedName (w : World Client) : Operation Client → Option SegmentName
  | .addNew _ name _ _ => some name
  | .pencilEdit _ row name _ _ => if Listed w.db row then some name else none
  | _ => none

/-- The row and the URL of an upload that completes. -/
def completedUpload (w : World Client) : Operation Client → Option (SegmentName × String)
  | .uploadImage _ row (some url) => if Listed w.db row then some (row, url) else none
  | _ => none

variable {w : World Client} {op : Operation Client}

theorem db_pencilEdit (hw : Keyed w.db) {row : SegmentName} (hl : Listed w.db row) (c : Client)
    (name : SegmentName) (description amount : String) :
    (w.perform (.pencilEdit c row name description amount)).db =
      w.db.setData (groceryRef name) (groceryDictionary
        { name := some name.1, description := some description,
          amount := some ((intOfString amount).getD 0) }) := by
  have ⟨vo, hvo, hname⟩ := hl
  obtain ⟨hdb, -⟩ := tapPencil_of_listed (c := c) hw.written hvo hname
  simp only [perform, if_pos hl]
  rw [db_saveForm (document_of_isSegment name.2), hdb]

/-- An operation saves form texts under its name, or completes an upload on a listed row, or does
neither and at most deletes a document. -/
theorem perform_cases (hw : Keyed w.db) (op : Operation Client) :
    (∃ name description amount, w.savedName op = some name ∧ w.completedUpload op = none ∧
      (w.perform op).db = w.db.setData (groceryRef name) (groceryDictionary
        { name := some name.1, description := some description,
          amount := some ((intOfString amount).getD 0) })) ∨
    (∃ name url row, w.savedName op = none ∧ w.completedUpload op = some (name, url) ∧
      rowOf w.db name = some row ∧ (w.perform op).db = w.db.setData (groceryRef name)
        (groceryDictionary { row with image := some url })) ∨
    (w.savedName op = none ∧ w.completedUpload op = none ∧ ((w.perform op).db = w.db ∨
      ∃ name : SegmentName, (w.perform op).db = w.db.delete (groceryRef name))) := by
  have hdoc : ∀ name : SegmentName, groceries.document name = .ok (groceryRef name) :=
    fun name => document_of_isSegment name.2
  rcases op with ⟨c, name, description, amount⟩ | ⟨c, row, name, description, amount⟩ |
    ⟨c, row, url⟩ | ⟨c, row⟩
  · exact .inl ⟨name, description, amount, rfl, rfl, db_saveForm (hdoc name) _ _⟩
  · by_cases hl : Listed w.db row
    · exact .inl ⟨name, description, amount, by simp [savedName, hl], rfl,
        db_pencilEdit hw hl c name description amount⟩
    · simp [perform, savedName, completedUpload, hl]
  · by_cases hl : Listed w.db row
    · have ⟨vo, hvo, hname⟩ := hl
      obtain ⟨hdb, r, hr, hobj⟩ := tapUpload_of_listed (c := c) hw.written hvo hname
      simp only [perform, if_pos hl]
      rcases url with _ | url
      · refine .inr (.inr ⟨rfl, rfl, .inl ?_⟩)
        rw [db, api_uploadImage hr, ApiState.run_upload_failed, ← hdb]
      · refine .inr (.inl ⟨row, url, vo, rfl, by simp [completedUpload, hl],
          hw.rowOf_eq_some_iff.mpr ⟨hvo, hname⟩, ?_⟩)
        rw [db_uploadImage hr hobj (by rw [hname]; exact hdoc row), hdb]
    · cases url <;> simp [perform, savedName, completedUpload, hl]
  · by_cases hl : Listed w.db row
    · have ⟨vo, hvo, hname⟩ := hl
      refine .inr (.inr ⟨rfl, rfl, .inr ⟨row, ?_⟩⟩)
      simp only [perform, if_pos hl]
      exact tapDelete_of_listed hw.written hvo hname (hdoc row)
    · simp [perform, savedName, completedUpload, hl]

end World

/-- A run of operations, with the URL the last completed upload wrote for each grocery since it was
created. -/
structure History (Client : Type) where
  world : World Client := {}
  lastUpload : String → Option String := fun _ => none

namespace History

variable {Client : Type} [DecidableEq Client]

def step (h : History Client) (op : Operation Client) : History Client where
  world := h.world.perform op
  lastUpload := fun name =>
    if (h.world.savedName op).any (·.1 = name) ∧ ¬ Listed h.world.db name then none
    else match h.world.completedUpload op with
      | some (row, url) => if row.1 = name then some url else h.lastUpload name
      | none => h.lastUpload name

/-- Every listed image is the URL of the last completed upload, or empty if there was none. -/
def ImagesFromUploads (h : History Client) : Prop :=
  ∀ row ∈ getAllGroceries h.world.db, ∀ name, row.name = some name →
    row.image = some ((h.lastUpload name).getD "")

/-- What an operation should do: the images after it are those of the uploads, a pencil edit
that keeps the name keeps the image, and one that changes nothing keeps the document. -/
structure OnlyUploadsChangeImages (h : History Client) (op : Operation Client) : Prop where
  images : (h.step op).ImagesFromUploads
  pencilEdit : ∀ (c : Client) (name : SegmentName) (description amount : String) (row : GroceryVO),
    op = .pencilEdit c name name description amount → rowOf h.world.db name = some row →
    (rowOf (h.step op).world.db name).map (·.image) = some row.image
  unchanged : ∀ (c : Client) (name : SegmentName) (row : GroceryVO),
    rowOf h.world.db name = some row → op = .pencilEdit c name name
      (row.description.getD "") (stringOfInt (row.amount.getD 0)) →
    (h.step op).world.db.lookup (groceryRef name) = h.world.db.lookup (groceryRef name)

/-- The operation saves under no name that is listed with an image. -/
def SavesNoImage (h : History Client) (op : Operation Client) : Prop :=
  ∀ name, h.world.savedName op = some name → ∀ row ∈ getAllGroceries h.world.db,
    row.name = some name.1 → row.image = some ""

/-! ## The invariant of a run -/

/-- The collection is a map from segment names to rows with an amount, and the images are those of
the uploads. -/
structure Invariant (h : History Client) : Prop where
  keyed : Keyed h.world.db
  amount : ∀ name row, rowOf h.world.db name = some row → row.amount.isSome
  images : h.ImagesFromUploads

variable {h : History Client} {op : Operation Client}

omit [DecidableEq Client] in
theorem invariant_init : Invariant ({} : History Client) where
  keyed := keyed_empty
  amount := by
    intro name row hrow
    cases hrow
  images := by
    intro row hrow
    obtain ⟨name, hname⟩ := mem_getAllGroceries_iff_rowOf.mp hrow
    cases hname

omit [DecidableEq Client] in
/-- The listed rows are those of the documents. -/
theorem imagesFromUploads_iff_rowOf (hk : Keyed h.world.db) :
    h.ImagesFromUploads ↔ ∀ name row, rowOf h.world.db name = some row →
      row.image = some ((h.lastUpload name).getD "") := by
  constructor
  · intro himages name row hrow
    obtain ⟨hmem, hname⟩ := hk.rowOf_eq_some_iff.mp hrow
    exact himages row hmem name hname
  · intro hrows row hmem name hname
    exact hrows name row (hk.rowOf_eq_some_iff.mpr ⟨hmem, hname⟩)

omit [DecidableEq Client] in
theorem Invariant.image_of_rowOf (hi : Invariant h) {name : String} {row : GroceryVO}
    (hrow : rowOf h.world.db name = some row) : row.image = some ((h.lastUpload name).getD "") :=
  (imagesFromUploads_iff_rowOf hi.keyed).mp hi.images name row hrow

theorem lastUpload_save {name : SegmentName} (hsaved : h.world.savedName op = some name)
    (hupload : h.world.completedUpload op = none) (name' : String) :
    (h.step op).lastUpload name' =
      if name.1 = name' ∧ ¬ Listed h.world.db name' then none else h.lastUpload name' := by
  simp [step, hsaved, hupload]

theorem lastUpload_upload {name : SegmentName} {url : String}
    (hsaved : h.world.savedName op = none)
    (hupload : h.world.completedUpload op = some (name, url)) (name' : String) :
    (h.step op).lastUpload name' = if name.1 = name' then some url else h.lastUpload name' := by
  simp [step, hsaved, hupload]

theorem lastUpload_other (hsaved : h.world.savedName op = none)
    (hupload : h.world.completedUpload op = none) : (h.step op).lastUpload = h.lastUpload := by
  simp [step, hsaved, hupload]

/-- Apart from the images an operation keeps the invariant. -/
theorem Invariant.step_keyed (hi : Invariant h) (op : Operation Client) :
    Keyed (h.step op).world.db ∧
      ∀ name row, rowOf (h.step op).world.db name = some row → row.amount.isSome := by
  show Keyed (h.world.perform op).db ∧ ∀ name row, rowOf (h.world.perform op).db name = some row →
    row.amount.isSome
  rcases World.perform_cases hi.keyed op with ⟨name, description, amount, -, -, hdb⟩ |
    ⟨name, url, row, -, -, hrow, hdb⟩ | ⟨-, -, hdb | ⟨name, hdb⟩⟩
  · rw [hdb]
    refine ⟨hi.keyed.setData rfl name.2, fun name' row' hrow' => ?_⟩
    rw [rowOf_setData] at hrow'
    split_ifs at hrow'
    · rw [← Option.some.inj hrow', stored_amount, Option.isSome_some]
    · exact hi.amount name' row' hrow'
  · rw [hdb]
    have hname := (hi.keyed.rowOf_eq_some_iff.mp hrow).2
    refine ⟨hi.keyed.setData hname name.2, fun name' row' hrow' => ?_⟩
    rw [rowOf_setData] at hrow'
    split_ifs at hrow'
    · rw [← Option.some.inj hrow', stored_amount]
      exact hi.amount name row hrow
    · exact hi.amount name' row' hrow'
  · rw [hdb]
    exact ⟨hi.keyed, hi.amount⟩
  · rw [hdb]
    refine ⟨hi.keyed.delete _, fun name' row' hrow' => ?_⟩
    rw [rowOf_delete] at hrow'
    split_ifs at hrow'
    exact hi.amount name' row' hrow'

/-- The images after a save are those of the uploads exactly if the name was not listed with an
image. -/
theorem Invariant.images_save_iff (hi : Invariant h) {name : SegmentName} {g : GroceryVO}
    (hsaved : h.world.savedName op = some name) (hupload : h.world.completedUpload op = none)
    (himage : g.image = none)
    (hdb : (h.world.perform op).db =
      h.world.db.setData (groceryRef name) (groceryDictionary g)) :
    (∀ name row, rowOf (h.world.perform op).db name = some row →
      row.image = some (((h.step op).lastUpload name).getD "")) ↔ h.SavesNoImage op := by
  have hstored : (stored g).image = some "" := by rw [stored_image, himage]; rfl
  simp only [hdb, rowOf_setData, lastUpload_save hsaved hupload]
  constructor
  · intro himages name' hname' row hmem hrowname
    obtain rfl : name = name' := Option.some.inj (hsaved.symm.trans hname')
    have himage' := himages name _ (if_pos rfl)
    have hrow := hi.keyed.rowOf_eq_some_iff.mpr ⟨hmem, hrowname⟩
    rw [if_neg fun hn => hn.2 ⟨row, hmem, hrowname⟩, ← hi.image_of_rowOf hrow] at himage'
    exact himage'.symm.trans hstored
  · intro hsaves name' row hrow
    split_ifs at hrow with he
    · rw [← Option.some.inj hrow, hstored]
      split_ifs with hc
      · rfl
      · obtain ⟨row', hmem, hrowname⟩ : Listed h.world.db name := by
          by_contra hn
          exact hc ⟨he.symm, he ▸ hn⟩
        have himage' := hsaves name hsaved row' hmem hrowname
        rw [hi.image_of_rowOf (hi.keyed.rowOf_eq_some_iff.mpr ⟨hmem, hrowname⟩)] at himage'
        rw [he, himage']
    · rw [if_neg fun hn => he hn.1.symm]
      exact hi.image_of_rowOf hrow

/-- The images after an operation are those of the uploads exactly if it saves under no name that
is listed with an image. -/
theorem Invariant.images_step_iff (hi : Invariant h) (op : Operation Client) :
    (h.step op).ImagesFromUploads ↔ h.SavesNoImage op := by
  refine (imagesFromUploads_iff_rowOf (hi.step_keyed op).1).trans ?_
  show (∀ name row, rowOf (h.world.perform op).db name = some row → _) ↔ _
  rcases World.perform_cases hi.keyed op with ⟨name, description, amount, hsaved, hupload, hdb⟩ |
    ⟨name, url, row, hsaved, hupload, hrow, hdb⟩ | ⟨hsaved, hupload, hdb⟩
  · exact hi.images_save_iff hsaved hupload rfl hdb
  · have hsaves : h.SavesNoImage op := by simp [SavesNoImage, hsaved]
    refine iff_of_true (fun name' row' hrow' => ?_) hsaves
    rw [hdb, rowOf_setData] at hrow'
    rw [lastUpload_upload hsaved hupload]
    split_ifs at hrow' ⊢ with he he' he'
    · rw [← Option.some.inj hrow']
      rfl
    · exact absurd he.symm he'
    · exact absurd he'.symm he
    · exact hi.image_of_rowOf hrow'
  · have hsaves : h.SavesNoImage op := by simp [SavesNoImage, hsaved]
    refine iff_of_true (fun name' row' hrow' => ?_) hsaves
    rw [lastUpload_other hsaved hupload]
    rcases hdb with hdb | ⟨name, hdb⟩
    · exact hi.image_of_rowOf (hdb ▸ hrow')
    · rw [hdb, rowOf_delete] at hrow'
      split_ifs at hrow'
      exact hi.image_of_rowOf hrow'

theorem Invariant.step (hi : Invariant h) (himages : (h.step op).ImagesFromUploads) :
    Invariant (h.step op) :=
  ⟨(hi.step_keyed op).1, (hi.step_keyed op).2, himages⟩

theorem Invariant.onlyUploadsChangeImages_iff (hi : Invariant h) (op : Operation Client) :
    h.OnlyUploadsChangeImages op ↔ h.SavesNoImage op := by
  refine ⟨fun hop => (hi.images_step_iff op).mp hop.images, fun hsaves => ?_⟩
  refine ⟨(hi.images_step_iff op).mpr hsaves, ?_, ?_⟩
  · rintro c name description amount row rfl hrow
    obtain ⟨hmem, hname⟩ := hi.keyed.rowOf_eq_some_iff.mp hrow
    have hl : Listed h.world.db name := ⟨row, hmem, hname⟩
    have himage : row.image = some "" := hsaves name (by simp [World.savedName, hl]) row hmem hname
    show (rowOf (h.world.perform _).db name).map _ = _
    rw [World.db_pencilEdit hi.keyed hl, rowOf_setData, if_pos rfl, himage]
    rfl
  · rintro c name row hrow rfl
    obtain ⟨hmem, hname⟩ := hi.keyed.rowOf_eq_some_iff.mp hrow
    have hl : Listed h.world.db name := ⟨row, hmem, hname⟩
    have himage : row.image = some "" := hsaves name (by simp [World.savedName, hl]) row hmem hname
    obtain ⟨n, hamount⟩ := Option.isSome_iff_exists.mp (hi.amount name row hrow)
    obtain ⟨g, rfl, -, -, hlookup⟩ := hi.keyed.exists_of_rowOf hrow
    show (h.world.perform _).db.lookup _ = _
    rw [World.db_pencilEdit hi.keyed hl, Firestore.lookup_setData_self, hlookup]
    congr 1
    rw [← groceryDictionary_stored g, ← groceryDictionary_stored]
    congr 1
    rw [stored_name, Option.some.injEq] at hname
    rw [stored_image, Option.some.injEq] at himage
    rw [stored_amount] at hamount
    simp [stored, hname, himage, hamount]

/-- The images are those of the uploads throughout a run, and edits leave alone what they do not
change, exactly if no save of the run is under a name that is listed with an image. -/
theorem imagesFromUploads_iff (ops : List (Operation Client)) :
    Along step OnlyUploadsChangeImages {} ops ↔ Along step SavesNoImage {} ops :=
  along_congr (fun _ _ hi hop => hi.step hop.images)
    (fun _ op hi => hi.onlyUploadsChangeImages_iff op) invariant_init

def milk : SegmentName := ⟨"milk", by decide⟩

/-- The picture of a grocery is uploaded, then its amount is edited: the edit erases the image. -/
theorem imagesFromUploads_fails :
    ¬ ∀ ops : List (Operation ℕ), Along step OnlyUploadsChangeImages {} ops := by
  intro h
  obtain ⟨-, -, hedit, -⟩ := h [.addNew 0 milk "fresh" "2",
    .uploadImage 0 milk (some "https://storage/milk.jpg"), .pencilEdit 0 milk milk "fresh" "3"]
  have himage := hedit.images ⟨some "milk", some "fresh", some 3, some ""⟩ (by decide) "milk" rfl
  revert himage
  decide

end History

end GroceryApp
