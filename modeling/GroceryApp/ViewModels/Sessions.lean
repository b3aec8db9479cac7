import GroceryApp.ViewModels.GroceryViewModel

/-!
# Sessions of a client with one row

A session starts at a row of an up-to-date list: the pencil button fills the form from the row,
the upload button remembers the row, and a later save or upload writes back. The lemmas say which
object a session starts from (`tapRow_of_listed`) and what its write does to the back end
(`api_saveForm`, `api_uploadImage`).
-/

namespace GroceryApp

open CloudFireStore Runs

namespace World

variable {Client : Type} [DecidableEq Client]

/-- The row of a client's list that shows a name. -/
def findRow (w : World Client) (c : Client) (name : String) : Option ℕ :=
  (w.viewModel c).groceries.find? fun r => w.api.objects[r]?.any fun g => g.name = some name

/-- A client's list is brought up to date and one of its rows is tapped. -/
def tapRow (w : World Client) (c : Client) (name : String) (tap : ℕ → ClientEvent Client) :
    World Client :=
  match (w.step (.snapshot c)).findRow c name with
  | none => w.step (.snapshot c)
  | some row => (w.step (.snapshot c)).step (tap row)

/-- The form texts are changed and saved. -/
def saveForm (w : World Client) (c : Client) (name description amount : String) : World Client :=
  run step w [.editForm c name description amount, .tapAddGrocery c]

/-- A picture is chosen and its upload runs to the end. -/
def uploadImage (w : World Client) (c : Client) (url : Option String) : World Client :=
  run step w [.imageChosen c, .putDataDone w.api.uploads.length,
    .downloadURLDone w.api.uploads.length url]

variable {w : World Client} {c : Client} {name : String} {vo : GroceryVO}

/-! ## Tapping a row -/

theorem objects_snapshot : (w.step (.snapshot c)).api.objects =
    w.api.objects ++ getAllGroceries w.db := by
  change w.api.objects ++ getAllGroceries (w.api.stateAt w.api.version) = _
  rw [ApiState.stateAt_version]

theorem groceries_snapshot : ((w.step (.snapshot c)).viewModel c).groceries =
    List.range' w.api.objects.length (getAllGroceries w.db).length := by
  change (Function.update w.viewModel c { w.viewModel c with
    groceries := List.range' _ (getAllGroceries (w.api.stateAt w.api.version)).length } c).groceries
      = _
  rw [Function.update_self, ApiState.stateAt_version]

/-- In an up-to-date list the row of a listed name shows a fresh object with what is listed. -/
theorem findRow_snapshot (hw : Written w.db) (hvo : vo ∈ getAllGroceries w.db)
    (hname : vo.name = some name) : ∃ r, w.api.objects.length ≤ r ∧
      (w.step (.snapshot c)).findRow c name = some r ∧
      (w.step (.snapshot c)).api.objects[r]? = some vo := by
  have hobj : ∀ i, (w.step (.snapshot c)).api.objects[w.api.objects.length + i]? =
      (getAllGroceries w.db)[i]? := by
    intro i
    rw [objects_snapshot, List.getElem?_append_right (Nat.le_add_right _ _), Nat.add_sub_cancel_left]
  obtain ⟨i, hi, hget⟩ := List.getElem_of_mem hvo
  have hfound : ((w.step (.snapshot c)).findRow c name).isSome := by
    rw [findRow, groceries_snapshot, List.find?_isSome]
    refine ⟨w.api.objects.length + i, by rw [List.mem_range'_1]; omega, ?_⟩
    rw [hobj, List.getElem?_eq_getElem hi, hget]
    simp [hname]
  obtain ⟨r, hr⟩ := Option.isSome_iff_exists.mp hfound
  have hmem := List.mem_of_find?_eq_some hr
  have hpred := List.find?_some hr
  rw [groceries_snapshot, List.mem_range'_1] at hmem
  obtain ⟨j, rfl⟩ := Nat.exists_eq_add_of_le hmem.1
  refine ⟨_, hmem.1, hr, ?_⟩
  have hj : j < (getAllGroceries w.db).length := by omega
  rw [hobj, List.getElem?_eq_getElem hj] at hpred ⊢
  have hname' : (getAllGroceries w.db)[j].name = some name := by simpa using hpred
  rw [hw.eq_of_name_eq (List.getElem_mem hj) hvo (hname'.trans hname.symm)]

theorem tapRow_of_listed (hw : Written w.db) (hvo : vo ∈ getAllGroceries w.db)
    (hname : vo.name = some name) (tap : ℕ → ClientEvent Client) :
    ∃ r, (w.step (.snapshot c)).api.objects[r]? = some vo ∧
      w.tapRow c name tap = run step w [.snapshot c, tap r] := by
  obtain ⟨r, -, hfound, hobj⟩ := findRow_snapshot (c := c) hw hvo hname
  exact ⟨r, hobj, by simp only [tapRow, hfound, run_cons, run_nil]⟩

/-- Tapping the pencil of a listed row fills the form from what is listed. -/
theorem tapPencil_of_listed (hw : Written w.db) (hvo : vo ∈ getAllGroceries w.db)
    (hname : vo.name = some name) : (w.tapRow c name (.tapPencil c)).db = w.db ∧
      (w.tapRow c name (.tapPencil c)).viewModel c =
        ((w.step (.snapshot c)).viewModel c).onTapPencil vo := by
  obtain ⟨r, hobj, htap⟩ := tapRow_of_listed (c := c) hw hvo hname (.tapPencil c)
  rw [htap]
  exact ⟨rfl, viewModel_tapPencil hobj⟩

/-- Tapping the upload button of a listed row chooses an object with what is listed. -/
theorem tapUpload_of_listed (hw : Written w.db) (hvo : vo ∈ getAllGroceries w.db)
    (hname : vo.name = some name) : (w.tapRow c name (.tapUpload c)).db = w.db ∧
      ∃ r, ((w.tapRow c name (.tapUpload c)).viewModel c).chosenGrocery = some r ∧
        (w.tapRow c name (.tapUpload c)).api.objects[r]? = some vo := by
  obtain ⟨r, hobj, htap⟩ := tapRow_of_listed (c := c) hw hvo hname (.tapUpload c)
  rw [htap]
  refine ⟨rfl, r, ?_, hobj⟩
  simp [step, update, GroceryViewModel.onGroceryItemChosen]

/-- Tapping the delete button of a listed row removes the document its name leads to. -/
theorem tapDelete_of_listed {ref : DocumentReference} (hw : Written w.db)
    (hvo : vo ∈ getAllGroceries w.db) (hname : vo.name = some name)
    (hdoc : groceries.document name = .ok ref) :
    (w.tapRow c name (.tapDelete c)).db = w.db.delete ref := by
  obtain ⟨r, hobj, htap⟩ := tapRow_of_listed (c := c) hw hvo hname (.tapDelete c)
  have hdel : deleteGrocery w.db vo = .ok (w.db.delete ref) :=
    deleteGrocery_eq_ok_iff.mpr ⟨ref, by rw [hname]; exact hdoc, rfl⟩
  rw [htap, run_cons, run_cons, run_nil, db, step_api_of_call rfl,
    ApiState.step_deleteGrocery hobj]
  show (ApiState.orElse _ (deleteGrocery w.db vo)).db = _
  rw [hdel]
  rfl

/-! ## What the writes do -/

/-- A save acts on the back end as `addGrocery` of the typed texts. -/
theorem api_saveForm (description amount : String) :
    (w.saveForm c name description amount).api = w.api.step (.addGrocery
      { name := some name, description := some description,
        amount := some ((intOfString amount).getD 0) }) := by
  unfold saveForm
  rw [run_api]
  simp [calls, call, step, update, GroceryViewModel.onTapAddGrocery]

theorem db_saveForm {ref : DocumentReference} (h : groceries.document name = .ok ref)
    (description amount : String) :
    (w.saveForm c name description amount).db = w.db.setData ref (groceryDictionary
      { name := some name, description := some description,
        amount := some ((intOfString amount).getD 0) }) := by
  rw [db, api_saveForm]
  exact ApiState.db_addGrocery h

theorem api_uploadImage {row : ℕ} (h : (w.viewModel c).chosenGrocery = some row)
    (url : Option String) : (w.uploadImage c url).api =
      run ApiState.step w.api [.uploadImage row, .putDataDone w.api.uploads.length,
        .downloadURLDone w.api.uploads.length url] := by
  unfold uploadImage
  rw [run_api]
  simp [calls, call, GroceryViewModel.onImageChosen, h]

/-- An upload writes the object of the chosen row as it is, with the image. -/
theorem db_uploadImage {row : ℕ} {g : GroceryVO} {ref : DocumentReference}
    (hrow : (w.viewModel c).chosenGrocery = some row) (hg : w.api.objects[row]? = some g)
    (h : groceries.document (g.name.getD "") = .ok ref) (url : String) :
    (w.uploadImage c (some url)).db =
      w.db.setData ref (groceryDictionary { g with image := some url }) := by
  rw [db, api_uploadImage hrow, ApiState.run_upload hg h]

end World

end GroceryApp
