import GroceryApp.Network.SegmentNames
import GroceryApp.ViewModels.Sessions

/-!
# Several pictures for one grocery

Every chosen picture is an upload of its own, and the last closure of an upload writes its URL
whatever was written since the picture was chosen. While nothing else writes the document, its image
is the URL of the upload that ended last (`last_finished_wins`), in whatever order the pictures were
chosen.
-/

namespace GroceryApp

open CloudFireStore Runs

namespace ApiState

/-- The upload that a call ends with a write at the document, and its URL. -/
def finishes (ref : DocumentReference) (s : ApiState) : ApiCall → Option (ℕ × String)
  | .downloadURLDone upload (some url) =>
    match s.uploads[upload]? with
    | some ⟨row, .downloadURL⟩ =>
      if s.objects[row]?.any fun g => groceries.document (g.name.getD "") = .ok ref then
        some (upload, url)
      else none
    | _ => none
  | _ => none

/-- The call is no save and no delete of the document. -/
def Undisturbed (ref : DocumentReference) (s : ApiState) (c : ApiCall) : Prop :=
  ∀ g, c = .addGrocery g ∨ s.removes c = some g → groceries.document (g.name.getD "") ≠ .ok ref

variable {s : ApiState} {c : ApiCall} {ref : DocumentReference} {u : ℕ} {url id : String}

theorem finishes_eq_some_iff : s.finishes ref c = some (u, url) ↔
    c = .downloadURLDone u (some url) ∧ ∃ row g, s.uploads[u]? = some ⟨row, .downloadURL⟩ ∧
      s.objects[row]? = some g ∧ groceries.document (g.name.getD "") = .ok ref := by
  constructor
  · intro h
    unfold finishes at h
    split at h
    · split at h
      · rename_i row hu
        split_ifs at h with hg
        obtain ⟨rfl, rfl⟩ := Prod.mk.inj (Option.some.inj h)
        obtain ⟨g, hg, hdoc⟩ := (Option.any_eq_true _ _).mp hg
        exact ⟨rfl, row, g, hu, hg, by simpa using hdoc⟩
      · cases h
    · cases h
  · rintro ⟨rfl, row, g, hu, hg, hdoc⟩
    simp [finishes, hu, hg, hdoc]

/-- The end of an upload writes its object with the URL. -/
theorem db_downloadURLDone {row : ℕ} {g : GroceryVO} (hu : s.uploads[u]? = some ⟨row, .downloadURL⟩)
    (hg : s.objects[row]? = some g) (hdoc : groceries.document (g.name.getD "") = .ok ref)
    (url : String) : (s.step (.downloadURLDone u (some url))).db =
      s.db.setData ref (groceryDictionary { g with image := some url }) := by
  simp only [step, hu, hg, onDownloadURL_of_document hdoc, orElse]

/-- The end of an upload sets the image of the row. -/
theorem rowOf_step_of_finishes (h : s.finishes (groceryRef id) c = some (u, url)) :
    ∃ row, rowOf (s.step c).db id = some row ∧ row.image = some url := by
  obtain ⟨rfl, row, g, hu, hg, hdoc⟩ := finishes_eq_some_iff.mp h
  refine ⟨stored { g with image := some url }, ?_, rfl⟩
  rw [db_downloadURLDone hu hg hdoc, rowOf_setData, if_pos rfl]

/-- Any other call but a save or a delete leaves the row. -/
theorem rowOf_step_of_undisturbed (h : s.finishes (groceryRef id) c = none)
    (hc : s.Undisturbed (groceryRef id) c) : rowOf (s.step c).db id = rowOf s.db id := by
  unfold rowOf
  rcases step_db_cases s c with hdb | ⟨g, hwrites, hadd⟩ | ⟨g, hremoves, hdel⟩
  · rw [hdb]
  · obtain ⟨ref, hdoc, hdb⟩ := addGrocery_eq_ok_iff.mp hadd
    rw [hdb, Firestore.lookup_setData_of_ne]
    rintro rfl
    rcases writes_eq_some hwrites with rfl | ⟨u, url, row, g₀, rfl, hu, hg₀, rfl⟩
    · exact hc g (.inl rfl) hdoc
    · have hends : s.finishes (groceryRef id) (.downloadURLDone u (some url)) = some (u, url) :=
        finishes_eq_some_iff.mpr ⟨rfl, row, g₀, hu, hg₀, hdoc⟩
      cases h.symm.trans hends
  · obtain ⟨ref, hdoc, hdb⟩ := deleteGrocery_eq_ok_iff.mp hdel
    rw [hdb, Firestore.lookup_delete_of_ne]
    rintro rfl
    exact hc g (.inr hremoves) hdoc

end ApiState

namespace World

variable {Client : Type} [DecidableEq Client]

/-- The upload of the grocery at `id` that an event ends, and its URL. -/
def finishes (id : String) (w : World Client) (e : ClientEvent Client) : Option (ℕ × String) :=
  (w.call e).bind (w.api.finishes (groceryRef id))

/-- The upload for the grocery at `id` that an event of the client starts. -/
def chooses (c : Client) (id : String) (w : World Client) : ClientEvent Client → Option ℕ
  | .imageChosen c' =>
    if c' = c ∧ ((w.viewModel c).chosenGrocery.bind (w.api.objects[·]?)).any
        fun g => groceries.document (g.name.getD "") = .ok (groceryRef id) then
      some w.api.uploads.length
    else none
  | _ => none

/-- The event is no save and no delete of the grocery at `id`. -/
def Undisturbed (id : String) (w : World Client) (e : ClientEvent Client) : Prop :=
  ∀ c, w.call e = some c → w.api.Undisturbed (groceryRef id) c

variable {w : World Client} {e : ClientEvent Client} {id : String} {row : GroceryVO}

omit [DecidableEq Client] in
theorem undisturbed_of_ne (hsave : ∀ c, e ≠ .tapAddGrocery c)
    (hdelete : ∀ c r, e ≠ .tapDelete c r) : w.Undisturbed id e := by
  rintro c hc g (rfl | hremoves)
  · cases e with
    | tapAddGrocery c => exact absurd rfl (hsave c)
    | _ => simp [call] at hc
  · cases c with
    | deleteGrocery r =>
      cases e with
      | tapDelete c r => exact absurd rfl (hdelete c r)
      | _ => simp [call] at hc
    | _ => cases hremoves

/-- A step sets the image to the URL of the upload it ends, or leaves the row. -/
theorem rowOf_step (he : w.Undisturbed id e) (hrow : rowOf w.db id = some row) :
    ∃ row', rowOf (w.step e).db id = some row' ∧
      row'.image = ((w.finishes id e).map Prod.snd).or row.image := by
  unfold finishes
  cases hcall : w.call e with
  | none =>
    refine ⟨row, ?_, rfl⟩
    rw [db, step_api_of_no_call hcall]
    exact hrow
  | some c =>
    rw [db, step_api_of_call hcall, Option.bind_some]
    cases hfinishes : w.api.finishes (groceryRef id) c with
    | none =>
      refine ⟨row, ?_, rfl⟩
      rw [ApiState.rowOf_step_of_undisturbed hfinishes (he c hcall)]
      exact hrow
    | some p =>
      obtain ⟨row', hrow', himage⟩ := ApiState.rowOf_step_of_finishes hfinishes
      exact ⟨row', hrow', himage⟩

/-- After a run the image is the URL of the upload that ended last, or what it was. -/
theorem rowOf_run {es : List (ClientEvent Client)} (hes : Along step (Undisturbed id) w es)
    (hrow : rowOf w.db id = some row) : ∃ row', rowOf (run step w es).db id = some row' ∧
      row'.image = ((calls step (finishes id) w es).getLast?.map Prod.snd).or row.image := by
  induction es generalizing w row with
  | nil => exact ⟨row, hrow, rfl⟩
  | cons e es ih =>
    obtain ⟨row₁, hrow₁, himage₁⟩ := rowOf_step hes.1 hrow
    obtain ⟨row', hrow', himage⟩ := ih hes.2 hrow₁
    refine ⟨row', hrow', ?_⟩
    have hlast : (w.finishes id e).toList.getLast? = w.finishes id e := by
      cases w.finishes id e <;> rfl
    rw [himage, himage₁, calls, List.getLast?_append, hlast, Option.map_or, Option.or_assoc]

/-- For every grocery listed in a reachable state, every run in which it is neither saved nor
deleted, any number of pictures chosen for it and every order of their callbacks: its image is the
URL of the upload whose last callback ran last, and what it was while none has. -/
theorem last_finished_wins (es₀ es : List (ClientEvent Client)) (id : String) (row : GroceryVO) :
    let w := run step ({} : World Client) es₀
    rowOf w.db id = some row → Along step (Undisturbed id) w es →
    ∃ row', rowOf (run step w es).db id = some row' ∧
      (∀ u url, (calls step (finishes id) w es).getLast? = some (u, url) →
        row'.image = some url) ∧
      (calls step (finishes id) w es = [] → row'.image = row.image) := by
  intro w hrow hes
  obtain ⟨row', hrow', himage⟩ := rowOf_run hes hrow
  refine ⟨row', hrow', fun u url hlast => ?_, fun hnone => ?_⟩
  · rw [himage, hlast]
    rfl
  · rw [himage, hnone]
    rfl

/-- The picture chosen last wins: when a client has chosen pictures for a listed grocery that
nothing else writes, and all their uploads have ended, the image is the URL of the one chosen
last. -/
def LastChosenWins (Client : Type) [DecidableEq Client] : Prop :=
  ∀ (es₀ es : List (ClientEvent Client)) (c : Client) (id : String),
    let w := run step ({} : World Client) es₀
    (rowOf w.db id).isSome → Along step (Undisturbed id) w es →
    ((calls step (finishes id) w es).map Prod.fst).Perm (calls step (chooses c id) w es) →
    ∀ u url, (calls step (chooses c id) w es).getLast? = some u →
      (u, url) ∈ calls step (finishes id) w es →
      (rowOf (run step w es).db id).bind (·.image) = some url

/-- Milk is saved and listed. -/
def milkListed : List (ClientEvent ℕ) :=
  [.editForm 0 "milk" "fresh" "2", .tapAddGrocery 0, .snapshot 0]

/-- Two pictures are chosen for milk, and the upload of the second ends first. -/
def twoPictures : List (ClientEvent ℕ) :=
  [.tapUpload 0 0, .imageChosen 0, .tapUpload 0 0, .imageChosen 0, .putDataDone 0, .putDataDone 1,
    .downloadURLDone 1 (some "https://storage/second.jpg"),
    .downloadURLDone 0 (some "https://storage/first.jpg")]

theorem undisturbed_twoPictures (w : World ℕ) (id : String) :
    Along step (Undisturbed id) w twoPictures := by
  refine along_of_forall fun e he w => undisturbed_of_ne ?_ ?_
  · rintro c rfl
    simp [twoPictures] at he
  · rintro c r rfl
    simp [twoPictures] at he

theorem last_finished_wins_twoPictures :
    ∃ row', rowOf (run step (run step {} milkListed) twoPictures).db "milk" = some row' ∧
      row'.image = some "https://storage/first.jpg" := by
  obtain ⟨row', hrow', hlast, -⟩ := last_finished_wins milkListed twoPictures "milk"
    ⟨some "milk", some "fresh", some 2, some ""⟩ (by decide) (undisturbed_twoPictures _ _)
  exact ⟨row', hrow', hlast 0 _ (by decide)⟩

/-- The picture chosen first ends last and stays. -/
theorem lastChosenWins_fails : ¬ LastChosenWins ℕ := by
  intro h
  have hchosen : calls step (chooses 0 "milk") (run step {} milkListed) twoPictures = [0, 1] := by
    decide
  have hfinished : calls step (finishes "milk") (run step {} milkListed) twoPictures =
      [(1, "https://storage/second.jpg"), (0, "https://storage/first.jpg")] := by decide
  have himage := h milkListed twoPictures 0 "milk" (by decide) (undisturbed_twoPictures _ _)
    (by rw [hchosen, hfinished]; decide) 1 "https://storage/second.jpg" (by rw [hchosen]; rfl)
    (by rw [hfinished]; exact List.mem_cons_self)
  revert himage
  decide

end World

end GroceryApp
