import GroceryApp.Network.ListedRows

/-!
# `GroceryViewModel` and the clients of the collection

A view model keeps the rows of the last snapshot, the three form texts and the grocery chosen for
an image. The edit form and the add form share the three texts and the save handler: a save builds
a fresh `GroceryVO` from the texts, so it knows nothing of the row the form was opened on.

`World` is any number of running apps on one collection. Their events call the back end one call
at a time (`World.run_api`), so what holds after every sequence of calls holds in every reachable
world.
-/

namespace GroceryApp

open CloudFireStore Runs

/-- Rows and the chosen grocery are objects of `ApiState.objects`. -/
structure GroceryViewModel where
  groceries : List ℕ := []
  groceryName : String := ""
  groceryDescription : String := ""
  groceryAmount : String := ""
  chosenGrocery : Option ℕ := none

namespace GroceryViewModel

/-- The grocery `onTapAddGrocery` hands to `addGrocery`. -/
def onTapAddGrocery (vm : GroceryViewModel) : GroceryVO where
  name := some vm.groceryName
  description := some vm.groceryDescription
  amount := some ((intOfString vm.groceryAmount).getD 0)

def onTapEditGrocery (vm : GroceryViewModel)
    (groceryName groceryDescription groceryAmount : String) : GroceryViewModel :=
  { vm with groceryName, groceryDescription, groceryAmount }

def onGroceryItemChosen (vm : GroceryViewModel) (grocery : ℕ) : GroceryViewModel :=
  { vm with chosenGrocery := some grocery }

/-- The grocery `onImageChosen` starts an upload for; without a chosen one it returns. -/
def onImageChosen (vm : GroceryViewModel) : Option ℕ := vm.chosenGrocery

/-- The pencil button of a row, which fills the form from the row. -/
def onTapPencil (vm : GroceryViewModel) (grocery : GroceryVO) : GroceryViewModel :=
  vm.onTapEditGrocery (grocery.name.getD "") (grocery.description.getD "")
    (stringOfInt (grocery.amount.getD 0))

end GroceryViewModel

/-- What can happen on the clients. A row is named by its object: a row on screen keeps the object
it was made with when later snapshots replace the list. A snapshot that a client is handed lags
behind the collection by some states, or by none. -/
inductive ClientEvent (Client : Type) where
  | snapshot (client : Client) (lag : ℕ := 0)
  | tapPencil (client : Client) (row : ℕ)
  | editForm (client : Client) (groceryName groceryDescription groceryAmount : String)
  | tapAddGrocery (client : Client)
  | tapUpload (client : Client) (row : ℕ)
  | imageChosen (client : Client)
  | tapDelete (client : Client) (row : ℕ)
  | putDataDone (upload : ℕ)
  | downloadURLDone (upload : ℕ) (url : Option String)

/-- The client whose view model an event changes. -/
def ClientEvent.client {Client : Type} : ClientEvent Client → Option Client
  | .snapshot c _ | .tapPencil c _ | .editForm c _ _ _ | .tapUpload c _ => some c
  | _ => none

structure World (Client : Type) where
  api : ApiState := {}
  viewModel : Client → GroceryViewModel := fun _ => {}

namespace World

variable {Client : Type} [DecidableEq Client]

/-- The call on the back end that an event makes. -/
def call (w : World Client) : ClientEvent Client → Option ApiCall
  | .snapshot _ lag => some (.getAllGroceries lag)
  | .tapAddGrocery c => some (.addGrocery (w.viewModel c).onTapAddGrocery)
  | .imageChosen c => (w.viewModel c).onImageChosen.map .uploadImage
  | .tapDelete _ row => some (.deleteGrocery row)
  | .putDataDone upload => some (.putDataDone upload)
  | .downloadURLDone upload url => some (.downloadURLDone upload url)
  | .tapPencil _ _ => none
  | .editForm _ _ _ _ => none
  | .tapUpload _ _ => none

/-- The view model of the client an event happens on, after it. -/
def update (w : World Client) : ClientEvent Client → Client → GroceryViewModel
  | .snapshot c lag =>
    let groceries := getAllGroceries (w.api.stateAt (w.api.version - lag))
    Function.update w.viewModel c
      { w.viewModel c with groceries := List.range' w.api.objects.length groceries.length }
  | .tapPencil c row =>
    match w.api.objects[row]? with
    | none => w.viewModel
    | some grocery => Function.update w.viewModel c ((w.viewModel c).onTapPencil grocery)
  | .editForm c groceryName groceryDescription groceryAmount =>
    Function.update w.viewModel c
      { w.viewModel c with groceryName, groceryDescription, groceryAmount }
  | .tapUpload c row => Function.update w.viewModel c ((w.viewModel c).onGroceryItemChosen row)
  | _ => w.viewModel

def step (w : World Client) (e : ClientEvent Client) : World Client where
  api := run ApiState.step w.api (w.call e).toList
  viewModel := w.update e

/-- The documents of the collection. -/
abbrev db (w : World Client) : Firestore := w.api.db

/-- A run of the clients acts on the back end as the run of the calls it makes. -/
theorem run_api (w : World Client) (es : List (ClientEvent Client)) :
    (run step w es).api = run ApiState.step w.api (calls step call w es) :=
  run_calls (π := api) (fun _ _ => rfl) w es

theorem step_api_of_call {w : World Client} {e : ClientEvent Client} {c : ApiCall}
    (h : w.call e = some c) : (w.step e).api = w.api.step c := by
  simp only [step, h, Option.toList_some, run_cons, run_nil]

theorem step_api_of_no_call {w : World Client} {e : ClientEvent Client} (h : w.call e = none) :
    (w.step e).api = w.api := by
  simp only [step, h, Option.toList_none, run_nil]

theorem viewModel_tapPencil {w : World Client} {c : Client} {row : ℕ} {g : GroceryVO}
    (h : w.api.objects[row]? = some g) :
    (w.step (.tapPencil c row)).viewModel c = (w.viewModel c).onTapPencil g := by
  simp only [step, update, h, Function.update_self]

/-- An event changes the view model of its own client only. -/
theorem viewModel_step_of_ne {w : World Client} {e : ClientEvent Client} {c : Client}
    (h : e.client ≠ some c) : (w.step e).viewModel c = w.viewModel c := by
  have hne : ∀ c', e.client = some c' → c ≠ c' := fun c' he hc => h (hc ▸ he)
  rcases e with ⟨c', lag⟩ | ⟨c', row⟩ | c' | c' | ⟨c', row⟩ | c' | c' | _ | _
  · exact Function.update_of_ne (hne c' rfl) _ _
  · cases hg : w.api.objects[row]? with
    | none => simp only [step, update, hg]
    | some g => simp only [step, update, hg, Function.update_of_ne (hne c' rfl)]
  · exact Function.update_of_ne (hne c' rfl) _ _
  · rfl
  · exact Function.update_of_ne (hne c' rfl) _ _
  all_goals rfl

theorem consistent (es : List (ClientEvent Client)) :
    (run step ({} : World Client) es).api.Consistent := by
  rw [run_api]
  exact ApiState.consistent_init.run _

end World

end GroceryApp
