import GroceryApp.Network.SegmentNames
import GroceryApp.ViewModels.Sessions

/-!
# Deleting rows of the list on screen

`deleteItems(at:)` is called with the offsets of rows as they were rendered, takes the first offset
alone, or 0 if there is none, and looks it up in the list as it is by then. So it requests the
deletion of the rows the user saw exactly if there is one offset and the same grocery still stands
there (`deletesShown_iff`).
-/

namespace GroceryApp

open CloudFireStore Runs

/-- An index set is enumerated in ascending order. -/
structure IndexSet where
  elements : List ℕ
  ascending : elements.Pairwise (· < ·)

theorem IndexSet.eq_singleton {offsets : IndexSet} {i : ℕ} (hi : i ∈ offsets.elements)
    (hone : ∀ j ∈ offsets.elements, j = i) : offsets.elements = [i] := by
  have hascending := offsets.ascending
  generalize offsets.elements = elements at hi hone hascending ⊢
  rcases elements with _ | ⟨a, _ | ⟨b, elements⟩⟩
  · cases hi
  · rw [hone a List.mem_cons_self]
  · have hlt : a < b := (List.pairwise_cons.mp hascending).1 b List.mem_cons_self
    rw [hone a List.mem_cons_self, hone b (by simp)] at hlt
    exact absurd hlt (lt_irrefl i)

/-- What ends the program in `deleteItems`. -/
inductive DeleteItemsTrap where
  | indexOutOfRange (index : ℕ)
  | hardFail (failure : HardFail)
  deriving DecidableEq

namespace ContentView

/-- `offsets.map{$0}.first ?? 0`. -/
def chosenIndex (offsets : IndexSet) : ℕ := offsets.elements.head?.getD 0

def chosenGrocery (groceries : List ℕ) (offsets : IndexSet) : Except DeleteItemsTrap ℕ :=
  match groceries[chosenIndex offsets]? with
  | none => .error (.indexOutOfRange (chosenIndex offsets))
  | some grocery => .ok grocery

/-- The documents whose deletion `onDeleteGrocery` requests. -/
def requests (api : ApiState) (grocery : ℕ) : Except DeleteItemsTrap (List DocumentReference) :=
  match api.objects[grocery]? with
  | none => .ok []
  | some grocery =>
    match groceries.document (grocery.name.getD "") with
    | .error failure => .error (.hardFail failure)
    | .ok ref => .ok [ref]

def deleteItems (api : ApiState) (groceries : List ℕ) (offsets : IndexSet) :
    Except DeleteItemsTrap (List DocumentReference) := do
  let grocery ← chosenGrocery groceries offsets
  requests api grocery

/-- The document of the grocery in a row of a list. -/
def ShownAt (api : ApiState) (rows : List ℕ) (i : ℕ) (ref : DocumentReference) : Prop :=
  ∃ r g, rows[i]? = some r ∧ api.objects[r]? = some g ∧
    groceries.document (g.name.getD "") = .ok ref

/-- Every row of a list leads to a document, and no two to the same. -/
structure RowsShown (api : ApiState) (rows : List ℕ) : Prop where
  shown : ∀ i < rows.length, ∃ ref, ShownAt api rows i ref
  distinct : ∀ i j ref, ShownAt api rows i ref → ShownAt api rows j ref → i = j

variable {api : ApiState} {rows : List ℕ} {i : ℕ} {ref ref' : DocumentReference}
  {offsets : IndexSet}

theorem ShownAt.unique (h : ShownAt api rows i ref) (h' : ShownAt api rows i ref') :
    ref = ref' := by
  obtain ⟨r, g, hr, hg, hdoc⟩ := h
  obtain ⟨r', g', hr', hg', hdoc'⟩ := h'
  obtain rfl := Option.some.inj (hr.symm.trans hr')
  obtain rfl := Option.some.inj (hg.symm.trans hg')
  exact document_unique hdoc hdoc'

theorem ShownAt.lt_length (h : ShownAt api rows i ref) : i < rows.length := by
  obtain ⟨r, g, hr, -, -⟩ := h
  exact (List.getElem?_eq_some_iff.mp hr).1

/-- `deleteItems` requests the deletion of one document, that of the row at the chosen index of the
list as it is. -/
theorem deleteItems_eq_ok_iff (h : RowsShown api rows) {requested : List DocumentReference} :
    deleteItems api rows offsets = .ok requested ↔
      ∃ ref, requested = [ref] ∧ ShownAt api rows (chosenIndex offsets) ref := by
  have hok : ∀ ref, ShownAt api rows (chosenIndex offsets) ref →
      deleteItems api rows offsets = .ok [ref] := by
    rintro ref ⟨r, g, hr, hg, hdoc⟩
    simp only [deleteItems, chosenGrocery, hr, bind, Except.bind, requests, hg, hdoc]
  constructor
  · intro hdelete
    rcases Nat.lt_or_ge (chosenIndex offsets) rows.length with hlt | hle
    · obtain ⟨ref, href⟩ := h.shown _ hlt
      exact ⟨ref, Except.ok.inj (hdelete.symm.trans (hok ref href)), href⟩
    · simp [deleteItems, chosenGrocery, hle, bind, Except.bind] at hdelete
  · rintro ⟨ref, rfl, href⟩
    exact hok ref href

/-- It returns, and requests the deletion of the documents shown at the offsets and no other. -/
def DeletesRows (api : ApiState) (rendered current : List ℕ) (offsets : IndexSet) : Prop :=
  ∃ requested, deleteItems api current offsets = .ok requested ∧
    ∀ ref, ref ∈ requested ↔ ∃ i ∈ offsets.elements, ShownAt api rendered i ref

/-- There is one offset, and the row that was rendered there is still there. -/
def SameRow (api : ApiState) (rendered current : List ℕ) (offsets : IndexSet) : Prop :=
  ∃ i ref, offsets.elements = [i] ∧ ShownAt api rendered i ref ∧ ShownAt api current i ref

theorem deletesRows_iff {rendered current : List ℕ} (hrendered : RowsShown api rendered)
    (hcurrent : RowsShown api current) (hvalid : ∀ i ∈ offsets.elements, i < rendered.length) :
    DeletesRows api rendered current offsets ↔ SameRow api rendered current offsets := by
  unfold DeletesRows SameRow
  simp only [deleteItems_eq_ok_iff hcurrent]
  constructor
  · rintro ⟨-, ⟨ref, rfl, hshown⟩, hall⟩
    obtain ⟨i, hi, hrow⟩ := (hall ref).mp (List.mem_singleton_self ref)
    -- every offset shows the one document that is requested
    have hone : ∀ j ∈ offsets.elements, j = i := by
      intro j hj
      obtain ⟨ref', href'⟩ := hrendered.shown j (hvalid j hj)
      obtain rfl := List.mem_singleton.mp ((hall ref').mpr ⟨j, hj, href'⟩)
      exact hrendered.distinct j i ref' href' hrow
    have helements := IndexSet.eq_singleton hi hone
    refine ⟨i, ref, helements, hrow, ?_⟩
    rwa [chosenIndex, helements] at hshown
  · rintro ⟨i, ref, helements, hrow, hnow⟩
    refine ⟨[ref], ⟨ref, rfl, by rwa [chosenIndex, helements]⟩, fun ref' => ?_⟩
    rw [helements, List.mem_singleton]
    constructor
    · rintro rfl
      exact ⟨i, List.mem_singleton_self i, hrow⟩
    · rintro ⟨j, hj, href'⟩
      obtain rfl := List.mem_singleton.mp hj
      exact href'.unique hrow

/-! ## Lists keep their documents -/

theorem ShownAt.step (h : ShownAt api rows i ref) (c : ApiCall) :
    ShownAt (api.step c) rows i ref := by
  obtain ⟨r, g, hr, hg, hdoc⟩ := h
  obtain ⟨g', hg', hname, -, -⟩ := ApiState.step_objects_keep c hg
  exact ⟨r, g', hr, hg', hname ▸ hdoc⟩

theorem RowsShown.step (h : RowsShown api rows) (c : ApiCall) : RowsShown (api.step c) rows where
  shown := by
    intro i hi
    obtain ⟨ref, href⟩ := h.shown i hi
    exact ⟨ref, href.step c⟩
  distinct := by
    have hback : ∀ i ref, ShownAt (api.step c) rows i ref → ShownAt api rows i ref := by
      intro i ref hshown
      obtain ⟨ref', href'⟩ := h.shown i hshown.lt_length
      rwa [hshown.unique (href'.step c)]
    intro i j ref hi hj
    exact h.distinct i j ref (hback i ref hi) (hback j ref hj)

theorem rowsShown_nil : RowsShown api [] where
  shown := by simp
  distinct := by
    rintro i j ref ⟨r, g, hr, -, -⟩
    cases hr

/-- The collection that a snapshot shows. -/
def snapshotDb (api : ApiState) (lag : ℕ) : Firestore := api.stateAt (api.version - lag)

/-- The rows that a snapshot sets. -/
def snapshotRows (api : ApiState) (lag : ℕ) : List ℕ :=
  List.range' api.objects.length (getAllGroceries (snapshotDb api lag)).length

variable {lag : ℕ}

theorem shownAt_snapshot_iff :
    ShownAt (api.step (.getAllGroceries lag)) (snapshotRows api lag) i ref ↔
      ∃ g, (getAllGroceries (snapshotDb api lag))[i]? = some g ∧
        groceries.document (g.name.getD "") = .ok ref := by
  have hg : (api.step (.getAllGroceries lag)).objects[api.objects.length + i]? =
      (getAllGroceries (snapshotDb api lag))[i]? := by
    change (api.objects ++ getAllGroceries (snapshotDb api lag))[_]? = _
    rw [List.getElem?_append_right (Nat.le_add_right _ _), Nat.add_sub_cancel_left]
  have hr : i < (getAllGroceries (snapshotDb api lag)).length →
      (snapshotRows api lag)[i]? = some (api.objects.length + i) := by
    intro hi
    rw [snapshotRows, List.getElem?_range' hi, one_mul]
  constructor
  · intro hshown
    have hi : i < (getAllGroceries (snapshotDb api lag)).length := by
      simpa [snapshotRows] using hshown.lt_length
    obtain ⟨r, g, hr', hg', hdoc⟩ := hshown
    obtain rfl := Option.some.inj ((hr hi).symm.trans hr')
    exact ⟨g, hg.symm.trans hg', hdoc⟩
  · rintro ⟨g, hg', hdoc⟩
    exact ⟨_, g, hr (List.getElem?_eq_some_iff.mp hg').1, hg.trans hg', hdoc⟩

/-- The list of a snapshot leads to its documents. -/
theorem rowsShown_snapshot (h : Written (snapshotDb api lag)) :
    RowsShown (api.step (.getAllGroceries lag)) (snapshotRows api lag) where
  shown := by
    intro i hi
    have hlt : i < (getAllGroceries (snapshotDb api lag)).length := by
      simpa [snapshotRows] using hi
    obtain ⟨id, g, hg, -, hdoc⟩ := h.mem_getAllGroceries.mp (List.getElem_mem hlt)
    exact ⟨groceryRef id, shownAt_snapshot_iff.mpr
      ⟨_, List.getElem?_eq_getElem hlt, by rw [hg]; exact hdoc⟩⟩
  distinct := by
    intro i j ref hi hj
    obtain ⟨g, hg, hdoc⟩ := shownAt_snapshot_iff.mp hi
    obtain ⟨g', hg', hdoc'⟩ := shownAt_snapshot_iff.mp hj
    obtain ⟨id, hid⟩ := h.exists_id (List.mem_of_getElem? hg)
      (by rw [← h.stored_row (List.mem_of_getElem? hg)]; rfl)
    obtain rfl := document_unique hid hdoc
    obtain rfl := h.row_unique (List.mem_of_getElem? hg) hdoc (List.mem_of_getElem? hg') hdoc'
    obtain ⟨hlt, hget⟩ := List.getElem?_eq_some_iff.mp hg
    obtain ⟨hlt', hget'⟩ := List.getElem?_eq_some_iff.mp hg'
    exact (h.nodup.getElem_inj_iff).mp (hget.trans hget'.symm)

end ContentView

open ContentView

/-! ## The screen over a run -/

/-- All clients, and the rows that the screen of one of them has rendered last. -/
structure Screen (Client : Type) where
  world : World Client := {}
  rendered : List ℕ := []

inductive ScreenEvent (Client : Type) where
  | world (event : ClientEvent Client)
  | render
  | deleteItems (offsets : IndexSet)

/-- Only a snapshot replaces the list of a view model. -/
theorem World.groceries_step {Client : Type} [DecidableEq Client] (w : World Client)
    (e : ClientEvent Client) (c : Client) :
    (∃ lag, e = .snapshot c lag) ∨ ((w.step e).viewModel c).groceries = (w.viewModel c).groceries := by
  by_cases he : e.client = some c
  · cases e with
    | snapshot c' lag => exact .inl ⟨lag, by rw [Option.some.inj he]⟩
    | tapPencil c' row =>
      obtain rfl := Option.some.inj he
      right
      cases hg : w.api.objects[row]? with
      | none => simp only [step, update, hg]
      | some g =>
        rw [viewModel_tapPencil hg]
        rfl
    | editForm c' name description amount =>
      obtain rfl := Option.some.inj he
      simp [step, update]
    | tapUpload c' row =>
      obtain rfl := Option.some.inj he
      simp [step, update, GroceryViewModel.onGroceryItemChosen]
    | _ => cases he
  · right
    rw [viewModel_step_of_ne he]

namespace Screen

variable {Client : Type} [DecidableEq Client] (c : Client)

/-- The list of the view model as it is. -/
def current (s : Screen Client) : List ℕ := (s.world.viewModel c).groceries

/-- All offsets are of rendered rows. -/
def Valid (s : Screen Client) (offsets : IndexSet) : Prop :=
  ∀ i ∈ offsets.elements, i < s.rendered.length

instance (s : Screen Client) (offsets : IndexSet) : Decidable (s.Valid offsets) :=
  inferInstanceAs (Decidable (∀ i ∈ offsets.elements, i < s.rendered.length))

def step (s : Screen Client) : ScreenEvent Client → Screen Client
  | .world event => { s with world := s.world.step event }
  | .render => { s with rendered := s.current c }
  | .deleteItems offsets =>
    if s.Valid offsets then
      match chosenGrocery (s.current c) offsets with
      | .error _ => s
      | .ok grocery => { s with world := s.world.step (.tapDelete c grocery) }
    else s

/-- What `deleteItems` should do with offsets of rendered rows. -/
def DeletesShown (s : Screen Client) (e : ScreenEvent Client) : Prop :=
  ∀ offsets, e = .deleteItems offsets → s.Valid offsets →
    DeletesRows s.world.api s.rendered (s.current c) offsets

def KeepsRow (s : Screen Client) (e : ScreenEvent Client) : Prop :=
  ∀ offsets, e = .deleteItems offsets → s.Valid offsets →
    SameRow s.world.api s.rendered (s.current c) offsets

variable {c} {s : Screen Client} {e : ScreenEvent Client}

/-- The list on screen and the list of the view model lead to their documents. -/
structure Good (c : Client) (s : Screen Client) : Prop where
  consistent : s.world.api.Consistent
  rendered : RowsShown s.world.api s.rendered
  current : RowsShown s.world.api (s.current c)

omit [DecidableEq Client] in
theorem good_init : Good c ({} : Screen Client) :=
  ⟨ApiState.consistent_init, rowsShown_nil, rowsShown_nil⟩

theorem Good.world (h : Good c s) (e : ClientEvent Client) :
    Good c { s with world := s.world.step e } where
  consistent := h.consistent.run _
  rendered := run_invariant (I := fun api => RowsShown api s.rendered)
    (fun _ call hrows => hrows.step call) h.rendered _
  current := by
    rcases s.world.groceries_step e c with ⟨lag, rfl⟩ | heq
    · have hrows : ((s.world.step (.snapshot c lag)).viewModel c).groceries =
          snapshotRows s.world.api lag := by
        change (Function.update s.world.viewModel c
          { s.world.viewModel c with groceries := snapshotRows s.world.api lag } c).groceries = _
        rw [Function.update_self]
      change RowsShown _ ((s.world.step (.snapshot c lag)).viewModel c).groceries
      rw [hrows]
      exact rowsShown_snapshot (h.consistent.written_stateAt _)
    · show RowsShown _ ((s.world.step e).viewModel c).groceries
      rw [heq]
      exact run_invariant (I := fun api => RowsShown api (s.current c))
        (fun _ call hrows => hrows.step call) h.current _

theorem Good.step (h : Good c s) (e : ScreenEvent Client) : Good c (step c s e) := by
  cases e with
  | world event => exact h.world event
  | render => exact ⟨h.consistent, h.current, h.current⟩
  | deleteItems offsets =>
    unfold Screen.step
    dsimp only
    split_ifs
    · split
      · exact h
      · exact h.world _
    · exact h

omit [DecidableEq Client] in
theorem Good.deletesShown_keepsRow (h : Good c s) (e : ScreenEvent Client) :
    s.DeletesShown c e ↔ s.KeepsRow c e := by
  unfold DeletesShown KeepsRow
  refine forall_congr' fun offsets => forall_congr' fun _ => forall_congr' fun hvalid => ?_
  exact deletesRows_iff h.rendered h.current hvalid

/-- Along every run of all clients in which snapshots replace the list of one of them, its screen
is rendered now and then, and `deleteItems` is called with offsets of rendered rows: it never traps
and requests the deletion of the documents the user saw, exactly if each time there is one offset
and the row that was rendered there is still there. -/
theorem deletesShown_iff (es : List (ScreenEvent Client)) :
    Along (Screen.step c) (DeletesShown c) {} es ↔ Along (Screen.step c) (KeepsRow c) {} es :=
  along_congr (I := Good c) (fun _ e h _ => h.step e) (fun _ e h => h.deletesShown_keepsRow e)
    good_init

/-- Milk is listed and rendered, then another client adds eggs, and the list shifts under the
rendered row. -/
def shifted : List (ScreenEvent ℕ) :=
  [.world (.editForm 0 "milk" "fresh" "1"), .world (.tapAddGrocery 0), .world (.snapshot 0),
    .render, .world (.editForm 1 "eggs" "" "12"), .world (.tapAddGrocery 1), .world (.snapshot 0)]

/-- All names on the way are single segments. -/
theorem segmentNames_shifted (e : ScreenEvent ℕ) :
    Along (Screen.step 0) (fun s _ => ∀ name, Listed s.world.db name → IsSegment name) {}
      (shifted ++ [e]) := by
  have hrows : Along (Screen.step 0)
      (fun s _ => ∀ row ∈ getAllGroceries s.world.db, IsSegment (row.name.getD "")) {}
      (shifted ++ [e]) := by
    have hlast : ∀ row ∈ getAllGroceries (run (Screen.step 0) {} shifted).world.db,
        IsSegment (row.name.getD "") := by decide
    rw [along_append]
    exact ⟨by decide, hlast, trivial⟩
  exact along_mono (I := fun _ => True) (fun _ _ _ _ => trivial)
    (fun _ _ _ h _ hl => isSegment_of_listed h hl) trivial hrows

/-- The user deletes the row of milk, and eggs are deleted. -/
theorem deletesShown_fails : ¬ ∀ es : List (ScreenEvent ℕ),
    Along (Screen.step 0) (fun s _ => ∀ name, Listed s.world.db name → IsSegment name) {} es →
    Along (Screen.step 0) (DeletesShown 0) {} es := by
  intro h
  have hrun := h (shifted ++ [.deleteItems ⟨[0], List.pairwise_singleton _ _⟩])
    (segmentNames_shifted _)
  rw [along_append] at hrun
  obtain ⟨requested, hok, hall⟩ := hrun.2.1 _ rfl (by decide)
  have heggs : deleteItems (run (Screen.step 0) {} shifted).world.api
      ((run (Screen.step 0) {} shifted).current 0) ⟨[0], List.pairwise_singleton _ _⟩ =
        .ok [groceryRef "eggs"] := by decide
  obtain rfl := Except.ok.inj (hok.symm.trans heggs)
  obtain ⟨i, hi, r, g, hr, hg, hdoc⟩ := (hall (groceryRef "eggs")).mp (List.mem_singleton_self _)
  obtain rfl := List.mem_singleton.mp hi
  have hrendered : (run (Screen.step 0) {} shifted).rendered[0]? = some 0 := by decide
  obtain rfl := Option.some.inj (hrendered.symm.trans hr)
  have hmilk : (run (Screen.step 0) {} shifted).world.api.objects[0]? =
      some ⟨some "milk", some "fresh", some 1, some ""⟩ := by decide
  obtain rfl := Option.some.inj (hmilk.symm.trans hg)
  revert hdoc
  decide

end Screen

end GroceryApp
