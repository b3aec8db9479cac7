import GroceryApp.Lib.BlindWrite
import GroceryApp.ViewModels.Sessions

/-!
# Two clients on one grocery

A client captures a row that its list shows and later writes the whole grocery back, changed in the
fields its user touched. Seen from the collection, whose states each have at most one row under the
name, this is a read-modify-write without a check in which a read may be of an earlier state
(`Tracks.step`): the last write decides the whole row, with the other fields as its client captured
them (`last_write_decides`). A change of the other client survives only if the captured row was
decoded from a state after that change; the schedule of `noLostUpdate_fails` loses one.
-/

namespace GroceryApp

open BlindWrite CloudFireStore Runs

/-- What a user changes in a captured row: the image, or form fields but not the name. -/
inductive Change where
  | image (url : String)
  | form (description amount : Option String)
  deriving DecidableEq

namespace Change

inductive Field where
  | description
  | amount
  | image

def Changes : Change → Field → Prop
  | image _, .image => True
  | form description _, .description => description.isSome
  | form _ amount, .amount => amount.isSome
  | _, _ => False

/-- The two users change no field in common. -/
def Disjoint (a b : Change) : Prop := ∀ field, ¬ (a.Changes field ∧ b.Changes field)

theorem Disjoint.symm {a b : Change} (h : a.Disjoint b) : b.Disjoint a :=
  fun field hfield => h field hfield.symm

/-- The row holds the values of the change. -/
def HeldBy : Change → GroceryVO → Prop
  | image url, row => row.image = some url
  | form description amount, row =>
    (∀ text ∈ description, row.description = some text) ∧
      ∀ text ∈ amount, row.amount = some ((intOfString text).getD 0)

instance (change : Change) (row : GroceryVO) : Decidable (change.HeldBy row) :=
  match change with
  | image url => inferInstanceAs (Decidable (row.image = some url))
  | form description amount => inferInstanceAs (Decidable
      ((∀ text ∈ description, row.description = some text) ∧
        ∀ text ∈ amount, row.amount = some ((intOfString text).getD 0)))

/-- The row after a client that captured `row` writes it back with the change. -/
def writeBack : Change → GroceryVO → GroceryVO
  | image url, row => stored { row with image := some url }
  | form description amount, row => stored
    { name := some (row.name.getD "")
      description := some (description.getD (row.description.getD ""))
      amount := some ((intOfString (amount.getD (stringOfInt (row.amount.getD 0)))).getD 0) }

theorem writeBack_name {change : Change} {row : GroceryVO} {name : String}
    (h : row.name = some name) : (change.writeBack row).name = some name := by
  cases change <;> simp [writeBack, h]

/-- The captured image does not matter. -/
theorem writeBack_congr (change : Change) {row row' : GroceryVO}
    (h : ApiState.SameButImage row row') : change.writeBack row = change.writeBack row' := by
  obtain ⟨hname, hdescription, hamount⟩ := h
  cases change <;> simp only [writeBack, hname, hdescription, hamount]

theorem heldBy_writeBack (change : Change) (row : GroceryVO) :
    change.HeldBy (change.writeBack row) := by
  cases change with
  | image url => rfl
  | form description amount =>
    constructor
    · rintro text rfl
      rfl
    · rintro text rfl
      rfl

/-- The values of form fields do not depend on the image. -/
theorem HeldBy.congr {change : Change} {row row' : GroceryVO} (h : change.HeldBy row)
    (hsame : ApiState.SameButImage row row') (hform : ∀ url, change ≠ image url) :
    change.HeldBy row' := by
  obtain ⟨-, hdescription, hamount⟩ := hsame
  rcases change with url | ⟨description, amount⟩
  · exact absurd rfl (hform url)
  · exact ⟨fun text ht => hdescription ▸ h.1 text ht, fun text ht => hamount ▸ h.2 text ht⟩

/-- A write back keeps the values of form fields the other user changed. -/
theorem HeldBy.writeBack {a b : Change} {row : GroceryVO} (h : a.HeldBy row)
    (hdisj : a.Disjoint b) (hform : ∀ url, a ≠ image url) : a.HeldBy (b.writeBack row) := by
  rcases a with url | ⟨description, amount⟩
  · exact absurd rfl (hform url)
  · obtain ⟨hdescription, hamount⟩ := h
    rcases b with url | ⟨description', amount'⟩
    · constructor
      · intro text ht
        simp [Change.writeBack, hdescription text ht]
      · intro text ht
        simp [Change.writeBack, hamount text ht]
    · constructor
      · rintro text rfl
        have h' : description' = none := by simpa [Changes] using hdisj .description
        simp [Change.writeBack, h', hdescription text rfl]
      · rintro text rfl
        have h' : amount' = none := by simpa [Changes] using hdisj .amount
        simp [Change.writeBack, h', hamount text rfl]

end Change

namespace CloudFireStore

variable {db : Firestore} {name : String} {row g : GroceryVO}

/-- The row listed under a name. -/
def listedRow (db : Firestore) (name : String) : Option GroceryVO :=
  (getAllGroceries db).find? (·.name = some name)

theorem mem_of_listedRow (h : listedRow db name = some row) :
    row ∈ getAllGroceries db ∧ row.name = some name :=
  ⟨List.mem_of_find?_eq_some h, by simpa using List.find?_some h⟩

theorem Written.listedRow_eq (h : Written db) (hrow : row ∈ getAllGroceries db)
    (hname : row.name = some name) : listedRow db name = some row := by
  obtain ⟨row', hrow'⟩ : ∃ row', listedRow db name = some row' :=
    Option.isSome_iff_exists.mp (List.find?_isSome.mpr ⟨row, hrow, by simpa using hname⟩)
  obtain ⟨hmem, hname'⟩ := mem_of_listedRow hrow'
  rw [hrow', h.eq_of_name_eq hmem hrow (hname'.trans hname.symm)]

end CloudFireStore

namespace ApiState

/-- The rows listed under a name, one state of the collection after the other. -/
def history (s : ApiState) (name : String) : List (Option GroceryVO) :=
  s.states.map (listedRow · name)

variable {s s' : ApiState} {name : String} {version : ℕ}

theorem length_history : (s.history name).length = s.version + 1 := by
  rw [history, List.length_map, length_states]

theorem getElem?_history (h : version ≤ s.version) :
    (s.history name)[version]? = some (listedRow (s.stateAt version) name) := by
  rw [history, List.getElem?_map, getElem?_states h]
  rfl

theorem getLast?_history : (s.history name).getLast? = some (listedRow s.db name) := by
  rw [history, states, List.map_append, List.map_singleton, List.getLast?_concat]

theorem history_of_past (h : s'.past = s.past ++ [s.db]) :
    s'.history name = s.history name ++ [listedRow s'.db name] := by
  rw [history, history, states, states, h, List.map_append]
  rfl

theorem history_congr (hdb : s'.db = s.db) (hpast : s'.past = s.past) :
    s'.history name = s.history name := by
  rw [history, history, states, states, hdb, hpast]

end ApiState

namespace World

variable {Client : Type} [DecidableEq Client]

/-- The steps of the sessions of clients with one row, and the snapshots the clients are handed in
between. -/
inductive SessionOp (Client : Type) where
  | look (client : Client) (lag : ℕ)
  | read (client : Client)
  | write (client : Client)
  deriving DecidableEq

def SessionOp.isSession : SessionOp Client → Bool
  | look _ _ => false
  | _ => true

/-- A read taps the row that the list of the client shows under the name; a write completes the
upload or saves the form. -/
def sessionStep (name : String) (change : Client → Change) (w : World Client) :
    SessionOp Client → World Client
  | .look c lag => w.step (.snapshot c lag)
  | .read c =>
    match w.findRow c name with
    | none => w
    | some row =>
      match change c with
      | .image _ => w.step (.tapUpload c row)
      | .form _ _ => w.step (.tapPencil c row)
  | .write c =>
    match change c with
    | .image url => w.uploadImage c (some url)
    | .form description amount => w.saveForm c (w.viewModel c).groceryName
        (description.getD (w.viewModel c).groceryDescription)
        (amount.getD (w.viewModel c).groceryAmount)

/-- The schedules of one session of `a` and one of `b`, with snapshots in between. -/
def Interleaves (a b : Client) (ops : List (SessionOp Client)) : Prop :=
  Shuffle [.read a, .write a] [.read b, .write b] (ops.filter (·.isSession))

/-- A client that reads has a row with the name on its list. -/
def ReadsShown (name : String) (w : World Client) (op : SessionOp Client) : Prop :=
  ∀ c, op = .read c → (w.findRow c name).isSome

instance (name : String) (w : World Client) (op : SessionOp Client) :
    Decidable (ReadsShown name w op) :=
  match op with
  | .look _ _ => .isTrue (by simp [ReadsShown])
  | .read c => decidable_of_iff ((w.findRow c name).isSome = true) (by simp [ReadsShown])
  | .write _ => .isTrue (by simp [ReadsShown])

/-- The read or write of the abstract cell: a read is of the state that the row was decoded from. -/
def sessionCall (name : String) (w : World Client) : SessionOp Client → Option (Op Client)
  | .look _ _ => none
  | .read c => ((w.findRow c name).bind (w.api.versions[·]?)).map (.read c)
  | .write c => some (.write c)

/-- What a client keeps of a row it captured for a change: the object of the row, or the texts of
the form. -/
def Captured (w : World Client) (c : Client) (row : GroceryVO) : Change → Prop
  | .image _ => ∃ r g, (w.viewModel c).chosenGrocery = some r ∧ w.api.objects[r]? = some g ∧
      ApiState.SameButImage row g
  | .form _ _ => (w.viewModel c).groceryName = row.name.getD "" ∧
      (w.viewModel c).groceryDescription = row.description.getD "" ∧
      (w.viewModel c).groceryAmount = stringOfInt (row.amount.getD 0)

variable {w : World Client} {c c' : Client} {name : String} {row : GroceryVO}
  {change : Client → Change} {cell : Cell Client (Option GroceryVO)} {op : SessionOp Client}

/-! ## What a step of a session does -/

/-- A snapshot, or an event of another client, changes of a view model its list at most. -/
theorem viewModel_step_of_look {e : ClientEvent Client}
    (he : e.client = some c → ∃ lag, e = .snapshot c lag) : ∃ groceries,
      (w.step e).viewModel c = { w.viewModel c with groceries } := by
  by_cases hc : e.client = some c
  · obtain ⟨lag, rfl⟩ := he hc
    exact ⟨_, Function.update_self ..⟩
  · exact ⟨_, viewModel_step_of_ne hc⟩

theorem Captured.step {ch : Change} {e : ClientEvent Client} (h : w.Captured c row ch)
    (he : e.client = some c → ∃ lag, e = .snapshot c lag) : (w.step e).Captured c row ch := by
  obtain ⟨groceries, hvm⟩ := viewModel_step_of_look (w := w) he
  rcases ch with url | ⟨description, amount⟩
  · obtain ⟨r, g, hr, hg, hsame⟩ := h
    obtain ⟨g', hg', hsame'⟩ := ApiState.run_objects_keep hg (w.call e).toList
    exact ⟨r, g', by rw [hvm]; exact hr, hg', hsame.trans hsame'⟩
  · unfold Captured
    rw [hvm]
    exact h

theorem Captured.run {ch : Change} {es : List (ClientEvent Client)} (h : w.Captured c row ch)
    (hes : ∀ e ∈ es, e.client = some c → ∃ lag, e = .snapshot c lag) :
    (run World.step w es).Captured c row ch := by
  induction es generalizing w with
  | nil => exact h
  | cons e es ih =>
    exact ih (h.step (hes e List.mem_cons_self)) fun e' he' => hes e' (List.mem_cons_of_mem e he')

/-- A session step is a run of events: snapshots, and events of its client. -/
theorem sessionStep_eq_run (name : String) (change : Client → Change) (w : World Client)
    (op : SessionOp Client) : ∃ es, w.sessionStep name change op = run step w es ∧
      ∀ e ∈ es, ∀ c, e.client = some c →
        (∃ lag, e = .snapshot c lag) ∨ op = .read c ∨ op = .write c := by
  rcases op with ⟨c, lag⟩ | c | c
  · refine ⟨[.snapshot c lag], rfl, ?_⟩
    simp [ClientEvent.client]
  · simp only [sessionStep]
    split
    · exact ⟨[], rfl, by simp⟩
    · rename_i row _
      split
      · exact ⟨[.tapUpload c row], rfl, by simp [ClientEvent.client]⟩
      · exact ⟨[.tapPencil c row], rfl, by simp [ClientEvent.client]⟩
  · simp only [sessionStep]
    split
    · exact ⟨_, rfl, by simp [ClientEvent.client]⟩
    · exact ⟨_, rfl, by simp [ClientEvent.client]⟩

theorem consistent_sessionStep (h : w.api.Consistent) (op : SessionOp Client) :
    (w.sessionStep name change op).api.Consistent := by
  obtain ⟨es, hrun, -⟩ := sessionStep_eq_run name change w op
  rw [hrun, run_api]
  exact h.run _

/-- The states of the collection stay, and a session step may add some. -/
theorem stateAt_sessionStep {version : ℕ} (h : version ≤ w.api.version) (op : SessionOp Client) :
    version ≤ (w.sessionStep name change op).api.version ∧
      (w.sessionStep name change op).api.stateAt version = w.api.stateAt version := by
  obtain ⟨es, hrun, -⟩ := sessionStep_eq_run name change w op
  rw [hrun, run_api]
  exact ApiState.stateAt_run h _

/-- What the other clients captured stays as it is. -/
theorem Captured.sessionStep_of_ne {ch : Change} (h : w.Captured c row ch)
    (hread : op ≠ .read c) (hwrite : op ≠ .write c) :
    (w.sessionStep name change op).Captured c row ch := by
  obtain ⟨es, hrun, hes⟩ := sessionStep_eq_run name change w op
  rw [hrun]
  refine h.run fun e he hc => ?_
  rcases hes e he c hc with hlook | rfl | rfl
  · exact hlook
  · exact absurd rfl hread
  · exact absurd rfl hwrite

/-- Only writes change the collection. -/
theorem states_sessionStep (name : String) (change : Client → Change) (w : World Client)
    (op : SessionOp Client) (hop : ∀ c, op ≠ .write c) :
    (w.sessionStep name change op).api.db = w.api.db ∧
      (w.sessionStep name change op).api.past = w.api.past := by
  rcases op with ⟨c, lag⟩ | c | c
  · exact ⟨rfl, rfl⟩
  · simp only [sessionStep]
    split
    · exact ⟨rfl, rfl⟩
    · split <;> exact ⟨rfl, rfl⟩
  · exact absurd rfl (hop c)

omit [DecidableEq Client] in
/-- A row that a list shows under a name is an object with the name, decoded from some state. -/
theorem findRow_decoded (h : w.api.Consistent) {r : ℕ} (hr : w.findRow c name = some r) :
    ∃ g version row, w.api.objects[r]? = some g ∧ w.api.versions[r]? = some version ∧
      version ≤ w.api.version ∧ listedRow (w.api.stateAt version) name = some row ∧
      ApiState.SameButImage row g := by
  have hfound := List.find?_some hr
  obtain ⟨g, hg, hname⟩ := (Option.any_eq_true _ _).mp hfound
  rw [decide_eq_true_iff] at hname
  obtain ⟨version, hversion⟩ := h.version_of hg
  obtain ⟨hle, row, hrow, hsame⟩ := h.decoded r g version hg hversion
  exact ⟨g, version, row, hg, hversion, hle,
    (h.written_stateAt version).listedRow_eq hrow (hsame.1.trans hname), hsame⟩

/-- A read captures the row that was decoded. -/
theorem captured_read {r : ℕ} {g : GroceryVO} (hr : w.findRow c name = some r)
    (hg : w.api.objects[r]? = some g) (hsame : ApiState.SameButImage row g) :
    (w.sessionStep name change (.read c)).Captured c row (change c) := by
  rcases hc : change c with url | ⟨description, amount⟩
  · simp only [sessionStep, hr, hc]
    exact ⟨r, g, congrArg _ (Function.update_self ..), hg, hsame⟩
  · obtain ⟨hname, hdescription, hamount⟩ := hsame
    simp only [sessionStep, hr, hc, Captured, viewModel_tapPencil hg, hname, hdescription, hamount]
    exact ⟨rfl, rfl, rfl⟩

/-- A write replaces the document by what its client captured, with the change. -/
theorem Captured.write {ref : DocumentReference} (h : w.Captured c row (change c))
    (hname : row.name = some name) (hdoc : groceries.document name = .ok ref) :
    ∃ g, stored g = (change c).writeBack row ∧
      (w.sessionStep name change (.write c)).api.db = w.db.setData ref (groceryDictionary g) ∧
      (w.sessionStep name change (.write c)).api.past = w.api.past ++ [w.db] := by
  rcases hc : change c with url | ⟨description, amount⟩
  · obtain ⟨r, g, hr, hg, hsame⟩ := hc ▸ h
    have hdocg : groceries.document (g.name.getD "") = .ok ref := by
      rw [← hsame.1, hname]
      exact hdoc
    refine ⟨{ g with image := some url }, by rw [Change.writeBack, hsame.with_image], ?_⟩
    simp only [sessionStep, hc, api_uploadImage hr, ApiState.run_upload hg hdocg, and_self]
  · obtain ⟨hn, hd, ha⟩ := hc ▸ h
    have hn' : (w.viewModel c).groceryName = name := by rw [hn, hname]; rfl
    refine ⟨_, rfl, ?_⟩
    simp only [sessionStep, hc, hn', hd, ha, hname, Option.getD_some, api_saveForm]
    rw [ApiState.step_addGrocery]
    · exact ⟨rfl, rfl⟩
    · exact hdoc

/-! ## The row as a cell -/

/-- The rows listed under the name as the abstract cell: what the cell says a client has read is a
row of that state of the collection, and the client has captured it. -/
structure Tracks (name : String) (change : Client → Change) (w : World Client)
    (cell : Cell Client (Option GroceryVO)) : Prop where
  consistent : w.api.Consistent
  history : cell.history = w.api.history name
  held : ∀ c version, cell.held c = some version → version ≤ w.api.version ∧
    ∃ row, listedRow (w.api.stateAt version) name = some row ∧ w.Captured c row (change c)

/-- What a write makes of the row its client has captured. -/
abbrev writeBack (change : Client → Change) (c : Client) : Option GroceryVO → Option GroceryVO :=
  Option.map (change c).writeBack

/-- What a client has read is kept by the steps of the others, and by snapshots. -/
theorem Tracks.held_step (h : Tracks name change w cell) {version : ℕ}
    (hheld : cell.held c = some version) (hread : op ≠ .read c) (hwrite : op ≠ .write c) :
    version ≤ (w.sessionStep name change op).api.version ∧
      ∃ row, listedRow ((w.sessionStep name change op).api.stateAt version) name = some row ∧
        (w.sessionStep name change op).Captured c row (change c) := by
  obtain ⟨hle, row, hrow, hcaptured⟩ := h.held c version hheld
  obtain ⟨hle', hstate⟩ := stateAt_sessionStep hle op
  exact ⟨hle', row, hstate ▸ hrow, hcaptured.sessionStep_of_ne hread hwrite⟩

theorem Tracks.look (h : Tracks name change w cell) (lag : ℕ) :
    Tracks name change (w.sessionStep name change (.look c lag)) cell where
  consistent := consistent_sessionStep h.consistent _
  history := by
    obtain ⟨hdb, hpast⟩ := states_sessionStep name change w (.look c lag) (by simp)
    rw [h.history, ApiState.history_congr hdb hpast]
  held _ _ hheld := h.held_step hheld (by simp) (by simp)

/-- Where no row with the name is shown a read does nothing. -/
theorem Tracks.read_none (h : Tracks name change w cell) (hr : w.findRow c name = none) :
    Tracks name change (w.sessionStep name change (.read c)) cell := by
  simp only [sessionStep, hr]
  exact h

/-- A read is of the state that the shown row was decoded from. -/
theorem Tracks.read (h : Tracks name change w cell) {r version : ℕ}
    (hr : w.findRow c name = some r) (hversion : w.api.versions[r]? = some version) :
    version < cell.history.length ∧ Tracks name change (w.sessionStep name change (.read c))
      (cell.step (writeBack change) (.read c version)) := by
  obtain ⟨g, version', row, hg, hversion', hle, hrow, hsame⟩ := findRow_decoded h.consistent hr
  obtain rfl := Option.some.inj (hversion.symm.trans hversion')
  refine ⟨by rw [h.history, ApiState.length_history]; omega,
    consistent_sessionStep h.consistent _, ?_, fun c' version' hheld => ?_⟩
  · obtain ⟨hdb, hpast⟩ := states_sessionStep name change w (.read c) (by simp)
    rw [ApiState.history_congr hdb hpast]
    exact h.history
  · by_cases hc : c' = c
    · subst hc
      obtain rfl : version = version' := by simpa using hheld
      obtain ⟨hle', hstate⟩ := stateAt_sessionStep hle (.read c')
      exact ⟨hle', row, hstate ▸ hrow, captured_read hr hg hsame⟩
    · refine h.held_step ?_ (by simpa using Ne.symm hc) (by simp)
      simpa [hc] using hheld

/-- A write adds a state with the row that its client makes of the one it has captured. -/
theorem Tracks.write (h : Tracks name change w cell) (hheld : (cell.held c).isSome) :
    Tracks name change (w.sessionStep name change (.write c))
      (cell.step (writeBack change) (.write c)) := by
  obtain ⟨version, hversion⟩ := Option.isSome_iff_exists.mp hheld
  obtain ⟨hle, row, hrow, hcaptured⟩ := h.held c version hversion
  obtain ⟨hlisted, hname⟩ := mem_of_listedRow hrow
  obtain ⟨id, hdoc⟩ := (h.consistent.written_stateAt version).exists_id hlisted hname
  obtain ⟨g, hg, hdb, hpast⟩ := hcaptured.write hname hdoc
  have hconsistent : (w.sessionStep name change (.write c)).api.Consistent :=
    consistent_sessionStep h.consistent _
  have hnew : listedRow (w.sessionStep name change (.write c)).api.db name =
      some ((change c).writeBack row) := by
    refine hconsistent.written.listedRow_eq ?_ (Change.writeBack_name hname)
    rw [hdb, ← hg]
    exact mem_getAllGroceries_setData.mpr (.inl rfl)
  rw [Cell.step_write hversion
    (by rw [h.history, ApiState.getElem?_history hle, hrow] : cell.history[version]? = _)]
  refine ⟨hconsistent, ?_, fun c' version' hheld' => ?_⟩
  · rw [ApiState.history_of_past hpast, hnew, h.history]
    rfl
  · have hc : c' ≠ c := by
      rintro rfl
      simp at hheld'
    exact h.held_step (by simpa [hc] using hheld') (by simp) (by simpa using Ne.symm hc)

/-- A session step acts on the row as the read or write of the abstract cell. -/
theorem Tracks.step (op : SessionOp Client) (h : Tracks name change w cell)
    (hop : ∀ d ∈ w.sessionCall name op, cell.Writes d) :
    (∀ d ∈ w.sessionCall name op, cell.Reads d) ∧
      Tracks name change (w.sessionStep name change op)
        (run (Cell.step (writeBack change)) cell (w.sessionCall name op).toList) := by
  rcases op with ⟨c, lag⟩ | c | c
  · exact ⟨by simp [sessionCall], h.look lag⟩
  · cases hr : w.findRow c name with
    | none =>
      simp only [sessionCall, hr, Option.bind_none, Option.map_none]
      exact ⟨by simp, h.read_none hr⟩
    | some r =>
      obtain ⟨g, version, row, -, hversion, -⟩ := findRow_decoded h.consistent hr
      obtain ⟨hlt, htracks⟩ := h.read hr hversion
      simp only [sessionCall, hr, Option.bind_some, hversion, Option.map_some]
      refine ⟨?_, htracks⟩
      rintro _ ⟨⟩ c' version' ⟨⟩
      exact hlt
  · refine ⟨by simp [sessionCall, Cell.Reads], h.write (hop (.write c) rfl c rfl)⟩

/-- In the abstract cell a session step is what it is on the row. -/
def eraseVersion : Op Client → SessionOp Client
  | .read c _ => .read c
  | .write c => .write c

/-- When every read finds its row, the steps of the cell are those of the sessions. -/
theorem calls_eraseVersion {ops : List (SessionOp Client)} (h : w.api.Consistent)
    (hread : Along (sessionStep name change) (ReadsShown name) w ops) :
    (calls (sessionStep name change) (sessionCall name) w ops).map eraseVersion =
      ops.filter (·.isSession) := by
  induction ops generalizing w with
  | nil => rfl
  | cons op ops ih =>
    rw [calls, List.map_append, ih (consistent_sessionStep h op) hread.2]
    rcases op with ⟨c, lag⟩ | c | c
    · rfl
    · obtain ⟨r, hr⟩ := Option.isSome_iff_exists.mp (hread.1 c rfl)
      obtain ⟨g, version, row, -, hversion, -⟩ := findRow_decoded h hr
      simp [sessionCall, hr, hversion, SessionOp.isSession, eraseVersion]
    · rfl

/-! ## Two sessions -/

/-- In the schedule a client captures the object `g`, which was decoded from state number
`version`. -/
def Captures (name : String) (change : Client → Change) (w : World Client)
    (ops : List (SessionOp Client)) (c : Client) (g : GroceryVO) (version : ℕ) : Prop :=
  ∃ ops₁ ops₂ r, ops = ops₁ ++ .read c :: ops₂ ∧
    (run (sessionStep name change) w ops₁).findRow c name = some r ∧
    (run (sessionStep name change) w ops₁).api.objects[r]? = some g ∧
    (run (sessionStep name change) w ops₁).api.versions[r]? = some version

omit [DecidableEq Client] in
theorem eraseVersion_eq_read {d : Op Client} :
    eraseVersion d = .read c ↔ ∃ version, d = .read c version := by
  cases d <;> simp [eraseVersion]

omit [DecidableEq Client] in
theorem eraseVersion_eq_write {d : Op Client} : eraseVersion d = .write c ↔ d = .write c := by
  cases d <;> simp [eraseVersion]

omit [DecidableEq Client] in
/-- The sessions in the steps of the cell are those of the schedule. -/
theorem Interleaves.twoSessions {a b : Client} {ops : List (SessionOp Client)}
    {calls : List (Op Client)} (h : Interleaves a b ops)
    (hcalls : calls.map eraseVersion = ops.filter (·.isSession)) :
    ∃ va vb, TwoSessions a b va vb calls := by
  have hsession : ∀ {c : Client} {xs : List (Op Client)},
      xs.map eraseVersion = [.read c, .write c] → ∃ version, xs = [.read c version, .write c] := by
    intro c xs hxs
    obtain ⟨d, xs, rfl, hread, hxs⟩ := List.map_eq_cons_iff.mp hxs
    obtain ⟨d', xs, rfl, hwrite, hnil⟩ := List.map_eq_cons_iff.mp hxs
    obtain ⟨version, rfl⟩ := eraseVersion_eq_read.mp hread
    obtain rfl := eraseVersion_eq_write.mp hwrite
    obtain rfl := List.map_eq_nil_iff.mp hnil
    exact ⟨version, rfl⟩
  unfold Interleaves at h
  rw [← hcalls] at h
  obtain ⟨xs, ys, hxs, hys, hmerge⟩ := h.exists_of_map
  obtain ⟨va, rfl⟩ := hsession hxs
  obtain ⟨vb, rfl⟩ := hsession hys
  exact ⟨va, vb, hmerge⟩

/-- What a read of the cell reads is the row that the captured object was decoded from. -/
theorem captures_of_mem_calls {ops : List (SessionOp Client)} {version : ℕ}
    (hw : w.api.Consistent)
    (hmem : .read c version ∈ calls (sessionStep name change) (sessionCall name) w ops) :
    ∃ g row, Captures name change w ops c g version ∧ g.name = some name ∧
      ApiState.SameButImage row g ∧
      ((run (sessionStep name change) w ops).api.history name)[version]? = some (some row) := by
  obtain ⟨ops₁, op, ops₂, rfl, hcall⟩ := mem_calls hmem
  obtain ⟨r, rfl, hr, hversion⟩ : ∃ r, op = .read c ∧
      (run (sessionStep name change) w ops₁).findRow c name = some r ∧
      (run (sessionStep name change) w ops₁).api.versions[r]? = some version := by
    rcases op with ⟨c', lag⟩ | c' | c'
    · cases hcall
    · simp only [sessionCall, Option.map_eq_some_iff, Option.bind_eq_some_iff] at hcall
      obtain ⟨version', ⟨r, hr, hversion⟩, hread⟩ := hcall
      cases hread
      exact ⟨r, rfl, hr, hversion⟩
    · cases hcall
  have hpre : (run (sessionStep name change) w ops₁).api.Consistent :=
    run_invariant (I := fun w' : World Client => w'.api.Consistent)
      (fun _ op h => consistent_sessionStep h op) hw ops₁
  obtain ⟨g, version', row, hg, hversion', hle, hrow, hsame⟩ := findRow_decoded hpre hr
  obtain rfl := Option.some.inj (hversion.symm.trans hversion')
  -- the state it was decoded from stays
  obtain ⟨hle', hstate⟩ := run_invariant
    (I := fun w' : World Client => version ≤ w'.api.version ∧
      w'.api.stateAt version = (run (sessionStep name change) w ops₁).api.stateAt version)
    (fun w' op h => (stateAt_sessionStep h.1 op).imp_right (·.trans h.2))
    ⟨hle, rfl⟩ (.read c :: ops₂)
  rw [← run_append] at hle' hstate
  exact ⟨g, row, ⟨ops₁, ops₂, r, rfl, hr, hg, hversion⟩,
    hsame.1 ▸ (mem_of_listedRow hrow).2, hsame, by rw [ApiState.getElem?_history hle', hstate, hrow]⟩

omit [DecidableEq Client] in
/-- The last step of the cell is that of the schedule. -/
theorem getLast?_of_eraseVersion {ops : List (SessionOp Client)} {calls : List (Op Client)}
    (hcalls : calls.map eraseVersion = ops.filter (·.isSession))
    (hlast : (ops.filter (·.isSession)).getLast? = some (.write c)) :
    calls.getLast? = some (.write c) := by
  rw [← hcalls, List.getLast?_map, Option.map_eq_some_iff] at hlast
  obtain ⟨d, hd, herase⟩ := hlast
  rw [hd, eraseVersion_eq_write.mp herase]

/-- The row after two sessions in which `b` writes last is what `b` captured, with the change of
`b`. What `b` captured has the change of `a` if it was decoded from a later state than the one the
sessions start in. -/
theorem listed_writeBack {a b : Client} {ops : List (SessionOp Client)} (hw : w.api.Consistent)
    (hab : a ≠ b) (hops : Interleaves a b ops)
    (hread : Along (sessionStep name change) (ReadsShown name) w ops)
    (hlast : (ops.filter (·.isSession)).getLast? = some (.write b)) :
    ∃ g version, Captures name change w ops b g version ∧ g.name = some name ∧
      (change b).writeBack g ∈ getAllGroceries (run (sessionStep name change) w ops).db ∧
      (w.api.version < version →
        ∃ row, ApiState.SameButImage ((change a).writeBack row) g) := by
  have hcalls := calls_eraseVersion hw hread
  obtain ⟨va, vb, htwo⟩ := hops.twoSessions hcalls
  have h0 : Tracks name change w ⟨w.api.history name, fun _ => none⟩ := ⟨hw, rfl, by simp⟩
  obtain ⟨hreads, htracks⟩ := run_calls_related_along (fun _ _ op h hop => h.step op hop) h0
    (htwo.along_writes hab (writeBack change) ⟨w.api.history name, fun _ => none⟩)
  obtain ⟨xa, xb, hhistory, hxb⟩ :=
    run_twoSessions htwo hab (getLast?_of_eraseVersion hcalls hlast) hreads
  rw [htracks.history] at hhistory
  obtain ⟨g, row, hcaptures, hname, hsame, hrow⟩ := captures_of_mem_calls hw htwo.mem_read
  -- the value that `b` has read is the captured row
  obtain rfl : xb = some row := by
    have hlt := (List.getElem?_eq_some_iff.mp hxb).1
    rw [hhistory, List.append_cons, List.getElem?_append_left hlt, hxb] at hrow
    exact Option.some.inj hrow
  have hlisted : listedRow (run (sessionStep name change) w ops).db name =
      some ((change b).writeBack g) := by
    have hget : ((run (sessionStep name change) w ops).api.history name).getLast? = _ :=
      ApiState.getLast?_history
    rw [hhistory, List.append_cons, List.getLast?_concat] at hget
    rw [← Change.writeBack_congr _ hsame]
    exact (Option.some.inj hget).symm
  refine ⟨g, vb, hcaptures, hname, (mem_of_listedRow hlisted).1, fun hlater => ?_⟩
  have hread' : some row = writeBack change a xa :=
    eq_of_read hxb (by rw [ApiState.length_history]; exact hlater)
  obtain ⟨row', -, rfl⟩ := Option.map_eq_some_iff.mp hread'.symm
  exact ⟨row', hsame⟩

/-- What is listed when `last` writes after `first`: the changes of `last`, and otherwise the form
fields of the row as `last` captured it. Form fields that `first` changed survive if that row was
decoded from a later state than the one the sessions start in, so after the write of `first`. -/
structure LastDecides (name : String) (change : Client → Change) (w : World Client)
    (ops : List (SessionOp Client)) (first last : Client) (row : GroceryVO) : Prop where
  last_write : (ops.filter (·.isSession)).getLast? = some (.write last)
  changed : (change last).HeldBy row
  captured : ∃ g version, Captures name change w ops last g version ∧
    ApiState.SameButImage ((change last).writeBack g) row ∧
    (w.api.version < version → (∀ url, change first ≠ .image url) → (change first).HeldBy row)

theorem listed_lastDecides {first last : Client} {ops : List (SessionOp Client)}
    (hw : w.api.Consistent) (hne : first ≠ last) (hdisj : (change first).Disjoint (change last))
    (hops : Interleaves first last ops)
    (hread : Along (sessionStep name change) (ReadsShown name) w ops)
    (hlast : (ops.filter (·.isSession)).getLast? = some (.write last)) :
    ∃ row ∈ getAllGroceries (run (sessionStep name change) w ops).db, row.name = some name ∧
      LastDecides name change w ops first last row := by
  obtain ⟨g, version, hcaptures, hname, hmem, hlater⟩ :=
    listed_writeBack hw hne hops hread hlast
  refine ⟨_, hmem, Change.writeBack_name hname, hlast, Change.heldBy_writeBack _ _, g, version,
    hcaptures, .refl _, fun hversion hform => ?_⟩
  obtain ⟨row, hsame⟩ := hlater hversion
  exact ((Change.heldBy_writeBack (change first) row).congr hsame hform).writeBack hdisj hform

/-- **The last write decides.** In every reachable world and for every schedule of two sessions
that change no field in common, with snapshots in between that lag behind as they may and every
session starting at a row that the client's list shows under the name: a row is listed under the
name, and it is what the client that wrote last makes of the row it captured. -/
theorem last_write_decides (es : List (ClientEvent Client)) (name : String) (a b : Client)
    (change : Client → Change) (ops : List (SessionOp Client)) (hab : a ≠ b)
    (hdisj : (change a).Disjoint (change b)) (hops : Interleaves a b ops)
    (hread : Along (sessionStep name change) (ReadsShown name) (run step {} es) ops) :
    ∃ row ∈ getAllGroceries (run (sessionStep name change) (run step {} es) ops).db,
      row.name = some name ∧
        (LastDecides name change (run step {} es) ops a b row ∨
          LastDecides name change (run step {} es) ops b a row) := by
  have hlast : (ops.filter (·.isSession)).getLast? = some (.write a) ∨
      (ops.filter (·.isSession)).getLast? = some (.write b) := hops.getLast?
  rcases hlast with hlast | hlast
  · obtain ⟨row, hrow, hname, hdecides⟩ :=
      listed_lastDecides (consistent es) hab.symm hdisj.symm hops.symm hread hlast
    exact ⟨row, hrow, hname, .inr hdecides⟩
  · obtain ⟨row, hrow, hname, hdecides⟩ :=
      listed_lastDecides (consistent es) hab hdisj hops hread hlast
    exact ⟨row, hrow, hname, .inl hdecides⟩

/-- After two sessions that change no field in common every changed field holds the value of the
client that changed it. -/
def NoLostUpdate (Client : Type) [DecidableEq Client] : Prop :=
  ∀ (es : List (ClientEvent Client)) (name : String) (a b : Client) (change : Client → Change)
    (ops : List (SessionOp Client)), a ≠ b → (change a).Disjoint (change b) →
    Interleaves a b ops →
    Along (sessionStep name change) (ReadsShown name) (run step {} es) ops →
    ∃ row ∈ getAllGroceries (run (sessionStep name change) (run step {} es) ops).db,
      row.name = some name ∧ (change a).HeldBy row ∧ (change b).HeldBy row

/-- Milk is saved and both clients list it. -/
def milkOnLists : List (ClientEvent ℕ) :=
  [.editForm 0 "milk" "fresh" "2", .tapAddGrocery 0, .snapshot 0, .snapshot 1]

/-- Client 0 uploads an image, the others change the amount. -/
def imageAndAmount (c : ℕ) : Change :=
  if c = 0 then .image "https://storage/milk.jpg" else .form none (some "3")

/-- The image is chosen, the amount is changed and listed, the upload completes. -/
def amountDuringUpload : List (SessionOp ℕ) := [.read 0, .read 1, .write 1, .look 0 0, .write 0]

theorem imageAndAmount_disjoint : (imageAndAmount 0).Disjoint (imageAndAmount 1) := by
  rintro (_ | _ | _) ⟨h, h'⟩
  · exact h
  · exact h
  · exact h'

theorem amountDuringUpload_interleaves : Interleaves 0 1 amountDuringUpload :=
  .left (.right (.right (.left .nil)))

theorem amountDuringUpload_readsShown : Along (sessionStep "milk" imageAndAmount)
    (ReadsShown "milk") (run step {} milkOnLists) amountDuringUpload := by decide

theorem last_write_decides_amountDuringUpload :
    ∃ row ∈ getAllGroceries
        (run (sessionStep "milk" imageAndAmount) (run step {} milkOnLists) amountDuringUpload).db,
      row.name = some "milk" ∧
        (LastDecides "milk" imageAndAmount (run step {} milkOnLists) amountDuringUpload 0 1 row ∨
          LastDecides "milk" imageAndAmount (run step {} milkOnLists) amountDuringUpload 1 0 row) :=
  last_write_decides milkOnLists "milk" 0 1 imageAndAmount amountDuringUpload (by decide)
    imageAndAmount_disjoint amountDuringUpload_interleaves amountDuringUpload_readsShown

/-- The upload writes back the amount it captured, and the new amount is lost. -/
theorem noLostUpdate_fails : ¬ NoLostUpdate ℕ := by
  intro h
  have hlost : ¬ ∃ row ∈ getAllGroceries
        (run (sessionStep "milk" imageAndAmount) (run step {} milkOnLists) amountDuringUpload).db,
      row.name = some "milk" ∧ (imageAndAmount 0).HeldBy row ∧
        (imageAndAmount 1).HeldBy row := by decide
  exact hlost (h milkOnLists "milk" 0 1 imageAndAmount amountDuringUpload (by decide)
    imageAndAmount_disjoint amountDuringUpload_interleaves amountDuringUpload_readsShown)

end World

end GroceryApp
