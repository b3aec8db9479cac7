import GroceryApp.Lib.Runs
import GroceryApp.Network.CloudFireStore

/-!
# The snapshot listener of the grocery list

`GroceryViewModel.init` registers a listener through the model and the API. The closure of the API
hands every event to `success`: an error has no snapshot, so it becomes an empty list, and `failure`
is never called (`keepsList_iff`). The registration is dropped and never removed, so there is one
active listener for every view model that was ever built (`listeners_run`).
-/

namespace GroceryApp

open CloudFireStore Runs

/-- What Firestore hands to a listener. -/
inductive SnapshotEvent where
  | snapshot (documents : List Firestore.QueryDocumentSnapshot)
  | error (message : String)

namespace SnapshotEvent

def documents? : SnapshotEvent → Option (List Firestore.QueryDocumentSnapshot)
  | snapshot documents => some documents
  | error _ => none

def message? : SnapshotEvent → Option String
  | snapshot _ => none
  | error message => some message

end SnapshotEvent

/-! ## The three layers -/

section Layers

variable {σ : Type} (success : List GroceryVO → σ → σ) (failure : String → σ → σ)

/-- The listener that `getAllGroceries` registers: `failure` is not called. -/
def CloudFireStore.onEvent (success : List GroceryVO → σ → σ) (_failure : String → σ → σ)
    (event : SnapshotEvent) : σ → σ :=
  success (snapshotListener event.documents? event.message?)

/-- `GroceryModelImpl.getAllGroceries`. -/
def GroceryModelImpl.onEvent : SnapshotEvent → σ → σ := CloudFireStore.onEvent success failure

end Layers

/-- The list of a view model and what its failure closure has printed. -/
structure GroceryList where
  groceries : List GroceryVO := []
  printed : List String := []

/-- An event at the listener of `GroceryViewModel.init`. -/
def GroceryList.onEvent (list : GroceryList) (event : SnapshotEvent) : GroceryList :=
  GroceryModelImpl.onEvent (fun groceries list => { list with groceries })
    (fun error list => { list with printed := list.printed ++ [error] }) event list

namespace GroceryList

/-- The documents of the last snapshot received. -/
def lastSnapshot (events : List SnapshotEvent) : List Firestore.QueryDocumentSnapshot :=
  (events.filterMap (·.documents?)).getLast?.getD []

/-- The list is that of the last snapshot. -/
def ShowsLastSnapshot (events : List SnapshotEvent) : Prop :=
  (run onEvent {} events).groceries =
    (lastSnapshot events).map fun document => readDocument document.2

/-- The failure closure was called once for each error. -/
def ReportsErrors (events : List SnapshotEvent) : Prop :=
  (run onEvent {} events).printed = events.filterMap (·.message?)

theorem onEvent_groceries (list : GroceryList) (event : SnapshotEvent) :
    (list.onEvent event).groceries =
      (event.documents?.getD []).map fun document => readDocument document.2 := rfl

theorem printed_run (list : GroceryList) (events : List SnapshotEvent) :
    (run onEvent list events).printed = list.printed := by
  induction events generalizing list with
  | nil => rfl
  | cons event events ih => exact ih _

theorem lastSnapshot_concat (events : List SnapshotEvent) (event : SnapshotEvent) :
    lastSnapshot (events ++ [event]) = event.documents?.getD (lastSnapshot events) := by
  unfold lastSnapshot
  rw [List.filterMap_append]
  cases event with
  | snapshot documents => simp [SnapshotEvent.documents?]
  | error message => simp [SnapshotEvent.documents?]

/-- After an event the list is that of the last snapshot, unless it was an error after a snapshot
with documents. -/
theorem showsLastSnapshot_concat_iff (events : List SnapshotEvent) (event : SnapshotEvent) :
    ShowsLastSnapshot (events ++ [event]) ↔
      (event.documents? = none → lastSnapshot events = []) := by
  unfold ShowsLastSnapshot
  rw [run_concat, onEvent_groceries, lastSnapshot_concat]
  cases event with
  | snapshot documents => simp [SnapshotEvent.documents?]
  | error message =>
    show [] = (lastSnapshot events).map _ ↔ (none = none → _)
    rw [eq_comm, List.map_eq_nil_iff]
    exact ⟨fun h _ => h, fun h => h rfl⟩

/-- The list is that of the last snapshot throughout the run exactly if errors come only while the
last snapshot has no documents. -/
theorem showsLastSnapshot_iff (events : List SnapshotEvent) :
    (∀ received, received <+: events → ShowsLastSnapshot received) ↔
      ∀ received message, received ++ [.error message] <+: events → lastSnapshot received = [] := by
  constructor
  · intro h received message hpre
    exact (showsLastSnapshot_concat_iff received _).mp (h _ hpre) rfl
  · intro h received hpre
    rcases List.eq_nil_or_concat received with rfl | ⟨received, event, rfl⟩
    · rfl
    · rw [List.concat_eq_append] at hpre ⊢
      refine (showsLastSnapshot_concat_iff received event).mpr fun hnone => ?_
      cases event with
      | snapshot documents => cases hnone
      | error message => exact h received message hpre

/-- The errors are reported exactly if there are none. -/
theorem reportsErrors_iff (events : List SnapshotEvent) :
    ReportsErrors events ↔ ∀ message, .error message ∉ events := by
  unfold ReportsErrors
  rw [printed_run, eq_comm, List.filterMap_eq_nil_iff]
  constructor
  · intro h message hmem
    cases h _ hmem
  · intro h event hmem
    cases event with
    | snapshot documents => rfl
    | error message => exact absurd hmem (h message)

/-- For every sequence of events: after every prefix the list is that of the last snapshot and the
failure closure has been called once for each error, exactly if the sequence has no error. -/
theorem keepsList_iff (events : List SnapshotEvent) :
    (∀ received, received <+: events → ShowsLastSnapshot received ∧ ReportsErrors received) ↔
      ∀ message, .error message ∉ events := by
  constructor
  · intro h
    exact (reportsErrors_iff events).mp (h events List.prefix_rfl).2
  · intro h received hpre
    have hnone : ∀ message, .error message ∉ received :=
      fun message hmem => h message (hpre.subset hmem)
    refine ⟨?_, (reportsErrors_iff received).mpr hnone⟩
    refine (showsLastSnapshot_iff received).mpr ?_ received List.prefix_rfl
    intro received' message hpre'
    exact absurd (hpre'.subset (by simp)) (hnone message)

/-- Milk is listed, then the listener meets an error: the list is empty. -/
theorem keepsList_fails : ¬ ∀ events received : List SnapshotEvent, received <+: events →
    ShowsLastSnapshot received ∧ ReportsErrors received := by
  intro h
  have hshows := (h _
    ([.snapshot [⟨groceryRef "milk", groceryDictionary { name := some "milk" }⟩]] ++
      [.error "permission denied"]) List.prefix_rfl).1
  have hempty := (showsLastSnapshot_concat_iff _ _).mp hshows rfl
  cases hempty

end GroceryList

/-! ## The life of a listener -/

/-- The view models built so far, `none` once deallocated, and the active listeners, each with the
view model its closure refers to. -/
structure Subscriptions where
  viewModels : List (Option GroceryList) := []
  listeners : List ℕ := []

/-- Evaluating the body of `LoginView` or `GroceryApp` builds a `ContentView` and its view model. -/
inductive LifeEvent where
  | evaluateBody
  | deallocate (viewModel : ℕ)
  | deliver (listener : ℕ) (event : SnapshotEvent)

def LifeEvent.isEvaluateBody : LifeEvent → Bool
  | evaluateBody => true
  | _ => false

namespace Subscriptions

def step (s : Subscriptions) : LifeEvent → Subscriptions
  | .evaluateBody =>
    { viewModels := s.viewModels ++ [some {}], listeners := s.listeners ++ [s.viewModels.length] }
  | .deallocate viewModel => { s with viewModels := s.viewModels.set viewModel none }
  | .deliver listener event =>
    match s.listeners[listener]? with
    | none => s
    | some viewModel =>
      -- the closure holds the view model weakly
      { s with viewModels :=
          s.viewModels.modify viewModel (Option.map fun list => list.onEvent event) }

def Alive (s : Subscriptions) (viewModel : ℕ) : Prop := s.viewModels[viewModel]?.join.isSome = true

instance (s : Subscriptions) (viewModel : ℕ) : Decidable (s.Alive viewModel) :=
  inferInstanceAs (Decidable (s.viewModels[viewModel]?.join.isSome = true))

def numAlive (s : Subscriptions) : ℕ := s.viewModels.countP Option.isSome

/-- The event deallocates no view model. -/
def DeallocatesNone (s : Subscriptions) (e : LifeEvent) : Prop :=
  ∀ viewModel, e = .deallocate viewModel → ¬ s.Alive viewModel

/-- Every active listener belongs to a live view model. -/
def NoneOutlives (s : Subscriptions) : Prop := ∀ viewModel ∈ s.listeners, s.Alive viewModel

variable {s : Subscriptions} {e : LifeEvent}

theorem length_viewModels_step (s : Subscriptions) (e : LifeEvent) :
    (s.step e).viewModels.length = s.viewModels.length + [e].countP (·.isEvaluateBody) := by
  cases e with
  | evaluateBody => exact List.length_append
  | deallocate viewModel => exact List.length_set
  | deliver listener event =>
    unfold step
    dsimp only
    split
    · rfl
    · exact List.length_modify ..

theorem length_viewModels_run (s : Subscriptions) (es : List LifeEvent) :
    (run step s es).viewModels.length = s.viewModels.length + es.countP (·.isEvaluateBody) := by
  induction es generalizing s with
  | nil => rfl
  | cons e es ih =>
    rw [run_cons, ih, length_viewModels_step, Nat.add_assoc, ← List.countP_append,
      List.singleton_append]

/-- Every view model that is built registers one listener, and no listener is ever removed. -/
theorem listeners_step (h : s.listeners = List.range s.viewModels.length) :
    (s.step e).listeners = List.range (s.step e).viewModels.length := by
  cases e with
  | evaluateBody =>
    rw [length_viewModels_step]
    show s.listeners ++ [s.viewModels.length] = List.range (s.viewModels.length + 1)
    rw [h, List.range_succ]
  | deallocate viewModel =>
    show s.listeners = List.range (s.viewModels.set viewModel none).length
    rw [h, List.length_set]
  | deliver listener event =>
    unfold step
    dsimp only
    split
    · exact h
    · rw [List.length_modify]
      exact h

theorem alive_iff {viewModel : ℕ} :
    s.Alive viewModel ↔ ∃ list, s.viewModels[viewModel]? = some (some list) := by
  unfold Alive
  rw [Option.isSome_iff_exists]
  simp only [Option.join_eq_some_iff]

theorem none_mem_modify_iff {α : Type} (l : List (Option α)) (i : ℕ) (f : α → α) :
    none ∈ l.modify i (Option.map f) ↔ none ∈ l := by
  rw [List.mem_iff_getElem?, List.mem_iff_getElem?]
  refine exists_congr fun j => ?_
  rw [List.getElem?_modify]
  rcases l[j]? with _ | _ | a
  · simp
  · split_ifs <;> simp
  · split_ifs <;> simp

/-- All view models are alive after a step exactly if they were and the step deallocates none. -/
theorem none_notMem_step_iff (s : Subscriptions) (e : LifeEvent) :
    none ∉ (s.step e).viewModels ↔ none ∉ s.viewModels ∧ s.DeallocatesNone e := by
  cases e with
  | evaluateBody =>
    have hnone : s.DeallocatesNone .evaluateBody := fun viewModel he => by cases he
    simp [step, hnone]
  | deallocate viewModel =>
    show none ∉ s.viewModels.set viewModel none ↔ _
    have hnone : s.DeallocatesNone (.deallocate viewModel) ↔ ¬ s.Alive viewModel := by
      simp [DeallocatesNone]
    rw [hnone]
    rcases Nat.lt_or_ge viewModel s.viewModels.length with hlt | hle
    · refine iff_of_false (not_not.mpr (List.mem_set hlt none)) ?_
      rintro ⟨hall, hdead⟩
      refine hdead (alive_iff.mpr ?_)
      rcases hget : s.viewModels[viewModel]? with _ | _ | list
      · simp [hlt] at hget
      · exact absurd (List.mem_of_getElem? hget) hall
      · exact ⟨list, rfl⟩
    · rw [List.set_eq_of_length_le hle]
      refine (and_iff_left ?_).symm
      rw [alive_iff]
      simp [hle]
  | deliver listener event =>
    have hnone : s.DeallocatesNone (.deliver listener event) := fun viewModel he => by cases he
    unfold step
    dsimp only
    split
    · rw [and_iff_left hnone]
    · rw [and_iff_left hnone]
      exact not_congr (none_mem_modify_iff _ _ _)

/-- The active listeners belong to live view models exactly if all view models are alive. -/
theorem noneOutlives_iff (h : s.listeners = List.range s.viewModels.length) :
    s.NoneOutlives ↔ none ∉ s.viewModels := by
  unfold NoneOutlives
  simp only [h, List.mem_range, alive_iff]
  constructor
  · intro halive hnone
    obtain ⟨viewModel, hlt, hget⟩ := List.getElem_of_mem hnone
    obtain ⟨list, hlist⟩ := halive viewModel hlt
    simp [hlt, hget] at hlist
  · intro hnone viewModel hlt
    rcases hget : s.viewModels[viewModel] with _ | list
    · exact absurd (hget ▸ List.getElem_mem hlt) hnone
    · exact ⟨list, by rw [List.getElem?_eq_getElem hlt, hget]⟩

theorem length_listeners_le_iff (h : s.listeners = List.range s.viewModels.length) :
    s.listeners.length ≤ s.numAlive ↔ none ∉ s.viewModels := by
  have hle : s.numAlive ≤ s.viewModels.length := List.countP_le_length
  have heq : s.listeners.length ≤ s.numAlive ↔ s.numAlive = s.viewModels.length := by
    rw [h, List.length_range]
    omega
  rw [heq, numAlive, List.countP_eq_length]
  constructor
  · intro hall hnone
    cases hall none hnone
  · intro hnone list hlist
    cases list with
    | none => exact absurd hlist hnone
    | some list => rfl

/-- After every run there is one active listener for each view model that was built. They belong to
live view models, and are no more than those, exactly if the run has deallocated none. -/
theorem listeners_run (es : List LifeEvent) :
    let s := run step ({} : Subscriptions) es
    s.listeners = List.range (es.countP (·.isEvaluateBody)) ∧
    (s.NoneOutlives ↔ Along step DeallocatesNone {} es) ∧
    (s.listeners.length ≤ s.numAlive ↔ Along step DeallocatesNone {} es) := by
  intro s
  have hlisteners : s.listeners = List.range s.viewModels.length :=
    run_invariant (I := fun s : Subscriptions => s.listeners = List.range s.viewModels.length)
      (fun _ _ => listeners_step) rfl es
  have hlength : s.viewModels.length = es.countP (·.isEvaluateBody) := by
    rw [length_viewModels_run]
    exact Nat.zero_add _
  have hall : none ∉ s.viewModels ↔ Along step DeallocatesNone {} es := by
    rw [run_iff_along (I := fun s : Subscriptions => none ∉ s.viewModels) none_notMem_step_iff]
    exact and_iff_right List.not_mem_nil
  exact ⟨hlength ▸ hlisteners, (noneOutlives_iff hlisteners).trans hall,
    (length_listeners_le_iff hlisteners).trans hall⟩

/-- A view model is built and dropped: its listener is still active. -/
theorem noneOutlives_fails :
    ¬ ∀ es : List LifeEvent, (run step ({} : Subscriptions) es).NoneOutlives := by
  intro h
  have halive := h [.evaluateBody, .deallocate 0] 0 (by decide)
  exact absurd halive (by decide)

end Subscriptions

end GroceryApp
