import GroceryApp.FirestoreCore.EventManager
import GroceryApp.FirestoreCore.QuerySnapshot

/-!
# What a listener hears

A listener gets the snapshots of the view one after the other, each telling what became of the
documents since the one before (`Follows`), but not all of them are raised. There are several ways
to keep up with what is raised: to take the documents of each snapshot, to replay its changes, or,
for a listener that asks for all metadata, to take the documents with their metadata (`KeepsUp`).
Whoever does so has at all times what the last snapshot of the view says (`onViewSnapshot_spec`).
-/

namespace GroceryApp.FirestoreCore

open Firestore (QueryDocumentSnapshot)

/-! ## From one snapshot to the next -/

namespace ViewSnapshot

/-- There is something to tell. -/
def Changed (snapshot : ViewSnapshot) : Prop :=
  snapshot.documentChanges.isEmpty = false ∨ snapshot.syncStateChanged = true

/-- The snapshot is told to those who had `old`. -/
structure Follows (snapshot old : ViewSnapshot) : Prop where
  oldDocuments : snapshot.oldDocuments = old.documents
  tells : Tells snapshot.oldDocuments snapshot.documents snapshot.documentChanges
  unchanged : snapshot.documentChanges = [] →
    snapshot.documents = old.documents ∧ snapshot.mutatedKeys = old.mutatedKeys
  fromCache : snapshot.syncStateChanged = false → snapshot.fromCache = old.fromCache

/-- The snapshot is what the view shows. -/
structure IsOf (snapshot : ViewSnapshot) (view : View) : Prop where
  documents : snapshot.documents = view.documentSet
  mutatedKeys : snapshot.mutatedKeys = view.mutatedKeys
  fromCache : snapshot.fromCache = decide (view.syncState = .local)

end ViewSnapshot

section Taken

variable {options : ListenOptions} {snapshot old : ViewSnapshot}

@[simp] theorem documents_taken : (options.taken snapshot).documents = snapshot.documents := by
  unfold ListenOptions.taken
  split_ifs <;> rfl

@[simp] theorem oldDocuments_taken :
    (options.taken snapshot).oldDocuments = snapshot.oldDocuments := by
  unfold ListenOptions.taken
  split_ifs <;> rfl

@[simp] theorem syncStateChanged_taken :
    (options.taken snapshot).syncStateChanged = snapshot.syncStateChanged := by
  unfold ListenOptions.taken
  split_ifs <;> rfl

@[simp] theorem metadata_taken : (options.taken snapshot).metadata = snapshot.metadata := by
  unfold ListenOptions.taken
  split_ifs <;> rfl

@[simp] theorem forEachDocument_taken :
    (options.taken snapshot).forEachDocument = snapshot.forEachDocument := by
  unfold ListenOptions.taken
  split_ifs <;> rfl

theorem ViewSnapshot.Follows.tells_taken (h : snapshot.Follows old) (options : ListenOptions) :
    Tells old.documents snapshot.documents (options.taken snapshot).documentChanges := by
  rw [← h.oldDocuments]
  unfold ListenOptions.taken
  split_ifs
  · exact h.tells
  · exact h.tells.filter _ fun change _ hfalse => by simpa using hfalse

end Taken

/-- The first event tells of all documents, to one who has none. -/
theorem tells_fromInitialDocuments (documents : DocumentMap) :
    Tells .empty documents (documents.entries.map fun e => ⟨e.1, e.2, .added⟩) := by
  have hnodup : ((documents.entries.map fun e =>
      (⟨e.1, e.2, .added⟩ : DocumentViewChange)).map (·.key)).Nodup := by
    rw [List.map_map]
    exact SortedMap.nodup_keys
  refine ⟨hnodup, ?_, fun key change h => ?_, fun key h => ?_⟩
  · rw [List.pairwise_map]
    exact documents.sorted.imp fun hlt => .inr ⟨rfl, hlt.le⟩
  · obtain ⟨hmem, rfl⟩ := (changeAt_eq_some_iff hnodup).mp h
    obtain ⟨e, he, rfl⟩ := List.mem_map.mp hmem
    exact ⟨rfl, rfl, SortedMap.mem_entries.mp he⟩
  · cases hfind : documents.find? key with
    | none => rfl
    | some doc =>
      have hsome : changeAt _ key = some ⟨key, doc, .added⟩ := (changeAt_eq_some_iff hnodup).mpr
        ⟨List.mem_map.mpr ⟨(key, doc), SortedMap.mem_entries.mpr hfind, rfl⟩, rfl⟩
      rw [h] at hsome
      cases hsome

/-! ## Ways to keep up -/

/-- A way to keep up with the snapshots a listener raises: after one is heard, `value` of it is kept,
and that of a snapshot that is not raised is what has been kept before. -/
structure KeepsUp {ν : Type} (options : ListenOptions) (hear : Option ν → ViewSnapshot → Option ν)
    (value : ViewSnapshot → ν) : Prop where
  taken : ∀ snapshot, value (options.taken snapshot) = value snapshot
  first : ∀ snapshot, hear none (QueryListener.initialEvent snapshot) = some (value snapshot)
  next : ∀ snapshot old, snapshot.Follows old →
    hear (some (value old)) (options.taken snapshot) = some (value snapshot)
  silent : ∀ snapshot old, snapshot.Follows old → (options.taken snapshot).documentChanges = [] →
    (snapshot.syncStateChanged = true → options.includeQueryMetadataChanges = false) →
    value snapshot = value old

/-- The documents of the snapshot are taken as they are. -/
def takeDocuments (_ : Option (List QueryDocumentSnapshot)) (snapshot : ViewSnapshot) :
    Option (List QueryDocumentSnapshot) := some (contents snapshot.documents)

/-- The changes of the snapshot are replayed at their places on the list. -/
def replayChanges (list : Option (List QueryDocumentSnapshot)) (snapshot : ViewSnapshot) :
    Option (List QueryDocumentSnapshot) :=
  (snapshot.forEachChange false).toOption.map fun changes =>
    changes.foldl DocumentChange.replay (list.getD [])

/-- The metadata of a snapshot, and its documents with theirs. -/
abbrev ListMetadata := SnapshotMetadata × List (QueryDocumentSnapshot × SnapshotMetadata)

/-- The documents are taken with their metadata, and with those of the snapshot. -/
def takeMetadata (_ : Option ListMetadata) (snapshot : ViewSnapshot) : Option ListMetadata :=
  some (snapshot.metadata, snapshot.forEachDocument)

theorem ViewSnapshot.Follows.contents_eq {options : ListenOptions} {snapshot old : ViewSnapshot}
    (h : snapshot.Follows old) (hnil : (options.taken snapshot).documentChanges = []) :
    contents snapshot.documents = contents old.documents := by
  have htells := h.tells_taken options
  rw [hnil] at htells
  exact contents_congr htells.of_nil

theorem keepsUp_takeDocuments (options : ListenOptions) :
    KeepsUp options takeDocuments fun snapshot => contents snapshot.documents where
  taken snapshot := by rw [documents_taken]
  first _ := rfl
  next snapshot old _ := by
    unfold takeDocuments
    rw [documents_taken]
  silent _ _ h hnil _ := h.contents_eq hnil

theorem replayChanges_of_tells {list : Option (List QueryDocumentSnapshot)} {snapshot : ViewSnapshot}
    (htells : Tells snapshot.oldDocuments snapshot.documents snapshot.documentChanges)
    (hlist : list.getD [] = contents snapshot.oldDocuments) :
    replayChanges list snapshot = some (contents snapshot.documents) := by
  obtain ⟨changes, hok, hcontents⟩ := forEachChange_replays snapshot htells
  unfold replayChanges
  rw [hok, hlist, ← hcontents]
  rfl

theorem keepsUp_replayChanges (options : ListenOptions) :
    KeepsUp options replayChanges fun snapshot => contents snapshot.documents where
  taken snapshot := by rw [documents_taken]
  first snapshot := replayChanges_of_tells (tells_fromInitialDocuments snapshot.documents) rfl
  next snapshot old h := by
    rw [show snapshot.documents = (options.taken snapshot).documents from documents_taken.symm]
    apply replayChanges_of_tells
    · rw [documents_taken, oldDocuments_taken, h.oldDocuments]
      exact h.tells_taken options
    · rw [oldDocuments_taken, h.oldDocuments]
      rfl
  silent _ _ h hnil _ := h.contents_eq hnil

theorem keepsUp_takeMetadata {options : ListenOptions}
    (hquery : options.includeQueryMetadataChanges = true)
    (hdocument : options.includeDocumentMetadataChanges = true) :
    KeepsUp options takeMetadata
      fun snapshot => (snapshot.metadata, snapshot.forEachDocument) where
  taken snapshot := by rw [metadata_taken, forEachDocument_taken]
  first _ := rfl
  next snapshot old _ := by
    unfold takeMetadata
    rw [metadata_taken, forEachDocument_taken]
  silent snapshot old h hnil hsync := by
    unfold ListenOptions.taken at hnil
    rw [if_pos hdocument] at hnil
    obtain ⟨hdocuments, hmutated⟩ := h.unchanged hnil
    have hcache := h.fromCache (by
      rw [← Bool.not_eq_true]
      intro hchanged
      rw [hsync hchanged] at hquery
      cases hquery)
    unfold ViewSnapshot.metadata ViewSnapshot.hasPendingWrites ViewSnapshot.forEachDocument
      ViewSnapshot.metadataOf
    rw [hdocuments, hmutated, hcache]

/-! ## One listener -/

namespace QueryListener

variable {listener : QueryListener} {snapshot : ViewSnapshot} {onlineState : OnlineState}

/-- What one who keeps up with the listener has. -/
def kept {ν : Type} (listener : QueryListener) (value : ViewSnapshot → ν) : Option ν :=
  if listener.raisedInitialEvent then listener.snapshot.map value else none

/-- The listener has got the snapshot, and has raised it unless it should not. -/
structure Current (listener : QueryListener) (snapshot : ViewSnapshot)
    (onlineState : OnlineState) : Prop where
  online : listener.onlineState = onlineState
  taken : listener.snapshot = some (listener.options.taken snapshot)
  waits : listener.raisedInitialEvent = false →
    listener.shouldRaiseInitialEvent (listener.options.taken snapshot) onlineState = false

theorem Current.kept_eq (h : listener.Current snapshot onlineState)
    (hraised : listener.raisedInitialEvent = true) {ν : Type}
    {hear : Option ν → ViewSnapshot → Option ν} {value : ViewSnapshot → ν}
    (hkeeps : KeepsUp listener.options hear value) :
    listener.kept value = some (value snapshot) := by
  unfold kept
  rw [if_pos hraised, h.taken, Option.map_some, hkeeps.taken]

/-- A listener keeps its options, and who keeps up with `event` has what it has. -/
def Raises (listener listener' : QueryListener) (event : Option ViewSnapshot) : Prop :=
  listener'.options = listener.options ∧ ∀ (ν : Type) (hear : Option ν → ViewSnapshot → Option ν)
    (value : ViewSnapshot → ν), KeepsUp listener.options hear value →
      event.toList.foldl hear (listener.kept value) = listener'.kept value

/-- The next snapshot is raised if the listener has something new to hand on. -/
theorem onViewSnapshot_spec (listener : QueryListener) (hchanged : snapshot.Changed)
    (hold : listener.raisedInitialEvent = true → ∃ old,
      listener.snapshot = some (listener.options.taken old) ∧ snapshot.Follows old) :
    ∃ listener' event, listener.onViewSnapshot snapshot = .ok (listener', event) ∧
      listener.Raises listener' event ∧ listener'.Current snapshot listener.onlineState := by
  unfold onViewSnapshot
  rw [if_neg (by rcases hchanged with h | h <;> simp [h])]
  by_cases hraised : listener.raisedInitialEvent = true
  · obtain ⟨old, hsnapshot, hfollows⟩ := hold hraised
    rw [if_neg (by simp [hraised])]
    have hcurrent : Current { listener with snapshot := some (listener.options.taken snapshot) }
        snapshot listener.onlineState := ⟨rfl, rfl, fun h => by
      rw [show listener.raisedInitialEvent = false from h] at hraised
      cases hraised⟩
    have hkept : ∀ (ν : Type) (hear : Option ν → ViewSnapshot → Option ν) (value : ViewSnapshot → ν),
        KeepsUp listener.options hear value → listener.kept value = some (value old) := by
      intro ν hear value hkeeps
      unfold kept
      rw [if_pos hraised, hsnapshot, Option.map_some, hkeeps.taken]
    by_cases hraise : listener.shouldRaiseEvent (listener.options.taken snapshot) = true
    · rw [if_pos hraise]
      refine ⟨_, _, rfl, ⟨rfl, fun ν hear value hkeeps => ?_⟩, hcurrent⟩
      rw [hcurrent.kept_eq hraised hkeeps, hkept ν hear value hkeeps]
      exact hkeeps.next snapshot old hfollows
    · rw [if_neg hraise]
      refine ⟨_, _, rfl, ⟨rfl, fun ν hear value hkeeps => ?_⟩, hcurrent⟩
      rw [hcurrent.kept_eq hraised hkeeps, hkept ν hear value hkeeps]
      unfold shouldRaiseEvent at hraise
      have hnil : (listener.options.taken snapshot).documentChanges = [] := by
        by_contra hne
        rw [if_pos (by simpa using hne)] at hraise
        exact hraise rfl
      refine congrArg some (hkeeps.silent snapshot old hfollows hnil fun hsync => ?_).symm
      rw [if_neg (by simp [hnil]), if_pos (by rw [syncStateChanged_taken, hsync]; rfl)] at hraise
      exact Bool.not_eq_true _ ▸ hraise
  · have hnone : ∀ {ν : Type} (value : ViewSnapshot → ν), listener.kept value = none :=
      fun value => if_neg hraised
    rw [if_pos (by simpa using hraised)]
    by_cases hraise : listener.shouldRaiseInitialEvent (listener.options.taken snapshot)
        listener.onlineState = true
    · rw [if_pos hraise]
      refine ⟨_, _, rfl, ⟨rfl, fun ν hear value hkeeps => ?_⟩, rfl, rfl, fun h => by cases h⟩
      rw [hnone]
      exact hkeeps.first _
    · rw [if_neg hraise]
      refine ⟨_, _, rfl, ⟨rfl, fun ν hear value hkeeps => ?_⟩, rfl, rfl, fun _ => ?_⟩
      · rw [hnone]
        exact (if_neg hraised).symm
      · exact Bool.not_eq_true _ ▸ hraise

/-- When the client goes online or offline a listener that has waited may raise what there is. -/
theorem Current.onlineStateChanged (h : listener.Current snapshot onlineState)
    (onlineState' : OnlineState) :
    listener.Raises (listener.onOnlineStateChanged onlineState').1
        (listener.onOnlineStateChanged onlineState').2 ∧
      (listener.onOnlineStateChanged onlineState').1.Current snapshot onlineState' := by
  obtain ⟨options, onlineState₀, raised, stored⟩ := listener
  obtain rfl : stored = some (options.taken snapshot) := h.taken
  unfold onOnlineStateChanged
  simp only
  split_ifs with hraise
  · rw [Bool.and_eq_true, Bool.not_eq_true'] at hraise
    obtain ⟨rfl, -⟩ := hraise
    exact ⟨⟨rfl, fun ν hear value hkeeps => hkeeps.first _⟩, rfl, rfl, fun h => by cases h⟩
  · refine ⟨⟨rfl, fun _ _ _ _ => rfl⟩, rfl, rfl, fun h => ?_⟩
    obtain rfl : raised = false := h
    exact Bool.not_eq_true _ ▸ hraise

end QueryListener

end GroceryApp.FirestoreCore
