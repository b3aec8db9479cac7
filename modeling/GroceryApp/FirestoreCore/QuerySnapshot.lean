import GroceryApp.FirestoreCore.SnapshotChanges

/-!
# What the app sees of a snapshot

A snapshot shows the app its documents in order, and the changes since the one before with the place
each changed document had and has. Who removes and inserts documents at these places has the list of
the new snapshot (`forEachChange_replays`), also where only metadata have changed and nothing is
said.
-/

namespace GroceryApp.FirestoreCore

open Firestore (QueryDocumentSnapshot)

/-- What the app is told besides the data: whether writes are pending, and whether they are from the
cache. -/
structure SnapshotMetadata where
  pendingWrites : Bool
  fromCache : Bool
  deriving DecidableEq

/-- What the app is told has become of a document. -/
inductive DocumentChangeType where
  | added
  | modified
  | removed
  deriving DecidableEq, Repr

/-- A change with the places of the document; `npos` is no place. -/
structure DocumentChange where
  type : DocumentChangeType
  document : QueryDocumentSnapshot
  metadata : SnapshotMetadata
  oldIndex : Option ℕ
  newIndex : Option ℕ

/-- How the walk over the changes can fail. -/
inductive SnapshotError where
  | invalidArgument (message : String)
  | assertion (assertion : HardAssert)
  deriving DecidableEq

/-- The app is not told which changes are of metadata only. -/
def documentChangeTypeForChange (change : DocumentViewChange) : DocumentChangeType :=
  match change.type with
  | .added => .added
  | .modified | .metadata => .modified
  | .removed => .removed

/-- The list of documents that the app sees. -/
def contents (documents : DocumentMap) : List QueryDocumentSnapshot :=
  documents.entries.map fun e => ⟨e.1, e.2.data⟩

namespace ViewSnapshot

/-- `QuerySnapshot::metadata`, as the listener's converter builds it. -/
def metadata (snapshot : ViewSnapshot) : SnapshotMetadata :=
  ⟨snapshot.hasPendingWrites, snapshot.fromCache⟩

/-- The metadata of one document of the snapshot. -/
def metadataOf (snapshot : ViewSnapshot) (key : DocumentKey) : SnapshotMetadata :=
  ⟨snapshot.mutatedKeys.contains key, snapshot.fromCache⟩

/-- `QuerySnapshot::ForEachDocument`. -/
def forEachDocument (snapshot : ViewSnapshot) : List (QueryDocumentSnapshot × SnapshotMetadata) :=
  snapshot.documents.entries.map fun e => (⟨e.1, e.2.data⟩, snapshot.metadataOf e.1)

/-- The loop of `ForEachChange` for the first snapshot: the last document and what was called back. -/
def firstChange (snapshot : ViewSnapshot) (state : Option DocumentKey × List DocumentChange)
    (change : DocumentViewChange) : Except SnapshotError (Option DocumentKey × List DocumentChange) :=
  if change.type ≠ .added then .error (.assertion .invalidFirstEvent)
  else if state.1.all fun lastDocument => decide (lastDocument < change.key) then
    .ok (some change.key, state.2 ++ [⟨.added, ⟨change.key, change.document.data⟩,
      snapshot.metadataOf change.key, none, some state.2.length⟩])
  else .error (.assertion .addedInWrongOrder)

/-- The loop of `ForEachChange` for later snapshots: `indexTracker` has the changes so far. -/
def laterChange (snapshot : ViewSnapshot) (includeMetadataChanges : Bool)
    (state : DocumentMap × List DocumentChange) (change : DocumentViewChange) :
    Except SnapshotError (DocumentMap × List DocumentChange) :=
  let (indexTracker, changes) := state
  if !includeMetadataChanges && decide (change.type = .metadata) then .ok state
  else do
    let (oldIndex, indexTracker) ←
      if change.type = .added then pure (none, indexTracker)
      else match indexTracker.indexOf change.key with
        | none => throw (.assertion .indexNotFound)
        | some oldIndex => pure (some oldIndex, indexTracker.erase change.key)
    let (newIndex, indexTracker) :=
      if change.type = .removed then (none, indexTracker)
      else
        let indexTracker := indexTracker.insert change.key change.document
        (indexTracker.indexOf change.key, indexTracker)
    return (indexTracker, changes ++ [⟨documentChangeTypeForChange change,
      ⟨change.key, change.document.data⟩, snapshot.metadataOf change.key, oldIndex, newIndex⟩])

/-- `QuerySnapshot::ForEachChange`. -/
def forEachChange (snapshot : ViewSnapshot) (includeMetadataChanges : Bool) :
    Except SnapshotError (List DocumentChange) :=
  if includeMetadataChanges && snapshot.excludesMetadataChanges then
    .error (.invalidArgument ("To include metadata changes with your document changes, you must "
      ++ "call addSnapshotListener(includeMetadataChanges:true)."))
  else if snapshot.oldDocuments.entries.isEmpty then
    (snapshot.documentChanges.foldlM snapshot.firstChange (none, [])).map Prod.snd
  else
    (snapshot.documentChanges.foldlM (snapshot.laterChange includeMetadataChanges)
      (snapshot.oldDocuments, [])).map Prod.snd

end ViewSnapshot

/-- Removes and inserts the document at its places. -/
def DocumentChange.replay (list : List QueryDocumentSnapshot) (change : DocumentChange) :
    List QueryDocumentSnapshot :=
  let list := match change.oldIndex with
    | some oldIndex => list.eraseIdx oldIndex
    | none => list
  match change.newIndex with
  | some newIndex => list.insertIdx newIndex change.document
  | none => list

theorem contents_eq_of_forall₂ {documents documents' : DocumentMap}
    (h : List.Forall₂ (fun e e' => e.1 = e'.1 ∧ e.2.data = e'.2.data) documents.entries
      documents'.entries) : contents documents = contents documents' := by
  unfold contents
  rw [← List.forall₂_eq_eq_eq, List.forall₂_map_left_iff, List.forall₂_map_right_iff]
  refine h.imp fun e e' he => ?_
  rw [he.1, he.2]

theorem contents_congr {documents documents' : DocumentMap}
    (h : ∀ key, (documents.find? key).map (·.data) = (documents'.find? key).map (·.data)) :
    contents documents = contents documents' := by
  have hkeys : ∀ key, Option.Rel (fun doc doc' : Document => doc.data = doc'.data)
      (documents.find? key) (documents'.find? key) := by
    intro key
    have hkey := h key
    cases hfind : documents.find? key <;> cases hfind' : documents'.find? key <;>
      simp only [hfind, hfind', Option.map_none, Option.map_some, reduceCtorEq] at hkey
    · exact .none
    · exact .some (Option.some.inj hkey)
  exact contents_eq_of_forall₂ (SortedMap.forall₂_entries hkeys)

/-! ## Replaying the changes -/

section Replay

variable {old new : DocumentMap} {change : DocumentViewChange} {changes : List DocumentViewChange}

theorem changeAt_cons (key : DocumentKey) : changeAt (change :: changes) key =
    if change.key = key then some change else changeAt changes key := by
  unfold changeAt
  rw [List.find?_cons]
  by_cases h : change.key = key <;> simp [h]

/-- The rest of the changes tell what becomes of documents that have taken the first one. -/
theorem Tells.tail (h : Tells old new (change :: changes)) {mid : DocumentMap}
    (hself : (new.find? change.key).map (·.data) = (mid.find? change.key).map (·.data))
    (hothers : ∀ key, key ≠ change.key → mid.find? key = old.find? key) :
    Tells mid new changes := by
  obtain ⟨hnew, hnodup⟩ := List.nodup_cons.mp h.nodup
  have hnone : changeAt changes change.key = none := by
    cases hchange : changeAt changes change.key with
    | none => rfl
    | some other =>
      obtain ⟨hmem, hkey⟩ := (changeAt_eq_some_iff hnodup).mp hchange
      refine absurd ?_ hnew
      show change.key ∈ changes.map (·.key)
      rw [← hkey]
      exact List.mem_map_of_mem hmem
  refine ⟨hnodup, (List.pairwise_cons.mp h.sorted).2, fun key other hother => ?_, fun key hkey => ?_⟩
  · have hne : key ≠ change.key := by
      rintro rfl
      rw [hnone] at hother
      cases hother
    rw [hothers key hne]
    refine h.told key other ?_
    rw [changeAt_cons, if_neg hne.symm, hother]
  · by_cases hne : key = change.key
    · rw [hne]
      exact hself
    · rw [hothers key hne]
      refine h.untold key ?_
      rw [changeAt_cons, if_neg (Ne.symm hne), hkey]

theorem Tells.head (h : Tells old new (change :: changes)) :
    Describes change.key (old.find? change.key) (new.find? change.key) (some change) :=
  h.told change.key change (by rw [changeAt_cons, if_pos rfl])

theorem contents_erase {documents : DocumentMap} {key : DocumentKey} {doc : Document}
    (h : documents.find? key = some doc) : ∃ i, documents.indexOf key = some i ∧
      contents (documents.erase key) = (contents documents).eraseIdx i := by
  obtain ⟨i, hi, herase⟩ := SortedMap.entries_erase_at h
  refine ⟨i, hi, ?_⟩
  unfold contents
  rw [herase, List.eraseIdx_map]

theorem contents_insert {documents : DocumentMap} {key : DocumentKey}
    (h : documents.find? key = none) (doc : Document) :
    ∃ i, (documents.insert key doc).indexOf key = some i ∧
      contents (documents.insert key doc) =
        (contents documents).insertIdx i (⟨key, doc.data⟩ : QueryDocumentSnapshot) := by
  obtain ⟨i, hi, hinsert⟩ := SortedMap.entries_insert_at h doc
  refine ⟨i, hi, ?_⟩
  unfold contents
  rw [hinsert, List.map_insertIdx]

/-- A change is found its places, and replayed there it does to a list what it does to the index
tracker. -/
theorem laterChange_spec (snapshot : ViewSnapshot) (h : Tells old new (change :: changes))
    (called : List DocumentChange) :
    ∃ mid called', snapshot.laterChange false (old, called) change = .ok (mid, called ++ called') ∧
      Tells mid new changes ∧ called'.foldl DocumentChange.replay (contents old) = contents mid := by
  have hhead := h.head.2
  unfold ViewSnapshot.laterChange documentChangeTypeForChange
  cases htype : change.type with
  | removed =>
    simp only [htype] at hhead
    obtain ⟨hold, hnew⟩ := hhead
    obtain ⟨doc, hold⟩ := Option.isSome_iff_exists.mp hold
    obtain ⟨i, hi, herase⟩ := contents_erase hold
    refine ⟨old.erase change.key, [⟨.removed, ⟨change.key, change.document.data⟩,
      snapshot.metadataOf change.key, some i, none⟩], ?_, h.tail ?_ ?_, herase.symm⟩
    · simp [hi, bind, Except.bind, pure, Except.pure]
    · rw [hnew, SortedMap.find?_erase_self]
    · exact fun key hkey => SortedMap.find?_erase_of_ne hkey
  | added =>
    simp only [htype] at hhead
    obtain ⟨hold, hnew⟩ := hhead
    obtain ⟨i, hi, hinsert⟩ := contents_insert hold change.document
    refine ⟨old.insert change.key change.document, [⟨.added, ⟨change.key, change.document.data⟩,
      snapshot.metadataOf change.key, none, some i⟩], ?_, h.tail ?_ ?_, hinsert.symm⟩
    · simp [hi, bind, Except.bind, pure, Except.pure]
    · rw [hnew, SortedMap.find?_insert_self]
    · exact fun key hkey => SortedMap.find?_insert_of_ne hkey
  | modified =>
    simp only [htype] at hhead
    obtain ⟨hold, hnew⟩ := hhead
    obtain ⟨doc, hold⟩ := Option.isSome_iff_exists.mp hold
    obtain ⟨i, hi, herase⟩ := contents_erase hold
    obtain ⟨i', hi', hinsert⟩ :=
      contents_insert (SortedMap.find?_erase_self (m := old) (k := change.key)) change.document
    refine ⟨(old.erase change.key).insert change.key change.document, [⟨.modified,
      ⟨change.key, change.document.data⟩, snapshot.metadataOf change.key, some i, some i'⟩], ?_,
      h.tail ?_ ?_, ?_⟩
    · simp [hi, hi', bind, Except.bind, pure, Except.pure]
    · rw [hnew, SortedMap.find?_insert_self]
    · intro key hkey
      rw [SortedMap.find?_insert_of_ne hkey, SortedMap.find?_erase_of_ne hkey]
    · rw [hinsert, herase]
      rfl
  | metadata =>
    simp only [htype] at hhead
    obtain ⟨hold, hnew⟩ := hhead
    refine ⟨old, [], ?_, h.tail ?_ fun _ _ => rfl, rfl⟩
    · simp
    · rw [hold, hnew]
      rfl

theorem foldlM_laterChange (snapshot : ViewSnapshot) (h : Tells old new changes)
    (called : List DocumentChange) :
    ∃ mid called', changes.foldlM (snapshot.laterChange false) (old, called) =
        .ok (mid, called ++ called') ∧
      called'.foldl DocumentChange.replay (contents old) = contents new := by
  induction changes generalizing old called with
  | nil => exact ⟨old, [], by rw [List.append_nil]; rfl, contents_congr fun key =>
      (h.of_nil key).symm⟩
  | cons change changes ih =>
    obtain ⟨mid, called₁, hone, hmid, hcontents⟩ := laterChange_spec snapshot h called
    obtain ⟨last, called₂, hrest, hlast⟩ := ih hmid (called ++ called₁)
    refine ⟨last, called₁ ++ called₂, ?_, ?_⟩
    · rw [List.foldlM_cons, hone, ← List.append_assoc]
      exact hrest
    · rw [List.foldl_append, hcontents, hlast]

theorem Tells.added (h : Tells old new changes) (hmem : change ∈ changes)
    (hnone : old.find? change.key = none) : change.type = .added := by
  have htold := (h.told change.key change ((changeAt_eq_some_iff h.nodup).mpr ⟨hmem, rfl⟩)).2
  rw [hnone] at htold
  cases htype : change.type with
  | added => rfl
  | removed =>
    simp only [htype] at htold
    cases htold.1
  | modified =>
    simp only [htype] at htold
    cases htold.1
  | metadata =>
    simp only [htype] at htold
    cases htold.1

/-- On the first snapshot counting finds the places: each document comes after those before. -/
theorem foldlM_firstChange (snapshot : ViewSnapshot) (h : Tells old new changes)
    (habove : ∀ e ∈ old.entries, ∀ c ∈ changes, e.1 < c.key) (called : List DocumentChange)
    (hlength : called.length = old.entries.length) :
    ∃ last called', changes.foldlM snapshot.firstChange
        (old.entries.getLast?.map Prod.fst, called) = .ok (last, called ++ called') ∧
      called'.foldl DocumentChange.replay (contents old) = contents new := by
  induction changes generalizing old called with
  | nil =>
    exact ⟨_, [], by rw [List.append_nil]; rfl, contents_congr fun key => (h.of_nil key).symm⟩
  | cons change changes ih =>
    have hnone : ∀ c ∈ change :: changes, old.find? c.key = none := by
      intro c hc
      rw [← Option.not_isSome_iff_eq_none]
      intro hsome
      obtain ⟨doc, hdoc⟩ := Option.isSome_iff_exists.mp hsome
      exact lt_irrefl _ (habove _ (SortedMap.mem_entries.mpr hdoc) c hc)
    have hadded : ∀ c ∈ change :: changes, c.type = .added := fun c hc => h.added hc (hnone c hc)
    have hhead := h.head.2
    simp only [hadded change List.mem_cons_self] at hhead
    have hinsert : (old.insert change.key change.document).entries =
        old.entries ++ [(change.key, change.document)] :=
      SortedMap.entries_insert_of_lt fun e he => habove e he change List.mem_cons_self
    set one : DocumentChange := ⟨.added, ⟨change.key, change.document.data⟩,
      snapshot.metadataOf change.key, none, some called.length⟩
    have hone : snapshot.firstChange (old.entries.getLast?.map Prod.fst, called) change =
        .ok ((old.insert change.key change.document).entries.getLast?.map Prod.fst,
          called ++ [one]) := by
      unfold ViewSnapshot.firstChange
      rw [if_neg (not_not.mpr (hadded change List.mem_cons_self)), if_pos]
      · rw [hinsert, List.getLast?_concat]
        rfl
      · rw [Option.all_eq_true]
        intro key hkey
        obtain ⟨e, he, rfl⟩ := Option.map_eq_some_iff.mp hkey
        exact decide_eq_true (habove e (List.mem_of_getLast? he) change List.mem_cons_self)
    have htail : Tells (old.insert change.key change.document) new changes := h.tail
      (by rw [hhead.2, SortedMap.find?_insert_self]) fun key hkey => SortedMap.find?_insert_of_ne hkey
    have hbelow : ∀ e ∈ (old.insert change.key change.document).entries, ∀ c ∈ changes,
        e.1 < c.key := by
      intro e he c hc
      rw [hinsert] at he
      rcases List.mem_append.mp he with he | he
      · exact habove e he c (List.mem_cons_of_mem change hc)
      · rw [List.mem_singleton.mp he]
        have hne : change.key ≠ c.key := fun heq => (List.nodup_cons.mp h.nodup).1
          (show change.key ∈ changes.map (·.key) from heq ▸ List.mem_map_of_mem hc)
        rcases (List.pairwise_cons.mp h.sorted).1 c hc with hlt | ⟨-, hle⟩
        · rw [hadded change List.mem_cons_self, hadded c (List.mem_cons_of_mem change hc)] at hlt
          exact absurd hlt (lt_irrefl _)
        · exact lt_of_le_of_ne hle hne
    obtain ⟨last, called', hrest, hcontents⟩ := ih htail hbelow (called ++ [one])
      (by rw [hinsert, List.length_append, List.length_append, hlength]; rfl)
    refine ⟨last, one :: called', ?_, ?_⟩
    · rw [List.foldlM_cons, hone]
      show changes.foldlM _ _ = _
      rw [hrest, List.append_assoc]
      rfl
    · rw [List.foldl_cons, ← hcontents]
      congr 1
      show (contents old).insertIdx called.length _ = contents _
      have hplace : called.length = (contents old).length := by
        rw [hlength]
        exact (List.length_map _).symm
      rw [hplace, List.insertIdx_length_self]
      unfold contents
      rw [hinsert, List.map_append]
      rfl

/-- The changes that are called back find their places, and who replays them there on the list of
the documents before has the list of the documents now. -/
theorem forEachChange_replays (snapshot : ViewSnapshot)
    (h : Tells snapshot.oldDocuments snapshot.documents snapshot.documentChanges) :
    ∃ changes, snapshot.forEachChange false = .ok changes ∧
      changes.foldl DocumentChange.replay (contents snapshot.oldDocuments) =
        contents snapshot.documents := by
  unfold ViewSnapshot.forEachChange
  rw [if_neg (by simp)]
  by_cases hempty : snapshot.oldDocuments.entries.isEmpty = true
  · have hnil := List.isEmpty_iff.mp hempty
    obtain ⟨last, changes, hfold, hcontents⟩ := foldlM_firstChange snapshot h
      (fun e he => by rw [hnil] at he; cases he) [] (by rw [hnil]; rfl)
    have hfold : snapshot.documentChanges.foldlM snapshot.firstChange (none, []) =
        .ok (last, changes) := by rwa [hnil] at hfold
    refine ⟨changes, ?_, hcontents⟩
    rw [if_pos hempty, hfold]
    rfl
  · obtain ⟨mid, changes, hfold, hcontents⟩ := foldlM_laterChange snapshot h []
    refine ⟨changes, ?_, hcontents⟩
    rw [if_neg hempty, hfold]
    rfl

end Replay

end GroceryApp.FirestoreCore
