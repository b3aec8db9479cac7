import GroceryApp.FirestoreCore.LocalStore
import Mathlib.Data.List.Sort

/-!
# Views and listeners

A view holds the documents of a listened query and is told which documents of the store may have
changed. It computes from them a set of changes, at most one for each document: changes that come
later are merged into the earlier ones (`DocumentViewChangeSet.addChange`). A document whose pending
write has just been acknowledged with other data than is shown waits for the backend to send it
(`shouldWaitForSyncedDocument`). With the changes the view hands a snapshot to its listener, which
leaves out changes of metadata only and decides what to raise.

A query has no limit and no order of its own: its documents are in the order of their keys.
-/

namespace GroceryApp.FirestoreCore

/-! ## Changes -/

/-- What has become of a document. -/
inductive ChangeType where
  | removed
  | added
  | modified
  | metadata
  deriving DecidableEq, Repr

/-- A change of one document, with the document as it is now or, if it is gone, as it was last. -/
structure DocumentViewChange where
  key : DocumentKey
  document : Document
  type : ChangeType
  deriving DecidableEq

/-- The changes so far, at most one for each document. -/
abbrev DocumentViewChangeSet := SortedMap DocumentKey DocumentViewChange

namespace DocumentViewChangeSet

/-- A later change of a document is merged into the earlier one. -/
def addChange (changes : DocumentViewChangeSet) (change : DocumentViewChange) :
    Except HardAssert DocumentViewChangeSet :=
  match changes.find? change.key with
  | none => .ok (changes.insert change.key change)
  | some old =>
    if change.type ≠ .added ∧ old.type = .metadata then .ok (changes.insert change.key change)
    else if change.type = .metadata ∧ old.type ≠ .removed then
      .ok (changes.insert change.key { change with type := old.type })
    else if change.type = .modified ∧ old.type = .modified then
      .ok (changes.insert change.key { change with type := .modified })
    else if change.type = .modified ∧ old.type = .added then
      .ok (changes.insert change.key { change with type := .added })
    else if change.type = .removed ∧ old.type = .added then .ok (changes.erase change.key)
    else if change.type = .removed ∧ old.type = .modified then
      .ok (changes.insert change.key { old with type := .removed })
    else if change.type = .added ∧ old.type = .removed then
      .ok (changes.insert change.key { change with type := .modified })
    else .error .unsupportedChanges

/-- The changes in the order of their documents. -/
def getChanges (changes : DocumentViewChangeSet) : List DocumentViewChange :=
  changes.entries.map Prod.snd

end DocumentViewChangeSet

/-! ## Snapshots -/

/-- What a view hands its listeners: the documents now and before, what has changed, which documents
have pending writes, and how the view stands to the backend. -/
structure ViewSnapshot where
  documents : DocumentMap
  oldDocuments : DocumentMap
  documentChanges : List DocumentViewChange
  mutatedKeys : DocumentKeySet
  fromCache : Bool
  syncStateChanged : Bool
  excludesMetadataChanges : Bool

namespace ViewSnapshot

/-- A first snapshot, in which all documents are added. -/
def fromInitialDocuments (documents : DocumentMap) (mutatedKeys : DocumentKeySet) (fromCache : Bool)
    (excludesMetadataChanges : Bool) : ViewSnapshot where
  documents := documents
  oldDocuments := .empty
  documentChanges := documents.entries.map fun e => ⟨e.1, e.2, .added⟩
  mutatedKeys := mutatedKeys
  fromCache := fromCache
  syncStateChanged := true
  excludesMetadataChanges := excludesMetadataChanges

/-- Some document has pending writes. -/
def hasPendingWrites (snapshot : ViewSnapshot) : Bool := !snapshot.mutatedKeys.entries.isEmpty

/-- The snapshot without the changes that are of metadata only. -/
def withoutMetadataChanges (snapshot : ViewSnapshot) : ViewSnapshot :=
  { snapshot with
    documentChanges := snapshot.documentChanges.filter fun change => change.type ≠ .metadata
    excludesMetadataChanges := true }

end ViewSnapshot

/-! ## The view -/

/-- How a view stands to the backend: not yet, from the cache, or in sync. -/
inductive SyncState where
  | none
  | local
  | synced
  deriving DecidableEq, Repr

/-- What the client knows of its connection. -/
inductive OnlineState where
  | unknown
  | online
  | offline
  deriving DecidableEq, Repr

/-- What the backend says of a query: whether it is current, and which documents are in it. -/
structure TargetChange where
  current : Bool
  addedDocuments : DocumentKeySet
  modifiedDocuments : DocumentKeySet
  removedDocuments : DocumentKeySet

/-- A document comes into doubt or out of it. -/
inductive LimboDocumentChange where
  | added (key : DocumentKey)
  | removed (key : DocumentKey)
  deriving DecidableEq

/-- The documents of a query, those with pending writes, those the backend has listed, those in
doubt, and whether the backend is done with the query. -/
structure View where
  query : Query
  documentSet : DocumentMap
  mutatedKeys : DocumentKeySet
  syncedDocuments : DocumentKeySet
  limboDocuments : DocumentKeySet
  current : Bool
  syncState : SyncState

/-- Changes that have been computed and not been applied yet. -/
structure ViewDocumentChanges where
  documentSet : DocumentMap
  changeSet : DocumentViewChangeSet
  mutatedKeys : DocumentKeySet

/-- What came of applied changes: a snapshot, if there is anything to tell, and what is in doubt
now. -/
structure ViewChange where
  snapshot : Option ViewSnapshot
  limboChanges : List LimboDocumentChange

namespace View

/-- An empty view, which starts from the documents the backend listed before. -/
def new (query : Query) (remoteDocuments : DocumentKeySet) : View :=
  ⟨query, .empty, .empty, remoteDocuments, .empty, false, .none⟩

/-- A pending write has been acknowledged: the backend will send the document. -/
def shouldWaitForSyncedDocument (newDoc oldDoc : Document) : Bool :=
  oldDoc.hasLocalMutations && newDoc.hasCommittedMutations && !newDoc.hasLocalMutations

/-- The change of one document, if there is one to show. -/
def changeOf (view : View) (key : DocumentKey) (oldDoc newDoc : Option Document) :
    Option DocumentViewChange :=
  let oldDocHadPendingMutations := oldDoc.isSome && view.mutatedKeys.contains key
  let newDocHasPendingMutations := newDoc.any fun doc => doc.hasLocalMutations ||
    (view.mutatedKeys.contains key && doc.hasCommittedMutations)
  match oldDoc, newDoc with
  | some oldDoc, some newDoc =>
    if oldDoc.data ≠ newDoc.data then
      if shouldWaitForSyncedDocument newDoc oldDoc then none else some ⟨key, newDoc, .modified⟩
    else if oldDocHadPendingMutations ≠ newDocHasPendingMutations then some ⟨key, newDoc, .metadata⟩
    else none
  | none, some newDoc => some ⟨key, newDoc, .added⟩
  | some oldDoc, none => some ⟨key, oldDoc, .removed⟩
  | none, none => none

/-- The document if the query wants it. -/
def newDocument (view : View) (key : DocumentKey) (maybeNewDoc : MaybeDocument) : Option Document :=
  (asDocument (some maybeNewDoc)).filter fun doc => view.query.matchesDoc key doc

/-- The loop of `ComputeDocumentChanges` for one document. -/
def computeChange (view : View) (oldDocumentSet : DocumentMap) (state : ViewDocumentChanges)
    (entry : DocumentKey × MaybeDocument) : Except HardAssert ViewDocumentChanges := do
  let (key, maybeNewDoc) := entry
  let newDoc := view.newDocument key maybeNewDoc
  match view.changeOf key (oldDocumentSet.find? key) newDoc with
  | none => return state
  | some change => do
    let changeSet ← DocumentViewChangeSet.addChange state.changeSet change
    match newDoc with
    | some doc => return ⟨state.documentSet.insert key doc, changeSet,
        if doc.hasLocalMutations then state.mutatedKeys.insert key ()
        else state.mutatedKeys.erase key⟩
    | none => return ⟨state.documentSet.erase key, changeSet, state.mutatedKeys.erase key⟩

/-- No changes yet. -/
def unchanged (view : View) : ViewDocumentChanges := ⟨view.documentSet, .empty, view.mutatedKeys⟩

/-- What the documents that may have changed change in the view, on top of changes computed before.
-/
def computeDocumentChanges (view : View) (docChanges : MaybeDocumentMap)
    (previousChanges : Option ViewDocumentChanges) : Except HardAssert ViewDocumentChanges :=
  let start := previousChanges.getD view.unchanged
  docChanges.entries.foldlM (view.computeChange start.documentSet) start

/-- A document without pending writes that the backend has not listed. -/
def shouldBeInLimbo (view : View) (key : DocumentKey) : Bool :=
  !view.syncedDocuments.contains key &&
    (view.documentSet.find? key).any fun doc => !doc.hasLocalMutations

/-- The backend adds documents to those it has listed and takes some away; those it says are
modified must be listed. -/
def applyTargetChange (view : View) : Option TargetChange → Except HardAssert View
  | none => .ok view
  | some targetChange =>
    let syncedDocuments := targetChange.addedDocuments.keys.foldl
      (fun synced key => synced.insert key ()) view.syncedDocuments
    if targetChange.modifiedDocuments.keys.all fun key => syncedDocuments.contains key then
      .ok { view with
        syncedDocuments := targetChange.removedDocuments.keys.foldl
          (fun synced key => synced.erase key) syncedDocuments
        current := targetChange.current }
    else .error .modifiedNotSynced

/-- The documents the backend says are modified are in the query. -/
def Fits (view : View) (targetChange : Option TargetChange) : Prop :=
  ∀ change ∈ targetChange, ∀ key ∈ change.modifiedDocuments.keys,
    view.syncedDocuments.contains key = true ∨ change.addedDocuments.contains key = true

instance : DecidableRel Fits := fun _ targetChange =>
  inferInstanceAs (Decidable (∀ change ∈ targetChange, _))

/-- Once the backend is done with the query, the documents it has not listed are in doubt. -/
def updateLimboDocuments (view : View) : View × List LimboDocumentChange :=
  if view.current then
    let limboDocuments := view.documentSet.keySet.filter view.shouldBeInLimbo
    ({ view with limboDocuments := limboDocuments },
      ((view.limboDocuments.keys.filter fun key => !limboDocuments.contains key).map .removed) ++
        (limboDocuments.keys.filter fun key => !view.limboDocuments.contains key).map .added)
  else (view, [])

/-- `GetDocumentViewChangeTypePosition`. -/
def typePosition : ChangeType → ℕ
  | .removed => 0
  | .added => 1
  | .modified | .metadata => 2

/-- Changes are ordered by their type, and then by their document. -/
def changeBefore (lhs rhs : DocumentViewChange) : Prop :=
  typePosition lhs.type < typePosition rhs.type ∨
    typePosition lhs.type = typePosition rhs.type ∧ lhs.key ≤ rhs.key

instance : DecidableRel changeBefore := fun _ _ => by
  unfold changeBefore
  infer_instance

/-- The computed changes become the state of the view; there is a snapshot if a document has changed
or the view has come in or out of sync. -/
def applyChanges (view : View) (docChanges : ViewDocumentChanges)
    (targetChange : Option TargetChange) : Except HardAssert (View × ViewChange) := do
  let oldDocuments := view.documentSet
  let view := { view with
    documentSet := docChanges.documentSet
    mutatedKeys := docChanges.mutatedKeys }
  let changes := (DocumentViewChangeSet.getChanges docChanges.changeSet).insertionSort changeBefore
  let view ← view.applyTargetChange targetChange
  let (view, limboChanges) := view.updateLimboDocuments
  let synced := view.limboDocuments.entries.isEmpty && view.current
  let newSyncState := if synced then SyncState.synced else SyncState.local
  let syncStateChanged := decide (newSyncState ≠ view.syncState)
  let view := { view with syncState := newSyncState }
  if changes.isEmpty && !syncStateChanged then return (view, ⟨none, limboChanges⟩)
  else return (view, ⟨some ⟨docChanges.documentSet, oldDocuments, changes, docChanges.mutatedKeys,
    decide (newSyncState = .local), syncStateChanged, false⟩, limboChanges⟩)

/-- Offline, the backend is not done with the query any more. -/
def applyOnlineStateChange (view : View) (onlineState : OnlineState) :
    Except HardAssert (View × ViewChange) :=
  if view.current && decide (onlineState = .offline) then
    { view with current := false }.applyChanges view.unchanged none
  else .ok (view, ⟨none, []⟩)

end View

/-! ## The listener -/

/-- What a listener asks for. -/
structure ListenOptions where
  includeQueryMetadataChanges : Bool
  includeDocumentMetadataChanges : Bool
  waitForSyncWhenOnline : Bool

/-- No metadata, and no wait for the backend. -/
def ListenOptions.default : ListenOptions := ⟨false, false, false⟩

/-- The snapshot as a listener gets it. -/
def ListenOptions.taken (options : ListenOptions) (snapshot : ViewSnapshot) : ViewSnapshot :=
  if options.includeDocumentMetadataChanges then snapshot else snapshot.withoutMetadataChanges

/-- A listener with the last snapshot it has got, and whether it has raised a first one. -/
structure QueryListener where
  options : ListenOptions
  onlineState : OnlineState
  raisedInitialEvent : Bool
  snapshot : Option ViewSnapshot

namespace QueryListener

/-- A listener that has got nothing. -/
def new (options : ListenOptions) : QueryListener := ⟨options, .unknown, false, none⟩

/-- The first snapshot is raised if it is in sync; from the cache, unless the listener waits for the
backend, if there is something to show or no hope for more. -/
def shouldRaiseInitialEvent (listener : QueryListener) (snapshot : ViewSnapshot)
    (onlineState : OnlineState) : Bool :=
  if !snapshot.fromCache then true
  else if listener.options.waitForSyncWhenOnline && decide (onlineState ≠ .offline) then false
  else !snapshot.documents.entries.isEmpty || decide (onlineState = .offline)

/-- A later snapshot is raised if a document has changed, or for one who asks for metadata of the
query if these have. -/
def shouldRaiseEvent (listener : QueryListener) (snapshot : ViewSnapshot) : Bool :=
  if !snapshot.documentChanges.isEmpty then true
  else if snapshot.syncStateChanged ||
      listener.snapshot.any fun old => old.hasPendingWrites != snapshot.hasPendingWrites then
    listener.options.includeQueryMetadataChanges
  else false

/-- `RaiseInitialEvent`: the event. -/
def initialEvent (snapshot : ViewSnapshot) : ViewSnapshot :=
  .fromInitialDocuments snapshot.documents snapshot.mutatedKeys snapshot.fromCache
    snapshot.excludesMetadataChanges

/-- The listener and the event it raises, if it does. -/
def onViewSnapshot (listener : QueryListener) (snapshot : ViewSnapshot) :
    Except HardAssert (QueryListener × Option ViewSnapshot) :=
  if snapshot.documentChanges.isEmpty && !snapshot.syncStateChanged then
    .error .snapshotWithoutChanges
  else
    let snapshot := listener.options.taken snapshot
    let listener' := { listener with snapshot := some snapshot }
    if !listener.raisedInitialEvent then
      if listener.shouldRaiseInitialEvent snapshot listener.onlineState then
        .ok ({ listener' with raisedInitialEvent := true }, some (initialEvent snapshot))
      else .ok (listener', none)
    else if listener.shouldRaiseEvent snapshot then .ok (listener', some snapshot)
    else .ok (listener', none)

/-- A listener that has waited may raise what there is. -/
def onOnlineStateChanged (listener : QueryListener) (onlineState : OnlineState) :
    QueryListener × Option ViewSnapshot :=
  let listener := { listener with onlineState := onlineState }
  match listener.snapshot with
  | some snapshot =>
    if !listener.raisedInitialEvent && listener.shouldRaiseInitialEvent snapshot onlineState then
      ({ listener with raisedInitialEvent := true }, some (initialEvent snapshot))
    else (listener, none)
  | none => (listener, none)

end QueryListener

end GroceryApp.FirestoreCore
