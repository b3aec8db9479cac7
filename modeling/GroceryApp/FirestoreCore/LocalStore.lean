import GroceryApp.FirestoreCore.LocalDocuments

/-!
# The local store

A write is queued and shown at once; an acknowledgment moves the first batch of the queue into the
remembered remote documents, unless what is remembered of a document is already at least as new; a
rejection drops the first batch; a remote event brings news of documents, of which the outdated ones
are ignored; a change of the user changes the queue. Each of these answers with the documents that
may have changed, as they are now shown, and none it leaves out has changed (`Reports`).

The store is that of a persistence that collects no garbage: `MemoryPersistence` with the reference
delegate that collects by age (`MemoryLruReferenceDelegate`), as long as no collection is run. With
`MemoryEagerReferenceDelegate` a document that no target, view or batch refers to would be forgotten
at the end of the transaction that takes its last batch from the queue.
-/

namespace GroceryApp.FirestoreCore

/-- The id of a signed-in user. -/
abbrev User := Option String

/-- Each user's queue, who the user is, and what is remembered of the backend's documents. -/
structure LocalStore where
  mutationQueues : User → MemoryMutationQueue
  user : User
  remoteDocumentCache : RemoteDocumentCache
  lastRemoteSnapshotVersion : SnapshotVersion

/-- The backend's answer to a batch. -/
structure MutationBatchResult where
  batch : MutationBatch
  commitVersion : SnapshotVersion
  mutationResults : List MutationResult
  streamToken : ByteString
  sameLength : mutationResults.length = batch.mutations.length

namespace MutationBatchResult

/-- `MutationBatchResult::MutationBatchResult`. -/
def new (batch : MutationBatch) (commitVersion : SnapshotVersion)
    (mutationResults : List MutationResult) (streamToken : ByteString) :
    Except HardAssert MutationBatchResult :=
  if h : mutationResults.length = batch.mutations.length then
    .ok ⟨batch, commitVersion, mutationResults, streamToken, h⟩
  else .error (.mutationResultsMismatch batch.mutations.length mutationResults.length)

/-- For each document the version of the last mutation of it. -/
def docVersions (result : MutationBatchResult) : SortedMap DocumentKey SnapshotVersion :=
  (result.batch.mutations.zip result.mutationResults).foldl
    (fun versions m => versions.insert m.1.key m.2.version) .empty

end MutationBatchResult

/-- News of documents from the backend, up to a snapshot version; without one if it was made up by
the client. -/
structure RemoteEvent where
  snapshotVersion : SnapshotVersion
  documentUpdates : MaybeDocumentMap

/-- Only removals made up by the client come without a snapshot version. -/
def RemoteEvent.WellFormed (event : RemoteEvent) : Prop :=
  event.snapshotVersion = SnapshotVersion.none → ∀ u ∈ event.documentUpdates.entries,
    (asDocument (some u.2)).isNone ∧ u.2.version = SnapshotVersion.none

instance : DecidablePred RemoteEvent.WellFormed := fun event =>
  inferInstanceAs (Decidable (event.snapshotVersion = SnapshotVersion.none → _))

/-- The id of a new batch, and its documents as they are shown now. -/
structure LocalWriteResult where
  batchId : ℤ
  changes : MaybeDocumentMap

namespace MutationBatch

/-- The loop of `ApplyToLocalDocumentSet` for one mutation. -/
def applyMutationTo (batch : MutationBatch) (mutatedDocuments : MaybeDocumentMap)
    (mutation : Mutation) : MaybeDocumentMap :=
  match batch.applyToLocalDocument (mutatedDocuments.find? mutation.key) mutation.key with
  | some mutatedDocument => mutatedDocuments.insert mutation.key mutatedDocument
  | none => mutatedDocuments

/-- The batch on the local views of its documents. -/
def applyToLocalDocumentSet (batch : MutationBatch) (documentSet : MaybeDocumentMap) :
    MaybeDocumentMap := batch.mutations.foldl batch.applyMutationTo documentSet

end MutationBatch

namespace LocalStore

/-- Nothing is pending or remembered. -/
def new (user : User) : LocalStore := ⟨fun _ => .new, user, .empty, SnapshotVersion.none⟩

/-- The queue of the current user. -/
def mutationQueue (store : LocalStore) : MemoryMutationQueue := store.mutationQueues store.user

/-- The store with another queue of the current user. -/
def setMutationQueue (store : LocalStore) (q : MemoryMutationQueue) : LocalStore :=
  { store with mutationQueues := Function.update store.mutationQueues store.user q }

/-- What the current user sees. -/
def localDocuments (store : LocalStore) : LocalDocumentsView :=
  ⟨store.remoteDocumentCache, store.mutationQueue⟩

/-- The mutations are queued as one batch, and its documents shown at once. -/
def writeLocally (store : LocalStore) (mutations : List Mutation) :
    Except HardAssert (LocalWriteResult × LocalStore) := do
  let keys : DocumentKeySet :=
    mutations.foldl (fun keys mutation => keys.insert mutation.key ()) .empty
  let existingDocuments ← store.localDocuments.getDocuments keys
  let (batch, q) ← store.mutationQueue.addMutationBatch mutations
  let changedDocuments := batch.applyToLocalDocumentSet existingDocuments
  return (⟨batch.batchId, changedDocuments⟩, store.setMutationQueue q)

/-- What an acknowledged batch does to one remembered document: nothing if what is remembered is at
least as new. -/
def applyBatchResultTo (result : MutationBatchResult) (cache : RemoteDocumentCache)
    (docKey : DocumentKey) : Except HardAssert RemoteDocumentCache :=
  match result.docVersions.find? docKey with
  | none => .error .docVersionMissing
  | some ackVersion =>
    if (cache.get docKey).all fun doc => decide (doc.version < ackVersion) then do
      match ← result.batch.applyToRemoteDocument (cache.get docKey) docKey
        result.mutationResults with
      | some doc => return cache.add docKey doc result.commitVersion
      | none => return cache
    else .ok cache

/-- The documents of an acknowledged batch are remembered with its results, and the batch leaves the
queue. -/
def applyBatchResult (store : LocalStore) (result : MutationBatchResult) :
    Except HardAssert LocalStore := do
  let cache ← result.batch.keys.keys.foldlM (applyBatchResultTo result) store.remoteDocumentCache
  let q ← store.mutationQueue.removeMutationBatch result.batch
  return { store.setMutationQueue q with remoteDocumentCache := cache }

/-- `AcknowledgeBatch`: the first batch has been accepted by the backend. -/
def acknowledgeBatch (store : LocalStore) (result : MutationBatchResult) :
    Except HardAssert (MaybeDocumentMap × LocalStore) := do
  let q ← store.mutationQueue.acknowledgeBatch result.batch result.streamToken
  let store ← (store.setMutationQueue q).applyBatchResult result
  store.mutationQueue.performConsistencyCheck
  let changes ← store.localDocuments.getDocuments result.batch.keys
  return (changes, store)

/-- `RejectBatch`: the batch leaves the queue, and its documents are shown without it. -/
def rejectBatch (store : LocalStore) (batchId : ℤ) :
    Except HardAssert (MaybeDocumentMap × LocalStore) := do
  match ← store.mutationQueue.lookupMutationBatch batchId with
  | none => throw .rejectNonexistentBatch
  | some toReject =>
    let q ← store.mutationQueue.removeMutationBatch toReject
    let store := store.setMutationQueue q
    store.mutationQueue.performConsistencyCheck
    let changes ← store.localDocuments.getDocuments toReject.keys
    return (changes, store)

/-- Whether news of a document replaces what is remembered of it. -/
def isNews (existingDoc : Option MaybeDocument) (doc : MaybeDocument) : Bool :=
  existingDoc.all fun existing => decide (existing.version < doc.version) ||
    decide (doc.version = existing.version) && existing.hasPendingWrites

/-- One document of a remote event; `existing` are the documents remembered before the event. -/
def applyDocumentUpdate (snapshotVersion : SnapshotVersion) (existing : RemoteDocumentCache)
    (state : RemoteDocumentCache × OptionalMaybeDocumentMap) (update : DocumentKey × MaybeDocument) :
    Except HardAssert (RemoteDocumentCache × OptionalMaybeDocumentMap) :=
  let (key, doc) := update
  if (asDocument (some doc)).isNone ∧ doc.version = SnapshotVersion.none then
    .ok (state.1.remove key, state.2.insert key (some doc))
  else if isNews (existing.get key) doc then
    if snapshotVersion = SnapshotVersion.none then .error .zeroRemoteVersion
    else .ok (state.1.add key doc snapshotVersion, state.2.insert key (some doc))
  else .ok state

/-- The news replace what is remembered where they are newer; the version of the snapshot may not
fall behind the last one. -/
def applyRemoteEvent (store : LocalStore) (event : RemoteEvent) :
    Except HardAssert (MaybeDocumentMap × LocalStore) := do
  let (cache, changedDocs) ← event.documentUpdates.entries.foldlM
    (applyDocumentUpdate event.snapshotVersion store.remoteDocumentCache)
    (store.remoteDocumentCache, .empty)
  let store := { store with remoteDocumentCache := cache }
  let store ←
    if event.snapshotVersion = SnapshotVersion.none then pure store
    else if event.snapshotVersion < store.lastRemoteSnapshotVersion then
      throw (.revertedSnapshot event.snapshotVersion store.lastRemoteSnapshotVersion)
    else pure { store with lastRemoteSnapshotVersion := event.snapshotVersion }
  let changes ← store.localDocuments.getLocalViewOfDocuments changedDocs
  return (changes, store)

/-- Another queue comes up; the documents of both queues may be shown differently. -/
def handleUserChange (store : LocalStore) (user : User) :
    Except HardAssert (MaybeDocumentMap × LocalStore) := do
  let oldBatches := store.mutationQueue.allMutationBatches
  let store := { store with user := user }
  let store := store.setMutationQueue store.mutationQueue.start
  let newBatches := store.mutationQueue.allMutationBatches
  let changedKeys : DocumentKeySet := (oldBatches ++ newBatches).foldl
    (fun keys batch => batch.mutations.foldl (fun keys mutation => keys.insert mutation.key ()) keys)
    .empty
  let changes ← store.localDocuments.getDocuments changedKeys
  return (changes, store)

/-- The first batch after an id, to be sent. -/
def getNextMutationBatch (store : LocalStore) (batchId : ℤ) : Option MutationBatch :=
  store.mutationQueue.nextMutationBatchAfterBatchId batchId

/-- The last batch that has no answer. -/
def getHighestUnacknowledgedBatchId (store : LocalStore) : ℤ :=
  store.mutationQueue.getHighestUnacknowledgedBatchId

/-- The token from which a new stream goes on. -/
def getLastStreamToken (store : LocalStore) : ByteString := store.mutationQueue.lastStreamToken

/-- The token of the stream is kept with the queue. -/
def setLastStreamToken (store : LocalStore) (streamToken : ByteString) : LocalStore :=
  store.setMutationQueue { store.mutationQueue with lastStreamToken := streamToken }

/-- The document as the current user sees it. -/
def readDocument (store : LocalStore) (key : DocumentKey) :
    Except HardAssert (Option MaybeDocument) := store.localDocuments.getDocument key

/-- `IndexFreeQueryEngine::ExecuteFullCollectionScan`, as for every query without filters. -/
def executeQuery (store : LocalStore) (query : Query) : Except HardAssert DocumentMap :=
  store.localDocuments.getDocumentsMatchingCollectionQuery query SnapshotVersion.none

end LocalStore

end GroceryApp.FirestoreCore
