import GroceryApp.FirestoreCore.LocalStore

/-!
# The way of a write to the backend

A write is queued by the local store and its callback kept under the batch's id. The remote store
takes batches from the front of the queue into a pipeline of at most ten and sends them over a write
stream, each once the stream's handshake is complete; every response answers the oldest request. A
response acknowledges the front of the pipeline, a permanent error of the stream rejects it, any
other error only makes the stream back off and send the pipeline again. When the network is disabled
the stream stops and the pipeline is emptied; when it is enabled the pipeline is filled from the
queue again. A change of the user changes the queue and restarts the network.
-/

namespace GroceryApp.FirestoreCore

/-- The codes with which a stream or a request can fail. -/
inductive ErrorCode where
  | cancelled
  | unknown
  | invalidArgument
  | deadlineExceeded
  | notFound
  | alreadyExists
  | permissionDenied
  | resourceExhausted
  | failedPrecondition
  | aborted
  | outOfRange
  | unimplemented
  | internal
  | unavailable
  | dataLoss
  | unauthenticated
  deriving DecidableEq, Repr

/-- How a write, a wait or a stream ended. -/
inductive Status where
  | ok
  | error (code : ErrorCode)
  deriving DecidableEq, Repr

/-- `Datastore::IsPermanentError`. -/
def isPermanentError : ErrorCode → Bool
  | .cancelled | .unknown | .deadlineExceeded | .resourceExhausted | .internal | .unavailable
  | .unauthenticated => false
  | .invalidArgument | .notFound | .alreadyExists | .permissionDenied | .failedPrecondition
  | .aborted | .outOfRange | .unimplemented | .dataLoss => true

/-- `Datastore::IsPermanentWriteError`. -/
def isPermanentWriteError (code : ErrorCode) : Bool :=
  isPermanentError code && !decide (code = .aborted)

/-! ## The write stream -/

/-- Where a stream is between its start and its end. -/
inductive StreamState where
  | initial
  | starting
  | open
  | error
  | backoff
  deriving DecidableEq, Repr

/-- The stream and the connection it runs over: the requests on it that have no response yet. -/
structure WriteStream where
  state : StreamState
  handshakeComplete : Bool
  idlenessTimer : Bool
  lastStreamToken : ByteString
  unanswered : List (List Mutation)

namespace WriteStream

/-- The stream has not been started. -/
def new : WriteStream := ⟨.initial, false, false, [], []⟩

/-- The connection is up. -/
def isOpen (stream : WriteStream) : Bool := stream.state == .open

/-- The stream has been started and has not ended. -/
def isStarted (stream : WriteStream) : Bool :=
  stream.state == .starting || stream.state == .backoff || stream.isOpen

/-- After an error the stream backs off before it connects. -/
def start (stream : WriteStream) : Except HardAssert WriteStream :=
  match stream.state with
  | .error => .ok { stream with state := .backoff }
  | .initial => .ok { stream with state := .starting }
  | _ => .error .streamAlreadyStarted

/-- The next start connects at once; only a stream that is not started can be told so. -/
def inhibitBackoff (stream : WriteStream) : Except HardAssert WriteStream :=
  if stream.isStarted then .error .backoffInhibitedWhileStarted
  else .ok { stream with state := .initial }

/-- An open stream that has nothing to do gets a timer. -/
def markIdle (stream : WriteStream) : WriteStream :=
  if stream.isOpen then { stream with idlenessTimer := true } else stream

/-- The first request on an open stream. -/
def writeHandshake (stream : WriteStream) : Except HardAssert WriteStream :=
  if !stream.isOpen then .error .writeOnClosedStream
  else if stream.handshakeComplete then .error .handshakeTwice
  else .ok { stream with idlenessTimer := false }

/-- A request after the handshake; it waits for its response. -/
def writeMutations (stream : WriteStream) (mutations : List Mutation) :
    Except HardAssert WriteStream :=
  if !stream.isOpen then .error .writeOnClosedStream
  else if !stream.handshakeComplete then .error .writeBeforeHandshake
  else .ok { stream with idlenessTimer := false, unanswered := stream.unanswered ++ [mutations] }

/-- `Stream::Close` up to the notification: timers are cancelled and the connection is gone. -/
def close (stream : WriteStream) (status : Status) : Except HardAssert WriteStream :=
  if stream.isStarted then
    .ok { stream with
      state := if status = .ok then .initial else .error
      idlenessTimer := false
      unanswered := [] }
  else .error .streamNotStarted

end WriteStream

/-! ## The remote store -/

/-- The part of the remote store that writes: the batches that have been taken from the queue, and
the stream they are sent on. -/
structure RemoteStore where
  isNetworkEnabled : Bool
  writePipeline : List MutationBatch
  writeStream : WriteStream

/-- `kMaxPendingWrites`. -/
abbrev maxPendingWrites : ℕ := 10

namespace RemoteStore

/-- The network is off. -/
def new : RemoteStore := ⟨false, [], .new⟩

/-- The app wants the network. -/
def canUseNetwork (remote : RemoteStore) : Bool := remote.isNetworkEnabled

/-- There is room in the pipeline. -/
def canAddToWritePipeline (remote : RemoteStore) : Bool :=
  remote.canUseNetwork && decide (remote.writePipeline.length < maxPendingWrites)

/-- There is something to send, and no stream to send it on. -/
def shouldStartWriteStream (remote : RemoteStore) : Bool :=
  remote.canUseNetwork && !remote.writeStream.isStarted && !remote.writePipeline.isEmpty

/-- The stream is started if it should be, and only then. -/
def startWriteStream (remote : RemoteStore) : Except HardAssert RemoteStore :=
  if remote.shouldStartWriteStream then do
    let stream ← remote.writeStream.start
    return { remote with writeStream := stream }
  else .error .startedWhenNotNeeded

/-- The batch joins the pipeline, and is sent at once if the handshake is complete. -/
def addToWritePipeline (remote : RemoteStore) (batch : MutationBatch) :
    Except HardAssert RemoteStore :=
  if remote.canAddToWritePipeline then do
    let stream ←
      if remote.writeStream.isOpen && remote.writeStream.handshakeComplete then
        remote.writeStream.writeMutations batch.mutations
      else .ok remote.writeStream
    return { remote with writePipeline := remote.writePipeline ++ [batch], writeStream := stream }
  else .error .pipelineFull

/-- The loop of `FillWritePipeline`. -/
def fillFrom (localStore : LocalStore) : ℕ → ℤ → RemoteStore → Except HardAssert RemoteStore
  | 0, _, remote => .ok remote
  | fuel + 1, lastBatchIdRetrieved, remote =>
    if remote.canAddToWritePipeline then
      match localStore.getNextMutationBatch lastBatchIdRetrieved with
      | none =>
        if remote.writePipeline.isEmpty then
          .ok { remote with writeStream := remote.writeStream.markIdle }
        else .ok remote
      | some batch => do
        let remote ← remote.addToWritePipeline batch
        fillFrom localStore fuel batch.batchId remote
    else .ok remote

/-- Each turn of the loop but the last one adds a batch, so that eleven turns are enough. -/
def fillWritePipeline (remote : RemoteStore) (localStore : LocalStore) :
    Except HardAssert RemoteStore := do
  let lastBatchIdRetrieved := (remote.writePipeline.getLast?.map (·.batchId)).getD batchIdUnknown
  let remote ← fillFrom localStore (maxPendingWrites + 1) lastBatchIdRetrieved remote
  if remote.shouldStartWriteStream then remote.startWriteStream else return remote

end RemoteStore

/-! ## The engine -/

/-- A callback of the app, by its name. -/
abbrev CallbackId := ℕ

/-- The engine with its two stores: the callbacks of the writes of each user, and those that wait
for all writes up to a batch, by the id of the batch. -/
structure SyncEngine where
  localStore : LocalStore
  remoteStore : RemoteStore
  mutationCallbacks : User → SortedMap ℤ CallbackId
  pendingWritesCallbacks : SortedMap ℤ (List CallbackId)

/-- What a step calls back, of writes and of waits for pending writes, and the changed documents it
hands to the views. -/
structure Emission where
  notified : List (CallbackId × Status)
  triggered : List (CallbackId × Status)
  changes : Option MaybeDocumentMap

/-- Nothing is called or reported. -/
def Emission.nothing : Emission := ⟨[], [], none⟩

namespace SyncEngine

/-- An engine that starts with an empty store, off the network. -/
def new (user : User) : SyncEngine := ⟨.new user, .new, fun _ => .empty, .empty⟩

/-- The user whose queue is served. -/
def currentUser (engine : SyncEngine) : User := engine.localStore.user

/-- The engine with another remote store. -/
def setRemoteStore (engine : SyncEngine) (remote : RemoteStore) : SyncEngine :=
  { engine with remoteStore := remote }

/-- The pipeline takes what the queue has. -/
def fillWritePipeline (engine : SyncEngine) : Except HardAssert SyncEngine := do
  let remote ← engine.remoteStore.fillWritePipeline engine.localStore
  return engine.setRemoteStore remote

/-- `std::unordered_map::insert` keeps an entry that is there. -/
def insertNew (callbacks : SortedMap ℤ CallbackId) (batchId : ℤ) (callback : CallbackId) :
    SortedMap ℤ CallbackId :=
  if callbacks.contains batchId then callbacks else callbacks.insert batchId callback

/-- The write is queued, its callback kept, and the pipeline filled. -/
def writeMutations (engine : SyncEngine) (mutations : List Mutation) (callback : CallbackId) :
    Except HardAssert (SyncEngine × Emission) := do
  let (result, store) ← engine.localStore.writeLocally mutations
  let user := engine.currentUser
  let engine : SyncEngine :=
    { engine with
      localStore := store
      mutationCallbacks := Function.update engine.mutationCallbacks user
        (insertNew (engine.mutationCallbacks user) result.batchId callback) }
  let engine ← engine.fillWritePipeline
  return (engine, ⟨[], [], some result.changes⟩)

/-- The callback is called at once if nothing is pending, else kept until the last batch is
answered. -/
def registerPendingWritesCallback (engine : SyncEngine) (callback : CallbackId) :
    SyncEngine × Emission :=
  let largestPendingBatchId := engine.localStore.getHighestUnacknowledgedBatchId
  if largestPendingBatchId = batchIdUnknown then (engine, ⟨[], [(callback, .ok)], none⟩)
  else
    ({ engine with
        pendingWritesCallbacks := engine.pendingWritesCallbacks.insert largestPendingBatchId
          (((engine.pendingWritesCallbacks.find? largestPendingBatchId).getD []) ++ [callback]) },
      .nothing)

/-- The callback of an answered write is called and forgotten. -/
def notifyUser (engine : SyncEngine) (batchId : ℤ) (status : Status) :
    SyncEngine × List (CallbackId × Status) :=
  let callbacks := engine.mutationCallbacks engine.currentUser
  match callbacks.find? batchId with
  | none => (engine, [])
  | some callback =>
    ({ engine with
        mutationCallbacks := Function.update engine.mutationCallbacks engine.currentUser
          (callbacks.erase batchId) },
      [(callback, status)])

/-- The callbacks that waited for the batch are called and forgotten. -/
def triggerPendingWriteCallbacks (engine : SyncEngine) (batchId : ℤ) :
    SyncEngine × List (CallbackId × Status) :=
  match engine.pendingWritesCallbacks.find? batchId with
  | none => (engine, [])
  | some callbacks =>
    ({ engine with pendingWritesCallbacks := engine.pendingWritesCallbacks.erase batchId },
      callbacks.map fun callback => (callback, .ok))

/-- All callbacks that wait are told of a cancellation and forgotten. -/
def failOutstandingPendingWriteCallbacks (engine : SyncEngine) :
    SyncEngine × List (CallbackId × Status) :=
  ({ engine with pendingWritesCallbacks := .empty },
    engine.pendingWritesCallbacks.entries.flatMap fun entry =>
      entry.2.map fun callback => (callback, .error .cancelled))

/-- An acknowledged batch: who waited for it is called, and the store takes its results. -/
def handleSuccessfulWrite (engine : SyncEngine) (result : MutationBatchResult) :
    Except HardAssert (SyncEngine × Emission) := do
  let (engine, notified) := engine.notifyUser result.batch.batchId .ok
  let (engine, triggered) := engine.triggerPendingWriteCallbacks result.batch.batchId
  let (changes, store) ← engine.localStore.acknowledgeBatch result
  return ({ engine with localStore := store }, ⟨notified, triggered, some changes⟩)

/-- A rejected batch: the store drops it, and who waited for it is called. -/
def handleRejectedWrite (engine : SyncEngine) (batchId : ℤ) (status : Status) :
    Except HardAssert (SyncEngine × Emission) := do
  let (changes, store) ← engine.localStore.rejectBatch batchId
  let (engine, notified) := { engine with localStore := store }.notifyUser batchId status
  let (engine, triggered) := engine.triggerPendingWriteCallbacks batchId
  return (engine, ⟨notified, triggered, some changes⟩)

/-! ### The write stream's notifications -/

/-- The handshake is sent. -/
def onWriteStreamOpen (engine : SyncEngine) : Except HardAssert SyncEngine := do
  let stream ← engine.remoteStore.writeStream.writeHandshake
  return engine.setRemoteStore { engine.remoteStore with writeStream := stream }

/-- The token is kept, and the whole pipeline sent. -/
def onWriteStreamHandshakeComplete (engine : SyncEngine) : Except HardAssert SyncEngine := do
  let remote := engine.remoteStore
  let stream ← remote.writePipeline.foldlM (fun stream write => stream.writeMutations write.mutations)
    remote.writeStream
  return { engine with
    localStore := engine.localStore.setLastStreamToken remote.writeStream.lastStreamToken
    remoteStore := { remote with writeStream := stream } }

/-- A response acknowledges the front of the pipeline, which is filled again. -/
def onWriteStreamMutationResult (engine : SyncEngine) (commitVersion : SnapshotVersion)
    (mutationResults : List MutationResult) : Except HardAssert (SyncEngine × Emission) := do
  let remote := engine.remoteStore
  match remote.writePipeline with
  | [] => throw .resultForEmptyPipeline
  | batch :: writePipeline =>
    let engine := engine.setRemoteStore { remote with writePipeline := writePipeline }
    let result ← MutationBatchResult.new batch commitVersion mutationResults
      remote.writeStream.lastStreamToken
    let (engine, emission) ← engine.handleSuccessfulWrite result
    let engine ← engine.fillWritePipeline
    return (engine, emission)

/-- A permanent error before the handshake is complete resets the stream token. -/
def handleHandshakeError (engine : SyncEngine) (code : ErrorCode) : SyncEngine :=
  if isPermanentError code then
    { engine with
      localStore := engine.localStore.setLastStreamToken []
      remoteStore := { engine.remoteStore with
        writeStream := { engine.remoteStore.writeStream with lastStreamToken := [] } } }
  else engine

/-- A permanent error rejects the front of the pipeline, which is filled again; any other is left to
the back-off. -/
def handleWriteError (engine : SyncEngine) (code : ErrorCode) :
    Except HardAssert (SyncEngine × Emission) := do
  if !isPermanentWriteError code then return (engine, .nothing)
  let remote := engine.remoteStore
  match remote.writePipeline with
  | [] => return (engine, .nothing)
  | batch :: writePipeline =>
    let stream ← remote.writeStream.inhibitBackoff
    let engine := engine.setRemoteStore
      { remote with writePipeline := writePipeline, writeStream := stream }
    let (engine, emission) ← engine.handleRejectedWrite batch.batchId (.error code)
    let engine ← engine.fillWritePipeline
    return (engine, emission)

/-- An error concerns the front of the pipeline or, before it, the handshake. The stream is started
again if there is something to send. -/
def onWriteStreamClose (engine : SyncEngine) (status : Status) :
    Except HardAssert (SyncEngine × Emission) := do
  let (engine, emission) ←
    match status with
    | .ok =>
      if engine.remoteStore.shouldStartWriteStream then throw .stoppedWhileNeeded
      else pure (engine, .nothing)
    | .error code =>
      if engine.remoteStore.writePipeline.isEmpty then pure (engine, .nothing)
      else if engine.remoteStore.writeStream.handshakeComplete then engine.handleWriteError code
      else pure (engine.handleHandshakeError code, .nothing)
  if engine.remoteStore.shouldStartWriteStream then
    let remote ← engine.remoteStore.startWriteStream
    return (engine.setRemoteStore remote, emission)
  else return (engine, emission)

/-- `Stream::Close`: only after its notification is the handshake forgotten. -/
def closeWriteStream (engine : SyncEngine) (status : Status) :
    Except HardAssert (SyncEngine × Emission) := do
  let stream ← engine.remoteStore.writeStream.close status
  let (engine, emission) ← (engine.setRemoteStore
    { engine.remoteStore with writeStream := stream }).onWriteStreamClose status
  return (engine.setRemoteStore { engine.remoteStore with
    writeStream := { engine.remoteStore.writeStream with handshakeComplete := false } }, emission)

/-- `Stream::Stop`, which does nothing to a stream that is not started. -/
def stopWriteStream (engine : SyncEngine) : Except HardAssert SyncEngine := do
  if engine.remoteStore.writeStream.isStarted then
    let (engine, _) ← engine.closeWriteStream .ok
    return engine
  else return engine

/-! ### The network -/

/-- The stream is stopped and the pipeline emptied; the queue keeps the batches. -/
def disableNetworkInternal (engine : SyncEngine) : Except HardAssert SyncEngine := do
  let engine ← engine.stopWriteStream
  return engine.setRemoteStore { engine.remoteStore with writePipeline := [] }

/-- The stream goes on from the token that was kept, and the pipeline is filled. -/
def enableNetwork (engine : SyncEngine) : Except HardAssert SyncEngine := do
  let remote : RemoteStore :=
    { engine.remoteStore with
      isNetworkEnabled := true
      writeStream := { engine.remoteStore.writeStream with
        lastStreamToken := engine.localStore.getLastStreamToken } }
  (engine.setRemoteStore remote).fillWritePipeline

/-- The app turns the network off. -/
def disableNetwork (engine : SyncEngine) : Except HardAssert SyncEngine :=
  (engine.setRemoteStore { engine.remoteStore with isNetworkEnabled := false }).disableNetworkInternal

/-- The network goes off and comes back without a back-off. -/
def restartNetwork (engine : SyncEngine) : Except HardAssert SyncEngine := do
  let engine ← (engine.setRemoteStore
    { engine.remoteStore with isNetworkEnabled := false }).disableNetworkInternal
  let stream ← engine.remoteStore.writeStream.inhibitBackoff
  (engine.setRemoteStore { engine.remoteStore with writeStream := stream }).enableNetwork

/-- Another user cancels the waits and changes the queue; the network is restarted in any case. -/
def handleCredentialChange (engine : SyncEngine) (user : User) :
    Except HardAssert (SyncEngine × Emission) := do
  let (engine, emission) ←
    if engine.currentUser ≠ user then do
      let (engine, failed) := engine.failOutstandingPendingWriteCallbacks
      let (changes, store) ← engine.localStore.handleUserChange user
      pure ({ engine with localStore := store }, (⟨[], failed, some changes⟩ : Emission))
    else pure (engine, .nothing)
  if engine.remoteStore.canUseNetwork then
    let engine ← engine.restartNetwork
    return (engine, emission)
  else return (engine, emission)

/-- The store takes the news. -/
def applyRemoteEvent (engine : SyncEngine) (event : RemoteEvent) :
    Except HardAssert (SyncEngine × Emission) := do
  let (changes, store) ← engine.localStore.applyRemoteEvent event
  return ({ engine with localStore := store }, ⟨[], [], some changes⟩)

end SyncEngine

/-! ## Events -/

/-- What the app and the world outside do to the engine. -/
inductive EngineEvent where
  | writeMutations (mutations : List Mutation) (callback : CallbackId)
  | registerPendingWritesCallback (callback : CallbackId)
  | enableNetwork
  | disableNetwork
  | connectivityChanged
  | credentialChange (user : User)
  | streamOpened
  | handshakeResponse (streamToken : ByteString)
  | writeResponse (commitVersion : SnapshotVersion) (mutationResults : List MutationResult)
      (streamToken : ByteString)
  | streamError (code : ErrorCode)
  | backoffElapsed
  | idleTimeout
  | remoteEvent (event : RemoteEvent)

namespace SyncEngine

/-- What can happen: writes are plain and not empty; the connection opens when it is asked to, can
break while the stream is started, and gives one response after the other, each to a request and
with a result for each of its mutations; timers run out when they are set; and news come with a
version that is not behind the last one. The backend ends the stream with an error only: ended well
by it with a batch in the pipeline, the stream would fail the assertion of `onWriteStreamClose`. -/
def Possible (engine : SyncEngine) : EngineEvent → Prop
  | .writeMutations mutations _ => mutations ≠ [] ∧ ∀ m ∈ mutations, m.Unconditional
  | .streamOpened => engine.remoteStore.writeStream.state = .starting
  | .handshakeResponse _ => engine.remoteStore.writeStream.state = .open ∧
      engine.remoteStore.writeStream.handshakeComplete = false
  | .writeResponse commitVersion mutationResults _ =>
      engine.remoteStore.writeStream.state = .open ∧
      engine.remoteStore.writeStream.handshakeComplete = true ∧
      SnapshotVersion.none < commitVersion ∧
      engine.remoteStore.writeStream.unanswered.head?.map List.length = some mutationResults.length
  | .streamError _ => engine.remoteStore.writeStream.isStarted = true
  | .backoffElapsed => engine.remoteStore.writeStream.state = .backoff
  | .idleTimeout => engine.remoteStore.writeStream.idlenessTimer = true
  | .remoteEvent event => event.WellFormed ∧ (event.snapshotVersion ≠ SnapshotVersion.none →
      engine.localStore.lastRemoteSnapshotVersion ≤ event.snapshotVersion)
  | _ => True

/-- What the engine does in one turn of its worker queue. -/
def step (engine : SyncEngine) : EngineEvent → Except HardAssert (SyncEngine × Emission)
  | .writeMutations mutations callback => engine.writeMutations mutations callback
  | .registerPendingWritesCallback callback => .ok (engine.registerPendingWritesCallback callback)
  | .enableNetwork => (·, .nothing) <$> engine.enableNetwork
  | .disableNetwork => (·, .nothing) <$> engine.disableNetwork
  | .connectivityChanged =>
    if engine.remoteStore.canUseNetwork then (·, .nothing) <$> engine.restartNetwork
    else .ok (engine, .nothing)
  | .credentialChange user => engine.handleCredentialChange user
  | .streamOpened => (·, .nothing) <$> (engine.setRemoteStore { engine.remoteStore with
      writeStream := { engine.remoteStore.writeStream with state := .open } }).onWriteStreamOpen
  | .handshakeResponse streamToken => (·, .nothing) <$> (engine.setRemoteStore
      { engine.remoteStore with
        writeStream := { engine.remoteStore.writeStream with
          lastStreamToken := streamToken
          handshakeComplete := true } }).onWriteStreamHandshakeComplete
  | .writeResponse commitVersion mutationResults streamToken => (engine.setRemoteStore
      { engine.remoteStore with
        writeStream := { engine.remoteStore.writeStream with
          lastStreamToken := streamToken
          unanswered := engine.remoteStore.writeStream.unanswered.tail } }
      ).onWriteStreamMutationResult commitVersion mutationResults
  | .streamError code => engine.closeWriteStream (.error code)
  | .backoffElapsed => do
    let stream ← { engine.remoteStore.writeStream with state := .initial }.start
    return (engine.setRemoteStore { engine.remoteStore with writeStream := stream }, .nothing)
  | .idleTimeout => (·, .nothing) <$> engine.stopWriteStream
  | .remoteEvent event => engine.applyRemoteEvent event

end SyncEngine

end GroceryApp.FirestoreCore
