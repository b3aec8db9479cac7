import GroceryApp.FirestoreCore.SyncEngine
import GroceryApp.FirestoreCore.View

/-!
# Listening to a query

The first listener of a query makes the engine build a view of it from the local store; the last one
that goes takes the view with it. Whenever the engine reports changed documents the view turns them
into a snapshot, and every listener is handed the snapshot if there is one. A later listener starts
with the last snapshot of the view. When the client goes offline the view is no longer current, and
listeners that have waited for the backend raise what there is.

One query of a collection is listened to; views of other queries do not touch it.
-/

namespace GroceryApp.FirestoreCore

/-- A listener, by its name. -/
abbrev ListenerId := ℕ

/-- The engine, and the listeners of one query with its view. -/
structure FirestoreClient where
  engine : SyncEngine
  query : Query
  onlineState : OnlineState
  /-- `query_views_by_query_` of the engine. -/
  view : Option View
  /-- `queries_` of the event manager. -/
  listeners : List (ListenerId × QueryListener)
  viewSnapshot : Option ViewSnapshot

/-- What the listeners are handed. -/
structure Events where
  snapshots : List (ListenerId × ViewSnapshot)
  errors : List (ListenerId × ErrorCode)

/-- Nobody is handed anything. -/
def Events.nothing : Events := ⟨[], []⟩

/-- What happens to the client: an event of the engine, with what the backend says of the query in
the news of a remote event; a change of the connection; listeners that come and go; or the end of
the query, which the backend rejects. -/
inductive ClientEvent where
  | engine (event : EngineEvent) (targetChange : Option TargetChange)
  | onlineStateChange (onlineState : OnlineState)
  | addListener (id : ListenerId) (options : ListenOptions) (remoteKeys : DocumentKeySet)
  | removeListener (id : ListenerId)
  | listenRejected (code : ErrorCode)

/-- The event is news of documents. -/
def EngineEvent.isRemoteEvent : EngineEvent → Bool
  | .remoteEvent _ => true
  | _ => false

/-- A listener hears nothing any more. -/
def ClientEvent.stops (id : ListenerId) : ClientEvent → Bool
  | .removeListener id' => decide (id' = id)
  | .listenRejected _ => true
  | _ => false

namespace FirestoreClient

/-- A client that nobody listens with. -/
def new (user : User) (collection : CollectionReference) : FirestoreClient :=
  ⟨.new user, .ofCollection collection, .unknown, none, [], none⟩

/-- The event of one listener, under its id. -/
def raise (id : ListenerId) (event : Option ViewSnapshot) : List (ListenerId × ViewSnapshot) :=
  (event.map fun snapshot => (id, snapshot)).toList

/-- The loop of `OnViewSnapshots` for one listener. -/
def hand (snapshot : ViewSnapshot) (l : ListenerId × QueryListener) :
    Except HardAssert ((ListenerId × QueryListener) × List (ListenerId × ViewSnapshot)) := do
  let (listener, event) ← l.2.onViewSnapshot snapshot
  return ((l.1, listener), raise l.1 event)

/-- `EventManager::OnViewSnapshots`. -/
def onViewSnapshot (client : FirestoreClient) (snapshot : ViewSnapshot) :
    Except HardAssert (FirestoreClient × Events) := do
  let results ← client.listeners.mapM (hand snapshot)
  return ({ client with
      listeners := results.map Prod.fst
      viewSnapshot := some snapshot },
    ⟨results.flatMap Prod.snd, []⟩)

/-- What a change of the view leaves to do. -/
def onViewChange (client : FirestoreClient) (view : View) (viewChange : ViewChange) :
    Except HardAssert (FirestoreClient × Events) :=
  match viewChange.snapshot with
  | some snapshot => { client with view := some view }.onViewSnapshot snapshot
  | none => .ok ({ client with view := some view }, .nothing)

/-- `SyncEngine::EmitNewSnapshotsAndNotifyLocalStore`. -/
def emitNewSnapshots (client : FirestoreClient) (changes : MaybeDocumentMap)
    (targetChange : Option TargetChange) : Except HardAssert (FirestoreClient × Events) :=
  match client.view with
  | none => .ok (client, .nothing)
  | some view => do
    let viewDocChanges ← view.computeDocumentChanges changes none
    let (view, viewChange) ← view.applyChanges viewDocChanges targetChange
    client.onViewChange view viewChange

/-- `EventManager::HandleOnlineStateChange`. -/
def onlineStateChanged (client : FirestoreClient) (onlineState : OnlineState) :
    FirestoreClient × List (ListenerId × ViewSnapshot) :=
  let results := client.listeners.map fun l =>
    let (listener, event) := l.2.onOnlineStateChanged onlineState
    ((l.1, listener), raise l.1 event)
  ({ client with
      onlineState := onlineState
      listeners := results.map Prod.fst }, results.flatMap Prod.snd)

/-- `SyncEngine::HandleOnlineStateChange`. -/
def handleOnlineStateChange (client : FirestoreClient) (onlineState : OnlineState) :
    Except HardAssert (FirestoreClient × Events) := do
  let (client, events) ←
    match client.view with
    | none => pure (client, Events.nothing)
    | some view => do
      let (view, viewChange) ← view.applyOnlineStateChange onlineState
      if viewChange.limboChanges.isEmpty then client.onViewChange view viewChange
      else throw .onlineStateAffectsLimbo
  let (client, raised) := client.onlineStateChanged onlineState
  return (client, ⟨events.snapshots ++ raised, events.errors⟩)

/-- `SyncEngine::Listen`; `remoteKeys` are the documents the backend listed for the query before. -/
def listen (client : FirestoreClient) (remoteKeys : DocumentKeySet) :
    Except HardAssert (FirestoreClient × Events) := do
  let documents ← client.engine.localStore.executeQuery client.query
  let view := View.new client.query remoteKeys
  let viewDocChanges ← view.computeDocumentChanges
    (documents.filterMap fun _ doc => some (.document doc)) none
  let (view, viewChange) ← view.applyChanges viewDocChanges none
  if viewChange.snapshot.isNone then throw .noInitialSnapshot
  else client.onViewChange view viewChange

/-- The client with one more listener. -/
def withListener (client : FirestoreClient) (id : ListenerId) (listener : QueryListener) :
    FirestoreClient := { client with listeners := client.listeners ++ [(id, listener)] }

/-- `EventManager::AddQueryListener`. -/
def addQueryListener (client : FirestoreClient) (id : ListenerId) (options : ListenOptions)
    (remoteKeys : DocumentKeySet) : Except HardAssert (FirestoreClient × Events) := do
  let firstListen := client.listeners.isEmpty
  let (listener, raised) := (QueryListener.new options).onOnlineStateChanged client.onlineState
  if raised.isSome then throw .raisedForNewListener
  let (listener, event) ←
    match client.viewSnapshot with
    | some snapshot => listener.onViewSnapshot snapshot
    | none => pure (listener, none)
  let client := client.withListener id listener
  if firstListen then
    let (client, events) ← client.listen remoteKeys
    return (client, ⟨raise id event ++ events.snapshots, events.errors⟩)
  else return (client, ⟨raise id event, []⟩)

/-- `EventManager::RemoveQueryListener`. -/
def removeQueryListener (client : FirestoreClient) (id : ListenerId) : FirestoreClient :=
  let listeners := client.listeners.filter fun l => decide (l.1 ≠ id)
  if listeners.isEmpty then { client with view := none, listeners := [], viewSnapshot := none }
  else { client with listeners := listeners }

/-- `SyncEngine::RemoveAndCleanupTarget` with an error and then `EventManager::OnError`. -/
def listenRejected (client : FirestoreClient) (code : ErrorCode) : FirestoreClient × Events :=
  ({ client with view := none, listeners := [], viewSnapshot := none },
    ⟨[], client.listeners.map fun l => (l.1, code)⟩)

/-- Changes of the target come with news of documents only, and tell of its documents. -/
def Possible (client : FirestoreClient) : ClientEvent → Prop
  | .engine event targetChange => client.engine.Possible event ∧
      (targetChange.isSome = true → event.isRemoteEvent = true) ∧
      ∀ view ∈ client.view, view.Fits targetChange
  | .addListener id _ _ => id ∉ client.listeners.map Prod.fst
  | _ => True

/-- What the client does in one turn of its worker queue. -/
def step (client : FirestoreClient) : ClientEvent → Except HardAssert (FirestoreClient × Events)
  | .engine event targetChange => do
    let (engine, emission) ← client.engine.step event
    let client := { client with engine := engine }
    match emission.changes with
    | some changes => client.emitNewSnapshots changes targetChange
    | none => return (client, .nothing)
  | .onlineStateChange onlineState => client.handleOnlineStateChange onlineState
  | .addListener id options remoteKeys => client.addQueryListener id options remoteKeys
  | .removeListener id => .ok (client.removeQueryListener id, .nothing)
  | .listenRejected code => .ok (client.listenRejected code)

end FirestoreClient

end GroceryApp.FirestoreCore
