import GroceryApp.FirestoreCore.ClientSteps

/-!
# What listeners hear over a run

No assertion of the client fails, and over every run, whatever listeners come and go in it, the list
a listener has been handed last is what the local store has for its query, but for documents that
wait for the backend (`listeners_see_store`), and exactly that as long as the user stays, no write is
rejected and no answer leaves an earlier one in place (`listeners_see_exactly`). The changes a
listener is told lead to the same list as the documents (`changes_lead_to_documents`), and what a
listener that asks for all metadata is told of pending writes and of the backend is so at all times
(`metadata_told`). All of it is about a local store that collects no garbage during the run: a
document that is collected is handed to nobody.
-/

namespace GroceryApp.FirestoreCore

open Firestore (QueryDocumentSnapshot)
open Transducers

namespace FirestoreClient

instance decidablePossible (client : FirestoreClient) : DecidablePred client.Possible
  | .engine event targetChange => inferInstanceAs (Decidable (client.engine.Possible event ∧
      (targetChange.isSome = true → event.isRemoteEvent = true) ∧
      ∀ view ∈ client.view, view.Fits targetChange))
  | .addListener id _ _ => inferInstanceAs (Decidable (id ∉ client.listeners.map Prod.fst))
  | .onlineStateChange _ | .removeListener _ | .listenRejected _ => .isTrue trivial

variable {client client' : FirestoreClient} {exact : Prop} {collection : CollectionReference}
  {events : List ClientEvent} {turns : List ClientTurn}

/-- The event can come, and it is undisturbed if the data have to be exact. -/
def Allowed (exact : Prop) (client : FirestoreClient) (event : ClientEvent) : Prop :=
  client.Possible event ∧ (exact → client.Undisturbed event)

theorem Valid.run (h : client.Valid exact collection)
    (hP : Along FirestoreClient.step (Allowed exact) client events) :
    ∃ client' turns, exec FirestoreClient.step client events = .ok (client', turns) ∧
      client'.Valid exact collection :=
  exec_safe (I := fun client => client.Valid exact collection) (fun client event h hp => by
    obtain ⟨client', output, hstep, hvalid, -⟩ := Valid.step h hp.1 hp.2
    exact ⟨client', output, hstep, hvalid⟩) h hP

/-- What one has who has kept up with the listeners since the start. -/
def told {ν : Type} (hear : Option ν → ViewSnapshot → Option ν) (turns : List ClientTurn) :
    ListenerId → Option ν := turns.foldl (hearing hear) fun _ => none

theorem knows_told {ν : Type} {hear : Option ν → ViewSnapshot → Option ν}
    {value : ViewSnapshot → ν} {user : User}
    (hP : Along step (Allowed exact) (new user collection) events)
    (hrun : exec step (new user collection) events = .ok (client, turns)) :
    Knows hear value client (told hear turns) :=
  exec_tracks (I := fun client => client.Valid exact collection) (K := Knows hear value)
    (fun client event client' output h hp hstep => by
      obtain ⟨client₁, output₁, hstep₁, hvalid, -, hknows⟩ := Valid.step h hp.1 hp.2
      rw [hstep] at hstep₁
      cases hstep₁
      exact ⟨hvalid, hknows ν hear value⟩) (valid_new user collection) hP hrun
    ⟨fun _ hl => (by cases hl), fun _ _ => rfl⟩

theorem allowed_of_possible (h : Along step Possible client events) :
    Along step (Allowed False) client events := h.imp fun _ _ hp => ⟨hp, False.elim⟩

/-! ## The documents -/

theorem Listens.upToDate {view : View} {documents : DocumentMap}
    (h : client.Listens exact view client.stored)
    (hdocuments : ∀ key, documents.find? key = client.stored key) :
    List.Forall₂ (fun e e' => e.1 = e'.1 ∧ View.UpToDate exact e.2 e'.2) view.documentSet.entries
      documents.entries :=
  SortedMap.forall₂_entries fun key => hdocuments key ▸ h.shows.documents key

/-- A listener that has not raised anything waits for something. -/
theorem Listens.waits {view : View} {documents : DocumentMap}
    (h : client.Listens exact view client.stored)
    (hdocuments : ∀ key, documents.find? key = client.stored key)
    {l : ListenerId × QueryListener} (hl : l ∈ client.listeners)
    (hraised : l.2.raisedInitialEvent = false) : client.onlineState ≠ .offline ∧
      (l.2.options.waitForSyncWhenOnline = true ∨ documents.entries = []) := by
  obtain ⟨snapshot, -, hisOf, -, hcurrent⟩ := h.snapshot
  have hwaits := (hcurrent l hl).waits hraised
  unfold QueryListener.shouldRaiseInitialEvent at hwaits
  rw [documents_taken, hisOf.documents] at hwaits
  split_ifs at hwaits with hcache hwait
  · simp only [Bool.and_eq_true, decide_eq_true_eq] at hwait
    exact ⟨hwait.2, .inl hwait.1⟩
  · simp only [Bool.or_eq_false_iff, Bool.not_eq_false', decide_eq_false_iff_not] at hwaits
    refine ⟨hwaits.2, .inr ?_⟩
    have hrel := h.upToDate hdocuments
    rw [List.isEmpty_iff.mp hwaits.1] at hrel
    exact List.forall₂_nil_left_iff.mp hrel

theorem Valid.listens (h : client.Valid exact collection) {l : ListenerId × QueryListener}
    (hl : l ∈ client.listeners) : ∃ view, client.view = some view ∧
      client.Listens exact view client.stored := by
  cases hview : client.view with
  | none =>
    rw [(h.watches.idle hview).1] at hl
    cases hl
  | some view => exact ⟨view, rfl, h.watches.listening view hview⟩

/-- The documents a listener has been handed last are those of the view. -/
theorem Listens.told_takeDocuments {user : User} {view : View}
    (h : client.Listens exact view client.stored)
    (hP : Along step (Allowed exact) (new user collection) events)
    (hrun : exec step (new user collection) events = .ok (client, turns))
    {l : ListenerId × QueryListener} (hl : l ∈ client.listeners) :
    told takeDocuments turns l.1 =
      if l.2.raisedInitialEvent = true then some (contents view.documentSet) else none := by
  obtain ⟨snapshot, -, hisOf, -, hcurrent⟩ := h.snapshot
  rw [(knows_told hP hrun).each l hl (keepsUp_takeDocuments l.2.options)]
  split_ifs with hraised
  · rw [(hcurrent l hl).kept_eq hraised (keepsUp_takeDocuments l.2.options), hisOf.documents]
  · exact if_neg hraised

/-- The list has the documents that are stored, but for data of documents whose write has been
acknowledged and not been sent back by the backend yet. -/
def Lists (list : List QueryDocumentSnapshot) (documents : DocumentMap) : Prop :=
  List.Forall₂ (fun listed stored => listed.1 = stored.1 ∧
    (listed.2 = stored.2.data ∨ stored.2.hasCommittedMutations = true)) list documents.entries

/-- Whatever happens in whatever order and whatever listeners come and go, no assertion fails, and a
listener's last list is what the local store has for the query; without one the listener waits for
the backend, or has nothing to show yet, and the client is not offline. -/
theorem listeners_see_store (user : User) (collection : CollectionReference)
    (events : List ClientEvent) (h : Along step Possible (new user collection) events) :
    ∃ client turns, exec step (new user collection) events = .ok (client, turns) ∧
      ∃ documents, client.engine.localStore.executeQuery (.ofCollection collection) = .ok documents ∧
        ∀ l ∈ client.listeners,
          (∀ list, told takeDocuments turns l.1 = some list → Lists list documents) ∧
          (told takeDocuments turns l.1 = none → client.onlineState ≠ .offline ∧
            (l.2.options.waitForSyncWhenOnline = true ∨ documents.entries = [])) := by
  have hallowed := allowed_of_possible h
  obtain ⟨client, turns, hrun, hvalid⟩ := (valid_new user collection).run hallowed
  obtain ⟨documents, hexecute, hdocuments⟩ := hvalid.executeQuery
  refine ⟨client, turns, hrun, documents, hvalid.query ▸ hexecute, fun l hl => ?_⟩
  obtain ⟨view, -, hlistens⟩ := hvalid.listens hl
  rw [hlistens.told_takeDocuments hallowed hrun hl]
  split_ifs with hraised
  · refine ⟨fun list hlist => ?_, fun hnone => by cases hnone⟩
    obtain rfl := Option.some.inj hlist
    unfold Lists contents
    rw [List.forall₂_map_left_iff]
    refine (hlistens.upToDate hdocuments).imp fun e e' he => ⟨he.1, he.2.1.imp_right fun hwait => ?_⟩
    have hboth := hwait.2
    unfold View.shouldWaitForSyncedDocument at hboth
    simp only [Bool.and_eq_true] at hboth
    exact hboth.1.2
  · exact ⟨fun _ hsome => (by cases hsome), fun _ =>
      hlistens.waits hdocuments hl (Bool.not_eq_true _ ▸ hraised)⟩

/-- A client that listens while it is offline, writes, and hears from the backend of its own document
and of another one. -/
def offlineListen : List ClientEvent :=
  [.onlineStateChange .offline, .addListener 0 ⟨true, true, false⟩ .empty,
    .engine (.writeMutations [⟨grocery "Milk", .set [], .none⟩] 0) none,
    .engine (.remoteEvent ⟨2, SortedMap.empty.insert (grocery "Bread")
      (.document ⟨[], 2, .synced⟩)⟩)
      (some ⟨true, SortedMap.empty.insert (grocery "Bread") (), .empty, .empty⟩)]

theorem listeners_see_store_offlineListen :
    ∃ client turns, exec step (new none ⟨["groceries"], rfl⟩) offlineListen = .ok (client, turns) ∧
      ∃ documents, client.engine.localStore.executeQuery (.ofCollection ⟨["groceries"], rfl⟩) =
          .ok documents ∧
        ∀ l ∈ client.listeners,
          (∀ list, told takeDocuments turns l.1 = some list → Lists list documents) ∧
          (told takeDocuments turns l.1 = none → client.onlineState ≠ .offline ∧
            (l.2.options.waitForSyncWhenOnline = true ∨ documents.entries = [])) :=
  listeners_see_store none ⟨["groceries"], rfl⟩ offlineListen (by decide)

/-- Exact documents are handed exactly. -/
theorem Valid.handed_exactly (h : client.Valid True collection) {user : User}
    (hP : Along FirestoreClient.step (Allowed True) (new user collection) events)
    (hrun : exec FirestoreClient.step (new user collection) events = .ok (client, turns))
    {documents : DocumentMap} (hdocuments : ∀ key, documents.find? key = client.stored key)
    {l : ListenerId × QueryListener} (hl : l ∈ client.listeners) {list : List QueryDocumentSnapshot}
    (hlist : told takeDocuments turns l.1 = some list) : list = contents documents := by
  obtain ⟨view, -, hlistens⟩ := h.listens hl
  rw [hlistens.told_takeDocuments hP hrun hl] at hlist
  split_ifs at hlist
  obtain rfl := Option.some.inj hlist
  refine contents_eq_of_forall₂ ((hlistens.upToDate hdocuments).imp fun e e' he => ⟨he.1, ?_⟩)
  obtain ⟨-, hdata | ⟨hnot, -⟩, -⟩ := he
  · exact hdata
  · exact absurd trivial hnot

/-- As long as the user stays, no write is rejected and no answer leaves an earlier answer with other
data in place, the list is exactly what the local store has. -/
theorem listeners_see_exactly (user : User) (collection : CollectionReference)
    (events : List ClientEvent)
    (h : Along step (fun client event => client.Possible event ∧ client.Undisturbed event)
      (new user collection) events) :
    ∃ client turns, exec step (new user collection) events = .ok (client, turns) ∧
      ∃ documents, client.engine.localStore.executeQuery (.ofCollection collection) = .ok documents ∧
        ∀ l ∈ client.listeners, ∀ list, told takeDocuments turns l.1 = some list →
          list = contents documents := by
  have hallowed : Along step (Allowed True) (new user collection) events :=
    h.imp fun _ _ hp => ⟨hp.1, fun _ => hp.2⟩
  obtain ⟨client, turns, hrun, hvalid⟩ := (valid_new user collection).run hallowed
  obtain ⟨documents, hexecute, hdocuments⟩ := hvalid.executeQuery
  exact ⟨client, turns, hrun, documents, hvalid.query ▸ hexecute, fun l hl list hlist =>
    hvalid.handed_exactly hallowed hrun hdocuments hl hlist⟩

/-- The same client when the network comes and the write is answered. -/
def answeredListen : List ClientEvent :=
  offlineListen ++ [.onlineStateChange .online, .engine .enableNetwork none,
    .engine .streamOpened none, .engine (.handshakeResponse []) none,
    .engine (.writeResponse 3 [⟨3⟩] []) none]

theorem listeners_see_exactly_answeredListen :
    ∃ client turns, exec step (new none ⟨["groceries"], rfl⟩) answeredListen = .ok (client, turns) ∧
      ∃ documents, client.engine.localStore.executeQuery (.ofCollection ⟨["groceries"], rfl⟩) =
          .ok documents ∧
        ∀ l ∈ client.listeners, ∀ list, told takeDocuments turns l.1 = some list →
          list = contents documents :=
  listeners_see_exactly none ⟨["groceries"], rfl⟩ answeredListen (by decide)

/-- Over every run, who replays the changes a listener is told, at the places that are told, has the
list that the listener is handed, for every listener. -/
theorem changes_lead_to_documents (user : User) (collection : CollectionReference)
    (events : List ClientEvent) (h : Along step Possible (new user collection) events) :
    ∃ client turns, exec step (new user collection) events = .ok (client, turns) ∧
      told replayChanges turns = told takeDocuments turns := by
  have hallowed := allowed_of_possible h
  obtain ⟨client, turns, hrun, -⟩ := (valid_new user collection).run hallowed
  refine ⟨client, turns, hrun, funext fun id => ?_⟩
  have hchanges : Knows replayChanges (fun snapshot => contents snapshot.documents) client _ :=
    knows_told hallowed hrun
  have hdocuments : Knows takeDocuments (fun snapshot => contents snapshot.documents) client _ :=
    knows_told hallowed hrun
  by_cases hid : id ∈ client.listeners.map Prod.fst
  · obtain ⟨l, hl, rfl⟩ := List.mem_map.mp hid
    rw [hchanges.each l hl (keepsUp_replayChanges l.2.options),
      hdocuments.each l hl (keepsUp_takeDocuments l.2.options)]
  · rw [hchanges.others id hid, hdocuments.others id hid]

theorem changes_lead_to_documents_offlineListen :
    ∃ client turns, exec step (new none ⟨["groceries"], rfl⟩) offlineListen = .ok (client, turns) ∧
      told replayChanges turns = told takeDocuments turns :=
  changes_lead_to_documents none ⟨["groceries"], rfl⟩ offlineListen (by decide)

/-! ## The metadata -/

/-- What is told of pending writes: that of a document with one, and else only that of a document
whose write has been acknowledged and not been sent back by the backend yet; and of the list if it
is told of one of its documents. -/
def TellsPending (list : ListMetadata) (documents : DocumentMap) : Prop :=
  List.Forall₂ (fun listed stored => listed.1.1 = stored.1 ∧
    (stored.2.hasLocalMutations = true → listed.2.pendingWrites = true) ∧
    (listed.2.pendingWrites = true → stored.2.hasPendingWrites = true)) list.2 documents.entries ∧
  (list.1.pendingWrites = true ↔ ∃ listed ∈ list.2, listed.2.pendingWrites = true)

/-- It is told, of the list and of each document in it, that they are not from the cache exactly when
the backend is done with the query and has listed every document that has no pending write. -/
def TellsCached (list : ListMetadata) (view : View) : Prop :=
  (list.1.fromCache = false ↔ view.current = true ∧ ∀ listed ∈ list.2,
    view.syncedDocuments.contains listed.1.1 = true ∨ listed.2.pendingWrites = true) ∧
  ∀ listed ∈ list.2, listed.2.fromCache = list.1.fromCache

/-- A list has pending writes if one of its documents has. -/
theorem Listens.pendingWrites_metadata {view : View} {snapshot : ViewSnapshot}
    (h : client.Listens exact view client.stored) (hisOf : snapshot.IsOf view) :
    snapshot.metadata.pendingWrites = true ↔
      ∃ listed ∈ snapshot.forEachDocument, listed.2.pendingWrites = true := by
  unfold ViewSnapshot.metadata ViewSnapshot.hasPendingWrites ViewSnapshot.forEachDocument
    ViewSnapshot.metadataOf
  rw [hisOf.documents, hisOf.mutatedKeys, Bool.not_eq_true', List.isEmpty_eq_false_iff_exists_mem]
  constructor
  · rintro ⟨e, he⟩
    have hmutated : view.mutatedKeys.contains e.1 = true := by
      rw [← SortedMap.mem_keys]
      exact List.mem_map_of_mem he
    have hany := hmutated
    rw [h.shows.mutated, Option.any_eq_true] at hany
    obtain ⟨doc, hdoc, -⟩ := hany
    exact ⟨_, List.mem_map_of_mem (SortedMap.mem_entries.mpr hdoc), hmutated⟩
  · rintro ⟨listed, hlisted, hpending⟩
    obtain ⟨e, -, rfl⟩ := List.mem_map.mp hlisted
    obtain ⟨e', he', -⟩ := List.mem_map.mp (SortedMap.mem_keys.mpr hpending)
    exact ⟨e', he'⟩

theorem Listens.tellsPending {view : View} {documents : DocumentMap} {snapshot : ViewSnapshot}
    (h : client.Listens exact view client.stored) (hisOf : snapshot.IsOf view)
    (hdocuments : ∀ key, documents.find? key = client.stored key) :
    TellsPending (snapshot.metadata, snapshot.forEachDocument) documents := by
  refine ⟨?_, h.pendingWrites_metadata hisOf⟩
  unfold ViewSnapshot.forEachDocument ViewSnapshot.metadataOf
  simp only
  rw [List.forall₂_map_left_iff, hisOf.documents, hisOf.mutatedKeys]
  have hmutated : ∀ e ∈ view.documentSet.entries,
      view.mutatedKeys.contains e.1 = e.2.hasLocalMutations := by
    intro e he
    rw [h.shows.mutated, SortedMap.mem_entries.mp he, Option.any_some]
  refine ((List.forall₂_and_left _ _).mpr ⟨hmutated, h.upToDate hdocuments⟩).imp fun e e' he => ?_
  obtain ⟨hpending, hkey, -, hshown⟩ := he
  refine ⟨hkey, fun hlocal => ?_, fun hlisted => ?_⟩
  · show view.mutatedKeys.contains e.1 = true
    rw [hpending, hshown, hlocal]
    rfl
  · rw [show e.2.hasLocalMutations = true from hpending ▸ hlisted, Bool.true_and] at hshown
    exact hshown.symm

theorem Listens.tellsCached {view : View} {snapshot : ViewSnapshot}
    (h : client.Listens exact view client.stored) (hisOf : snapshot.IsOf view) :
    TellsCached (snapshot.metadata, snapshot.forEachDocument) view := by
  have hcached : snapshot.fromCache = false ↔ view.syncState = .synced := by
    rw [hisOf.fromCache, decide_eq_false_iff_not]
    have hnone := h.settled.2
    cases hsync : view.syncState <;> simp_all
  have hlimbo : (∀ key, view.shouldBeInLimbo key = false) ↔
      ∀ listed ∈ snapshot.forEachDocument,
        view.syncedDocuments.contains listed.1.1 = true ∨ listed.2.pendingWrites = true := by
    unfold ViewSnapshot.forEachDocument ViewSnapshot.metadataOf View.shouldBeInLimbo
    rw [List.forall_mem_map, hisOf.documents, hisOf.mutatedKeys]
    constructor
    · intro hall e he
      have hkey := hall e.1
      show _ ∨ view.mutatedKeys.contains e.1 = true
      rw [h.shows.mutated]
      rw [SortedMap.mem_entries.mp he, Option.any_some] at hkey ⊢
      rw [Bool.and_eq_false_iff, Bool.not_eq_false', Bool.not_eq_false'] at hkey
      exact hkey
    · intro hall key
      cases hfind : view.documentSet.find? key with
      | none => rw [Option.any_none, Bool.and_false]
      | some doc =>
        have hone := hall (key, doc) (SortedMap.mem_entries.mpr hfind)
        rw [show (_ ∨ view.mutatedKeys.contains key = true) = _ from rfl, h.shows.mutated, hfind,
          Option.any_some] at hone
        rw [Option.any_some, Bool.and_eq_false_iff, Bool.not_eq_false', Bool.not_eq_false']
        exact hone
  constructor
  · show snapshot.fromCache = false ↔ _
    rw [hcached, h.settled.1, hlimbo]
  · intro listed hlisted
    obtain ⟨e, -, rfl⟩ := List.mem_map.mp hlisted
    rfl

/-- Over every run, a listener that asks for all metadata has been told last which documents have
pending writes, and whether the backend has listed the rest, as it is now. -/
theorem metadata_told (user : User) (collection : CollectionReference)
    (events : List ClientEvent) (h : Along step Possible (new user collection) events) :
    ∃ client turns, exec step (new user collection) events = .ok (client, turns) ∧
      ∃ documents, client.engine.localStore.executeQuery (.ofCollection collection) = .ok documents ∧
        ∀ l ∈ client.listeners, l.2.options.includeQueryMetadataChanges = true →
          l.2.options.includeDocumentMetadataChanges = true →
          ∀ list, told takeMetadata turns l.1 = some list → TellsPending list documents ∧
            ∃ view, client.view = some view ∧ TellsCached list view := by
  have hallowed := allowed_of_possible h
  obtain ⟨client, turns, hrun, hvalid⟩ := (valid_new user collection).run hallowed
  obtain ⟨documents, hexecute, hdocuments⟩ := hvalid.executeQuery
  refine ⟨client, turns, hrun, documents, hvalid.query ▸ hexecute, fun l hl hquery hdocument list
    hlist => ?_⟩
  obtain ⟨view, hview, hlistens⟩ := hvalid.listens hl
  obtain ⟨snapshot, -, hisOf, -, hcurrent⟩ := hlistens.snapshot
  have hkeeps := keepsUp_takeMetadata hquery hdocument
  rw [(knows_told hallowed hrun).each l hl hkeeps] at hlist
  have hraised : l.2.raisedInitialEvent = true := by
    by_contra hfalse
    unfold QueryListener.kept at hlist
    rw [if_neg hfalse] at hlist
    cases hlist
  rw [(hcurrent l hl).kept_eq hraised hkeeps] at hlist
  obtain rfl := Option.some.inj hlist
  exact ⟨hlistens.tellsPending hisOf hdocuments, view, hview, hlistens.tellsCached hisOf⟩

theorem metadata_told_offlineListen :
    ∃ client turns, exec step (new none ⟨["groceries"], rfl⟩) offlineListen = .ok (client, turns) ∧
      ∃ documents, client.engine.localStore.executeQuery (.ofCollection ⟨["groceries"], rfl⟩) =
          .ok documents ∧
        ∀ l ∈ client.listeners, l.2.options.includeQueryMetadataChanges = true →
          l.2.options.includeDocumentMetadataChanges = true →
          ∀ list, told takeMetadata turns l.1 = some list → TellsPending list documents ∧
            ∃ view, client.view = some view ∧ TellsCached list view :=
  metadata_told none ⟨["groceries"], rfl⟩ offlineListen (by decide)

/-! ## A client alone -/

/-- The map of documents after an event. -/
def documentsAfter (db : Firestore) : ClientEvent → Firestore
  | .engine event _ => SyncEngine.documentsAfter db event
  | _ => db

/-- The engine is alone with its writes; listeners come and go. -/
def Alone (client : FirestoreClient) : ClientEvent → Prop
  | .engine event _ => client.engine.Alone event
  | _ => True

instance decidableAlone (client : FirestoreClient) : DecidablePred client.Alone
  | .engine event _ => inferInstanceAs (Decidable (client.engine.Alone event))
  | .onlineStateChange _ | .addListener .. | .removeListener _ | .listenRejected _ => .isTrue trivial

theorem Alone.undisturbed {event : ClientEvent} (h : client.Alone event) :
    client.Undisturbed event := by
  cases event with
  | engine event targetChange => exact SyncEngine.Alone.undisturbed h
  | _ => trivial

theorem documents_after {user : User}
    (hP : Along step (fun client event => client.Possible event ∧ client.Alone event)
      (new user collection) events)
    (hrun : exec step (new user collection) events = .ok (client, turns)) :
    client.engine.Shows (events.foldl documentsAfter ∅) := by
  have hfold : client.engine.Shows
      (turns.foldl (fun db turn => documentsAfter db turn.input) ∅) := exec_tracks
    (I := fun client => client.Valid True collection) (K := fun client db => client.engine.Shows db)
    (fun client event client' output h hp hstep => by
      obtain ⟨client₁, output₁, hstep₁, hvalid, hdrives, -⟩ := Valid.step h hp.1 fun _ =>
        hp.2.undisturbed
      rw [hstep] at hstep₁
      cases hstep₁
      refine ⟨hvalid, fun db hshows => ?_⟩
      cases event with
      | engine event targetChange =>
        obtain ⟨emission, hengine⟩ := hdrives
        obtain ⟨-, hanswers⟩ := h.engine.of_step hp.1.1 hengine
        exact hshows.step h.engine hvalid.engine hp.2 hanswers
      | _ =>
        show client'.engine.Shows db
        rw [show client'.engine = client.engine from hdrives]
        exact hshows) (valid_new user collection) hP hrun fun _ => rfl
  rwa [← List.foldl_map, map_input_exec hrun] at hfold

/-- While a client is alone with its writes, a listener's last list is what the calls so far make of
the map of documents. -/
theorem own_writes_heard (user : User) (collection : CollectionReference)
    (events : List ClientEvent)
    (h : Along step (fun client event => client.Possible event ∧ client.Alone event)
      (new user collection) events) :
    ∃ client turns, exec step (new user collection) events = .ok (client, turns) ∧
      ∀ l ∈ client.listeners, ∀ list, told takeDocuments turns l.1 = some list →
        list = Firestore.documents (events.foldl documentsAfter ∅) collection := by
  have hallowed : Along step (Allowed True) (new user collection) events :=
    h.imp fun _ _ hp => ⟨hp.1, fun _ => hp.2.undisturbed⟩
  obtain ⟨client, turns, hrun, hvalid⟩ := (valid_new user collection).run hallowed
  refine ⟨client, turns, hrun, fun l hl list hlist => ?_⟩
  obtain ⟨documents, hexecute, hdocuments⟩ := hvalid.executeQuery
  obtain ⟨documents', hexecute', hcontents⟩ :=
    (documents_after h hrun).executeQuery hvalid.engine collection
  rw [← hvalid.query, hexecute] at hexecute'
  cases hexecute'
  rw [hvalid.handed_exactly hallowed hrun hdocuments hl hlist]
  exact hcontents

/-- A client that listens offline and writes; when the network comes, the document comes back with
the backend's news before the answer. -/
def listenAlone : List ClientEvent :=
  [.onlineStateChange .offline, .addListener 0 .default .empty,
    .engine (.writeMutations [⟨grocery "Milk", .set [], .none⟩] 0) none,
    .onlineStateChange .online, .engine .enableNetwork none, .engine .streamOpened none,
    .engine (.handshakeResponse []) none,
    .engine (.remoteEvent ⟨1, SortedMap.empty.insert (grocery "Milk")
      (.document ⟨[], 1, .synced⟩)⟩)
      (some ⟨true, SortedMap.empty.insert (grocery "Milk") (), .empty, .empty⟩),
    .engine (.writeResponse 1 [⟨1⟩] []) none]

theorem own_writes_heard_listenAlone :
    ∃ client turns, exec step (new none ⟨["groceries"], rfl⟩) listenAlone = .ok (client, turns) ∧
      ∀ l ∈ client.listeners, ∀ list, told takeDocuments turns l.1 = some list →
        list = Firestore.documents (listenAlone.foldl documentsAfter ∅) ⟨["groceries"], rfl⟩ :=
  own_writes_heard none ⟨["groceries"], rfl⟩ listenAlone (by decide)

end FirestoreClient

end GroceryApp.FirestoreCore
