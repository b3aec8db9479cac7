import GroceryApp.FirestoreCore.OwnWrites
import GroceryApp.FirestoreCore.Listening

/-!
# Steps of a client with listeners

The view of a client shows what is stored, its last snapshot is what the view shows, and each
listener has got this snapshot (`Watches`). Every event keeps it so, and whoever keeps up with what
the listeners raise has what each of them has (`Knows`).
-/

namespace GroceryApp.FirestoreCore

open Transducers

/-! ## A round of the view -/

/-- The view has moved on, and the snapshot tells it if there is anything to tell. -/
structure View.Becomes (view view' : View) (snapshot : Option ViewSnapshot) : Prop where
  query : view'.query = view.query
  settled : view'.Settled
  quiet : snapshot = none → view'.documentSet = view.documentSet ∧
    view'.mutatedKeys = view.mutatedKeys ∧ view'.syncState = view.syncState
  told : ∀ new ∈ snapshot, new.IsOf view' ∧ new.Changed ∧ ∀ old, old.IsOf view → new.Follows old

section View

variable {exact : Prop} {view : View} {stored stored' : DocumentKey → Option Document}
  {changes : ViewDocumentChanges} {targetChange : Option TargetChange}

/-- Changes that explain the documents are applied and told. -/
theorem View.Shows.applyChanges (h : view.Shows exact stored) (hexplains : view.Explains changes)
    (hdocuments : ∀ key, Option.Rel (UpToDate exact) (changes.documentSet.find? key) (stored' key))
    (hmutated : ∀ key, changes.mutatedKeys.contains key =
      (changes.documentSet.find? key).any (·.hasLocalMutations))
    (hfits : view.Fits targetChange) :
    ∃ view' viewChange, view.applyChanges changes targetChange = .ok (view', viewChange) ∧
      view.Becomes view' viewChange.snapshot ∧ view'.Shows exact stored' ∧
      (targetChange = none → view.current = false → viewChange.limboChanges = []) := by
  obtain ⟨view', limboChanges, hok, hquery, hset, hkeys, hsettled, hlimbo⟩ :=
    applyChanges_spec view changes hfits
  -- Without a change of a document neither the documents nor the pending ones have changed.
  have hsame : (DocumentViewChangeSet.getChanges changes.changeSet).isEmpty = true →
      view'.documentSet = view.documentSet ∧ view'.mutatedKeys = view.mutatedKeys := by
    intro hnil
    have hset' : changes.documentSet = view.documentSet := by
      refine SortedMap.ext_find fun key => ?_
      have hkey := hexplains key
      unfold ViewDocumentChanges.slot at hkey
      have hfind : changes.changeSet.find? key = none := by
        unfold DocumentViewChangeSet.getChanges at hnil
        rw [List.isEmpty_iff, List.map_eq_nil_iff] at hnil
        unfold SortedMap.find?
        rw [hnil]
        rfl
      rw [hfind] at hkey
      exact hkey
    refine ⟨hset.trans hset', ?_⟩
    rw [hkeys]
    refine SortedMap.ext_find fun key => ?_
    have hkey := hmutated key
    rw [hset', ← h.mutated key] at hkey
    unfold SortedMap.contains at hkey
    cases hfind : changes.mutatedKeys.find? key <;> cases hfind' : view.mutatedKeys.find? key <;>
      simp_all
  refine ⟨view', _, hok, ⟨hquery, hsettled, fun hnone => ?_, fun new hnew => ?_⟩, ⟨fun key => ?_,
    fun key => ?_⟩, hlimbo⟩
  · simp only at hnone
    split_ifs at hnone with hquiet
    exact ⟨(hsame hquiet.1).1, (hsame hquiet.1).2, hquiet.2⟩
  · simp only at hnew
    split_ifs at hnew with hquiet
    · cases hnew
    obtain rfl := Option.some.inj hnew
    have hsort : (((DocumentViewChangeSet.getChanges changes.changeSet).insertionSort
        changeBefore).isEmpty = true) ↔
          (DocumentViewChangeSet.getChanges changes.changeSet).isEmpty = true := by
      rw [List.isEmpty_iff_length_eq_zero, List.isEmpty_iff_length_eq_zero,
        List.length_insertionSort]
    refine ⟨⟨rfl, rfl, rfl⟩, ?_, fun old hold => ⟨hold.documents.symm, ?_, fun hnil => ?_,
      fun hsync => ?_⟩⟩
    · by_cases hnil : (DocumentViewChangeSet.getChanges changes.changeSet).isEmpty = true
      · exact .inr (decide_eq_true fun hsync => hquiet ⟨hnil, hsync⟩)
      · exact .inl (Bool.not_eq_true _ ▸ (not_congr hsort).mpr hnil)
    · show Tells view.documentSet view'.documentSet _
      rw [hset]
      exact hexplains.tells
    · have hboth := hsame (hsort.mp (List.isEmpty_iff.mpr hnil))
      exact ⟨hboth.1.trans hold.documents.symm, hboth.2.trans hold.mutatedKeys.symm⟩
    · have hsync : view'.syncState = view.syncState := not_not.mp (of_decide_eq_false hsync)
      rw [hold.fromCache, ← hsync]
      rfl
  · rw [hset]
    exact hdocuments key
  · rw [hkeys, hset]
    exact hmutated key

end View

/-! ## All listeners -/

/-- What a listener has raised. -/
def heard (raised : List (ListenerId × ViewSnapshot)) (id : ListenerId) : List ViewSnapshot :=
  (raised.filter fun r => decide (r.1 = id)).map Prod.snd

/-- The listeners stay, and who keeps up with what one has raised has what it has. -/
structure Hears (listeners listeners' : List (ListenerId × QueryListener))
    (raised : List (ListenerId × ViewSnapshot)) : Prop where
  ids : listeners'.map Prod.fst = listeners.map Prod.fst
  others : ∀ id, id ∉ listeners.map Prod.fst → heard raised id = []
  each : ∀ l' ∈ listeners', ∃ l ∈ listeners, l.1 = l'.1 ∧ l'.2.options = l.2.options ∧
    ∀ (ν : Type) (hear : Option ν → ViewSnapshot → Option ν) (value : ViewSnapshot → ν),
      KeepsUp l.2.options hear value →
        (heard raised l'.1).foldl hear (l.2.kept value) = l'.2.kept value

section Hears

variable {listeners listeners' listeners'' : List (ListenerId × QueryListener)}
  {raised raised' : List (ListenerId × ViewSnapshot)}

theorem heard_append (id : ListenerId) :
    heard (raised ++ raised') id = heard raised id ++ heard raised' id := by
  unfold heard
  rw [List.filter_append, List.map_append]

theorem heard_raise (id id' : ListenerId) (event : Option ViewSnapshot) :
    heard (FirestoreClient.raise id event) id' = if id = id' then event.toList else [] := by
  unfold heard FirestoreClient.raise
  cases event with
  | none => simp
  | some snapshot => by_cases h : id = id' <;> simp [h]

theorem hears_refl (listeners : List (ListenerId × QueryListener)) :
    Hears listeners listeners [] :=
  ⟨rfl, fun _ _ => rfl, fun l hl => ⟨l, hl, rfl, rfl, fun _ _ _ _ => rfl⟩⟩

theorem Hears.trans (h : Hears listeners listeners' raised)
    (h' : Hears listeners' listeners'' raised') :
    Hears listeners listeners'' (raised ++ raised') := by
  refine ⟨h'.ids.trans h.ids, fun id hid => ?_, fun l'' hl'' => ?_⟩
  · rw [heard_append, h.others id hid, h'.others id (by rwa [h.ids]), List.append_nil]
  · obtain ⟨l', hl', hid', hoptions', hear'⟩ := h'.each l'' hl''
    obtain ⟨l, hl, hid, hoptions, hear⟩ := h.each l' hl'
    refine ⟨l, hl, hid.trans hid', hoptions'.trans hoptions, fun ν f value hkeeps => ?_⟩
    rw [heard_append, List.foldl_append, ← hid', hear ν f value hkeeps, hid']
    exact hear' ν f value (hoptions ▸ hkeeps)

/-- Each listener raises at most one event. -/
theorem hears_of_forall₂ {results : List ((ListenerId × QueryListener) ×
      List (ListenerId × ViewSnapshot))} (hnodup : (listeners.map Prod.fst).Nodup)
    (h : List.Forall₂ (fun l r => r.1.1 = l.1 ∧ ∃ event,
      r.2 = FirestoreClient.raise l.1 event ∧ l.2.Raises r.1.2 event) listeners results) :
    Hears listeners (results.map Prod.fst) (results.flatMap Prod.snd) := by
  induction h with
  | nil => exact hears_refl []
  | @cons l r listeners results hone hrest ih =>
    obtain ⟨⟨id, listener'⟩, raised⟩ := r
    obtain ⟨rfl, event, rfl, hoptions, hraises⟩ := hone
    rw [List.map_cons, List.nodup_cons] at hnodup
    have hrest := ih hnodup.2
    have hself : heard (results.flatMap Prod.snd) l.1 = [] := hrest.others l.1 hnodup.1
    refine ⟨congrArg (List.cons l.1) hrest.ids, fun id hid => ?_, fun l' hl' => ?_⟩
    · rw [List.map_cons, List.mem_cons, not_or] at hid
      rw [List.flatMap_cons, heard_append, hrest.others id hid.2, heard_raise, if_neg (Ne.symm hid.1)]
      rfl
    · rcases List.mem_cons.mp hl' with rfl | hl'
      · refine ⟨l, List.mem_cons_self, rfl, hoptions, fun ν hear value hkeeps => ?_⟩
        rw [List.flatMap_cons, heard_append, hself, heard_raise, if_pos rfl, List.append_nil]
        exact hraises ν hear value hkeeps
      · obtain ⟨l₁, hl₁, hid, hoptions, hraises⟩ := hrest.each l' hl'
        refine ⟨l₁, List.mem_cons_of_mem _ hl₁, hid, hoptions, fun ν hear value hkeeps => ?_⟩
        have hne : l.1 ≠ l'.1 := by
          rw [← hid]
          exact fun h => hnodup.1 (h ▸ List.mem_map_of_mem hl₁)
        rw [List.flatMap_cons, heard_append, heard_raise, if_neg hne, List.nil_append]
        exact hraises ν hear value hkeeps

end Hears

namespace FirestoreClient

/-- A step of a run of the client. -/
abbrev ClientTurn := Turn FirestoreClient ClientEvent Events

variable {client client' : FirestoreClient} {snapshot : ViewSnapshot}
  {collection : CollectionReference} {exact : Prop}

/-- All listeners are handed the snapshot. -/
theorem onViewSnapshot_spec (client : FirestoreClient)
    (hnodup : (client.listeners.map Prod.fst).Nodup)
    (hchanged : snapshot.Changed)
    (hlisteners : ∀ l ∈ client.listeners, l.2.onlineState = client.onlineState ∧
      (l.2.raisedInitialEvent = true → ∃ old,
        l.2.snapshot = some (l.2.options.taken old) ∧ snapshot.Follows old)) :
    ∃ listeners events, client.onViewSnapshot snapshot = .ok
        ({ client with listeners := listeners, viewSnapshot := some snapshot }, ⟨events, []⟩) ∧
      Hears client.listeners listeners events ∧
      ∀ l ∈ listeners, l.2.Current snapshot client.onlineState := by
  have key : ∀ listeners : List (ListenerId × QueryListener),
      (∀ l ∈ listeners, l.2.onlineState = client.onlineState ∧
        (l.2.raisedInitialEvent = true → ∃ old,
          l.2.snapshot = some (l.2.options.taken old) ∧ snapshot.Follows old)) →
      ∃ results : List ((ListenerId × QueryListener) × List (ListenerId × ViewSnapshot)),
        listeners.mapM (hand snapshot) = .ok results ∧
        List.Forall₂ (fun l r => r.1.1 = l.1 ∧ ∃ event,
          r.2 = raise l.1 event ∧ l.2.Raises r.1.2 event) listeners results ∧
        ∀ r ∈ results, r.1.2.Current snapshot client.onlineState := by
    intro listeners
    induction listeners with
    | nil => exact fun _ => ⟨[], rfl, .nil, fun _ h => by cases h⟩
    | cons l listeners ih =>
      intro hall
      obtain ⟨honline, hold⟩ := hall l List.mem_cons_self
      obtain ⟨listener', event, hok, hraises, hcurrent⟩ :=
        l.2.onViewSnapshot_spec hchanged hold
      obtain ⟨results, hmap, hrel, hall'⟩ := ih fun l' hl' => hall l' (List.mem_cons_of_mem l hl')
      refine ⟨((l.1, listener'), raise l.1 event) :: results, ?_, .cons ⟨rfl, event, rfl, hraises⟩
        hrel, fun r hr => ?_⟩
      · rw [List.mapM_cons, hmap]
        unfold hand
        rw [hok]
        rfl
      · rcases List.mem_cons.mp hr with rfl | hr
        · exact honline ▸ hcurrent
        · exact hall' r hr
  obtain ⟨results, hmap, hrel, hcurrent⟩ := key client.listeners hlisteners
  refine ⟨results.map Prod.fst, results.flatMap Prod.snd, ?_, hears_of_forall₂ hnodup hrel,
    fun l hl => ?_⟩
  · unfold onViewSnapshot
    rw [hmap]
    rfl
  · obtain ⟨r, hr, rfl⟩ := List.mem_map.mp hl
    exact hcurrent r hr

/-! ## The invariant -/

/-- The view shows what is stored, and each listener has got its last snapshot. -/
structure Listens (client : FirestoreClient) (exact : Prop) (view : View)
    (stored : DocumentKey → Option Document) : Prop where
  nonempty : client.listeners ≠ []
  query : view.query = client.query
  shows : view.Shows exact stored
  settled : view.Settled
  snapshot : ∃ snapshot, client.viewSnapshot = some snapshot ∧ snapshot.IsOf view ∧
    snapshot.Changed ∧ ∀ l ∈ client.listeners, l.2.Current snapshot client.onlineState

/-- There is a view exactly while there are listeners, and then it shows what is stored. -/
structure Watches (client : FirestoreClient) (exact : Prop)
    (stored : DocumentKey → Option Document) : Prop where
  nodup : (client.listeners.map Prod.fst).Nodup
  idle : client.view = none → client.listeners = [] ∧ client.viewSnapshot = none
  listening : ∀ view, client.view = some view → client.Listens exact view stored

/-- The documents that are stored for the query. -/
def stored (client : FirestoreClient) (key : DocumentKey) : Option Document :=
  (client.engine.shown key).filter fun doc => client.query.matchesDoc key doc

/-- What holds of a client in every state that is reached. -/
structure Valid (client : FirestoreClient) (exact : Prop) (collection : CollectionReference) :
    Prop where
  engine : client.engine.Valid
  query : client.query = .ofCollection collection
  watches : client.Watches exact client.stored

theorem valid_new (user : User) (collection : CollectionReference) :
    (new user collection).Valid exact collection where
  engine := SyncEngine.valid_new user
  query := rfl
  watches := ⟨List.nodup_nil, fun _ => ⟨rfl, rfl⟩, fun _ h => by cases h⟩

/-- What one who keeps up with the listeners has after another step. -/
def hearing {ν : Type} (hear : Option ν → ViewSnapshot → Option ν) (known : ListenerId → Option ν)
    (turn : ClientTurn) (id : ListenerId) : Option ν :=
  if ClientEvent.stops id turn.input then none
  else (heard turn.output.snapshots id).foldl hear (known id)

/-- It is what each listener has. -/
structure Knows {ν : Type} (hear : Option ν → ViewSnapshot → Option ν) (value : ViewSnapshot → ν)
    (client : FirestoreClient) (known : ListenerId → Option ν) : Prop where
  each : ∀ l ∈ client.listeners, KeepsUp l.2.options hear value → known l.1 = l.2.kept value
  others : ∀ id, id ∉ client.listeners.map Prod.fst → known id = none

theorem hears_knows {ν : Type}
    {hear : Option ν → ViewSnapshot → Option ν} {value : ViewSnapshot → ν}
    {known : ListenerId → Option ν} {raised : List (ListenerId × ViewSnapshot)}
    (h : Hears client.listeners client'.listeners raised) (hknows : Knows hear value client known) :
    Knows hear value client' fun id => (heard raised id).foldl hear (known id) := by
  refine ⟨fun l' hl' hkeeps => ?_, fun id hid => ?_⟩
  · obtain ⟨l, hl, hid, hoptions, hear'⟩ := h.each l' hl'
    rw [← hid, hknows.each l hl (hoptions ▸ hkeeps), hid]
    exact hear' ν hear value (hoptions ▸ hkeeps)
  · rw [h.ids] at hid
    rw [h.others id hid, hknows.others id hid]
    rfl

/-! ## Events -/

/-- The engine takes its own events only. -/
def Drives (client client' : FirestoreClient) : ClientEvent → Prop
  | .engine event _ => ∃ emission, client.engine.step event = .ok (client'.engine, emission)
  | _ => client'.engine = client.engine

/-- The event does not fail, and the listeners can be kept up with. -/
def Succeeds (client : FirestoreClient) (exact : Prop) (collection : CollectionReference)
    (event : ClientEvent) : Prop :=
  ∃ client' events, client.step event = .ok (client', events) ∧ client'.Valid exact collection ∧
    client.Drives client' event ∧
    ∀ (ν : Type) (hear : Option ν → ViewSnapshot → Option ν) (value : ViewSnapshot → ν)
      (known : ListenerId → Option ν), Knows hear value client known →
        Knows hear value client' (hearing hear known ⟨client, event, events⟩)

/-- The client with another engine. -/
def setEngine (client : FirestoreClient) (engine : SyncEngine) : FirestoreClient :=
  { client with engine := engine }

theorem Watches.setEngine {stored : DocumentKey → Option Document} (h : client.Watches exact stored)
    (engine : SyncEngine) : (client.setEngine engine).Watches exact stored where
  nodup := h.nodup
  idle := h.idle
  listening view hview :=
    have hlistens := h.listening view hview
    ⟨hlistens.nonempty, hlistens.query, hlistens.shows, hlistens.settled, hlistens.snapshot⟩

/-- The client after a round of its view. -/
def after (client : FirestoreClient) (view : View) (listeners : List (ListenerId × QueryListener))
    (viewSnapshot : Option ViewSnapshot) : FirestoreClient :=
  { client with view := some view, listeners := listeners, viewSnapshot := viewSnapshot }

/-- The client with another view. -/
def setView (client : FirestoreClient) (view : View) : FirestoreClient :=
  { client with view := some view }

/-- A round of the view reaches all listeners. -/
theorem Listens.onViewChange {view view' : View} {viewChange : ViewChange}
    {stored stored' : DocumentKey → Option Document} (h : client.Listens exact view stored)
    (hnodup : (client.listeners.map Prod.fst).Nodup)
    (hbecomes : view.Becomes view' viewChange.snapshot) (hshows : view'.Shows exact stored') :
    ∃ listeners viewSnapshot raised, client.onViewChange view' viewChange =
        .ok (client.after view' listeners viewSnapshot, ⟨raised, []⟩) ∧
      Hears client.listeners listeners raised ∧
      (client.after view' listeners viewSnapshot).Listens exact view' stored' := by
  obtain ⟨old, hold, hisOf, hchanged, hcurrent⟩ := h.snapshot
  unfold FirestoreClient.onViewChange
  cases hsnapshot : viewChange.snapshot with
  | none =>
    obtain ⟨hdocuments, hkeys, hsync⟩ := hbecomes.quiet hsnapshot
    refine ⟨client.listeners, client.viewSnapshot, [], rfl, hears_refl _, h.nonempty,
      hbecomes.query.trans h.query, hshows, hbecomes.settled, old, hold, ⟨?_, ?_, ?_⟩, hchanged,
      hcurrent⟩
    · exact hisOf.documents.trans hdocuments.symm
    · exact hisOf.mutatedKeys.trans hkeys.symm
    · rw [hisOf.fromCache, hsync]
  | some new =>
    obtain ⟨hnew, hchanged', hfollows⟩ := hbecomes.told new hsnapshot
    obtain ⟨listeners, raised, hok, hhears, hcurrent'⟩ := onViewSnapshot_spec
      (client.setView view') hnodup hchanged' fun l hl =>
        ⟨(hcurrent l hl).online, fun _ => ⟨old, (hcurrent l hl).taken, hfollows old hisOf⟩⟩
    refine ⟨listeners, some new, raised, hok, hhears, fun hnil => h.nonempty ?_,
      hbecomes.query.trans h.query, hshows, hbecomes.settled, new, rfl, hnew, hchanged', hcurrent'⟩
    have hids := hhears.ids
    rw [show listeners = [] from hnil] at hids
    exact List.map_eq_nil_iff.mp hids.symm

/-- What is stored for the query, as the engine has reported it. -/
theorem stored_reported {engine : SyncEngine} {changes : Option MaybeDocumentMap}
    (h : LocalStore.Reported client.engine.localStore engine.localStore changes)
    (key : DocumentKey) :
    (∀ maybeDoc, changes.bind (·.find? key) = some maybeDoc →
      (asDocument (some maybeDoc)).filter (client.query.matchesDoc key) =
        (client.setEngine engine).stored key) ∧
    (changes.bind (·.find? key) = none →
      (client.setEngine engine).stored key = client.stored key) := by
  have hstored : ∀ maybeDoc : Option Document, maybeDoc = engine.shown key →
      maybeDoc.filter (client.query.matchesDoc key) = (client.setEngine engine).stored key :=
    fun _ h => by rw [h]; rfl
  cases changes with
  | none => exact ⟨fun _ hfind => (by cases hfind), fun _ => (hstored _ (congrArg asDocument
      (h key).symm)).symm⟩
  | some changes =>
    exact ⟨fun maybeDoc hfind => hstored _ (h.reported key maybeDoc hfind),
      fun hfind => (hstored _ (congrArg asDocument (h.frame key hfind).symm)).symm⟩

/-- The view takes the documents the engine has reported. -/
theorem Valid.emitNewSnapshots (h : client.Valid exact collection) {engine : SyncEngine}
    (hengine : engine.Valid)
    (hsteady : exact → View.Steady client.stored (client.setEngine engine).stored)
    {changes : MaybeDocumentMap}
    (hreported : LocalStore.Reported client.engine.localStore engine.localStore (some changes))
    {targetChange : Option TargetChange} (hfits : ∀ view ∈ client.view, view.Fits targetChange) :
    ∃ client' raised, (client.setEngine engine).emitNewSnapshots changes targetChange =
        .ok (client', ⟨raised, []⟩) ∧ client'.Valid exact collection ∧ client'.engine = engine ∧
      Hears client.listeners client'.listeners raised := by
  have hwatches := h.watches.setEngine engine
  unfold FirestoreClient.emitNewSnapshots
  cases hview : (client.setEngine engine).view with
  | none =>
    refine ⟨client.setEngine engine, [], rfl, ⟨hengine, h.query, hwatches.nodup, hwatches.idle,
      fun view hsome => ?_⟩, rfl, hears_refl _⟩
    rw [hview] at hsome
    cases hsome
  | some view =>
    have hlistens := hwatches.listening view hview
    obtain ⟨viewDocChanges, hcompute, hexplains, hdocuments, hmutated⟩ :=
      hlistens.shows.computeDocumentChanges hsteady changes
        (fun key maybeDoc hfind => by
          unfold View.newDocument
          rw [hlistens.query]
          exact (stored_reported hreported key).1 maybeDoc hfind)
        fun key hfind => (stored_reported hreported key).2 hfind
    obtain ⟨view', viewChange, happly, hbecomes, hshows, -⟩ :=
      hlistens.shows.applyChanges hexplains hdocuments hmutated (hfits view hview)
    obtain ⟨listeners, viewSnapshot, raised, hok, hhears, hlistens'⟩ :=
      hlistens.onViewChange hwatches.nodup hbecomes hshows
    refine ⟨(client.setEngine engine).after view' listeners viewSnapshot, raised, ?_, ⟨hengine,
      h.query, ?_, fun hnone => (by cases hnone), fun view₁ hview₁ => ?_⟩, rfl, hhears⟩
    · simp only [hcompute, happly, bind, Except.bind]
      exact hok
    · exact hhears.ids.symm ▸ h.watches.nodup
    · obtain rfl := Option.some.inj hview₁
      exact hlistens'

/-- The engine is undisturbed; listeners come and go. -/
def Undisturbed (client : FirestoreClient) : ClientEvent → Prop
  | .engine event _ => client.engine.Undisturbed event
  | _ => True

instance decidableUndisturbed (client : FirestoreClient) : DecidablePred client.Undisturbed
  | .engine event _ => inferInstanceAs (Decidable (client.engine.Undisturbed event))
  | .onlineStateChange _ | .addListener .. | .removeListener _ | .listenRejected _ => .isTrue trivial

theorem Valid.engineEvent (h : client.Valid exact collection) {event : EngineEvent}
    {targetChange : Option TargetChange} (hp : client.Possible (.engine event targetChange))
    (hu : exact → client.Undisturbed (.engine event targetChange)) :
    Succeeds client exact collection (.engine event targetChange) := by
  obtain ⟨engine, emission, hstep, hengine, hanswers⟩ := h.engine.step hp.1
  have hreported := hanswers.reported
  unfold Succeeds FirestoreClient.step
  simp only [hstep, bind, Except.bind]
  cases hchanges : emission.changes with
  | none =>
    rw [hchanges] at hreported
    have hsame : (client.setEngine engine).stored = client.stored :=
      funext fun key => (stored_reported hreported key).2 rfl
    refine ⟨client.setEngine engine, .nothing, rfl, ⟨hengine, h.query, ?_⟩, ⟨emission, hstep⟩,
      fun ν hear value known hknows => ⟨hknows.each, hknows.others⟩⟩
    rw [hsame]
    exact h.watches.setEngine engine
  | some changes =>
    rw [hchanges] at hreported
    have hsteady : exact → View.Steady client.stored (client.setEngine engine).stored :=
      fun hexact key old hold new hnew => hanswers.steady h.engine hengine (hu hexact)
        (Option.filter_eq_some_iff.mp hold).1 (Option.filter_eq_some_iff.mp hnew).1
    obtain ⟨client', raised, hok, hvalid, rfl, hhears⟩ :=
      h.emitNewSnapshots hengine hsteady hreported hp.2.2
    exact ⟨client', _, hok, hvalid, ⟨emission, hstep⟩, fun ν hear value known hknows =>
      hears_knows hhears hknows⟩

/-! ## Going online and offline -/

theorem Watches.onlineStateChanged {stored : DocumentKey → Option Document}
    (h : client.Watches exact stored) (onlineState : OnlineState) :
    (client.onlineStateChanged onlineState).1.Watches exact stored ∧
      Hears client.listeners (client.onlineStateChanged onlineState).1.listeners
        (client.onlineStateChanged onlineState).2 := by
  have hcurrent : ∀ l ∈ client.listeners, ∃ snapshot,
      l.2.Current snapshot client.onlineState := by
    intro l hl
    cases hview : client.view with
    | none =>
      rw [(h.idle hview).1] at hl
      cases hl
    | some view =>
      obtain ⟨snapshot, -, -, -, hcurrent⟩ := (h.listening view hview).snapshot
      exact ⟨snapshot, hcurrent l hl⟩
  have hhears : Hears client.listeners (client.onlineStateChanged onlineState).1.listeners
      (client.onlineStateChanged onlineState).2 := by
    refine hears_of_forall₂ h.nodup ?_
    rw [List.forall₂_map_right_iff, List.forall₂_same]
    intro l hl
    obtain ⟨snapshot, hl⟩ := hcurrent l hl
    exact ⟨rfl, _, rfl, (hl.onlineStateChanged onlineState).1⟩
  refine ⟨⟨hhears.ids.symm ▸ h.nodup, fun hview => ?_, fun view hview => ?_⟩, hhears⟩
  · have hidle := h.idle hview
    refine ⟨?_, hidle.2⟩
    unfold FirestoreClient.onlineStateChanged
    rw [hidle.1]
    rfl
  · have hlistens := h.listening view hview
    obtain ⟨snapshot, hsnapshot, hisOf, hchanged, hcurrent⟩ := hlistens.snapshot
    refine ⟨fun hnil => hlistens.nonempty ?_, hlistens.query, hlistens.shows, hlistens.settled,
      snapshot, hsnapshot, hisOf, hchanged, fun l' hl' => ?_⟩
    · have hids := hhears.ids
      rw [hnil] at hids
      exact List.map_eq_nil_iff.mp hids.symm
    · unfold FirestoreClient.onlineStateChanged at hl'
      simp only [List.map_map, List.mem_map] at hl'
      obtain ⟨l, hl, rfl⟩ := hl'
      exact ((hcurrent l hl).onlineStateChanged onlineState).2

/-- Offline a view is not current any more, and no document comes into limbo by that. -/
theorem shows_applyOnlineStateChange {view : View} {stored : DocumentKey → Option Document}
    (h : view.Shows exact stored) (hsettled : view.Settled) (onlineState : OnlineState) :
    ∃ view' viewChange, view.applyOnlineStateChange onlineState = .ok (view', viewChange) ∧
      view.Becomes view' viewChange.snapshot ∧ view'.Shows exact stored ∧
      viewChange.limboChanges = [] := by
  unfold View.applyOnlineStateChange
  split_ifs
  · have hoff : { view with current := false }.Shows exact stored := ⟨h.documents, h.mutated⟩
    obtain ⟨view', viewChange, hok, hbecomes, hshows, hlimbo⟩ := hoff.applyChanges
      (View.explains_unchanged _) hoff.documents hoff.mutated
      (View.fits_none _)
    exact ⟨view', viewChange, hok, ⟨hbecomes.query, hbecomes.settled, hbecomes.quiet,
      fun new hnew => ⟨(hbecomes.told new hnew).1, (hbecomes.told new hnew).2.1, fun old hold =>
        (hbecomes.told new hnew).2.2 old ⟨hold.documents, hold.mutatedKeys, hold.fromCache⟩⟩⟩,
      hshows, hlimbo rfl rfl⟩
  · exact ⟨view, _, rfl, ⟨rfl, hsettled, fun _ => ⟨rfl, rfl, rfl⟩, fun _ hnone => by cases hnone⟩, h,
      rfl⟩

theorem Valid.onlineStateChange (h : client.Valid exact collection) (onlineState : OnlineState) :
    Succeeds client exact collection (.onlineStateChange onlineState) := by
  have key : ∀ (client₁ : FirestoreClient) (raised : List (ListenerId × ViewSnapshot)),
      client₁.engine = client.engine → client₁.query = client.query →
      client₁.Watches exact client.stored → Hears client.listeners client₁.listeners raised →
      ∃ client' raised', (client₁.onlineStateChanged onlineState) = (client', raised') ∧
        client'.Valid exact collection ∧ client'.engine = client.engine ∧
        ∀ (ν : Type) (hear : Option ν → ViewSnapshot → Option ν) (value : ViewSnapshot → ν)
          (known : ListenerId → Option ν), Knows hear value client known →
            Knows hear value client' fun id =>
              (heard (raised ++ raised') id).foldl hear (known id) := by
    intro client₁ raised hengine hquery hwatches hhears
    obtain ⟨hwatches', hhears'⟩ := hwatches.onlineStateChanged onlineState
    refine ⟨(client₁.onlineStateChanged onlineState).1, _, rfl, ⟨?_, ?_, ?_⟩, hengine,
      fun ν hear value known hknows => hears_knows (hhears.trans hhears') hknows⟩
    · show client₁.engine.Valid
      rw [hengine]
      exact h.engine
    · show client₁.query = _
      rw [hquery]
      exact h.query
    · have hstored : (client₁.onlineStateChanged onlineState).1.stored = client.stored := by
        unfold stored
        rw [← hengine, ← hquery]
        rfl
      rw [hstored]
      exact hwatches'
  unfold Succeeds FirestoreClient.step FirestoreClient.handleOnlineStateChange
  cases hview : client.view with
  | none =>
    obtain ⟨client', raised', hok, hvalid, hknows⟩ := key client [] rfl rfl h.watches (hears_refl _)
    simp only [hok, bind, Except.bind, pure, Except.pure]
    exact ⟨client', _, rfl, hvalid, hknows⟩
  | some view =>
    have hlistens := h.watches.listening view hview
    obtain ⟨view', viewChange, happly, hbecomes, hshows, hlimbo⟩ :=
      shows_applyOnlineStateChange hlistens.shows hlistens.settled onlineState
    obtain ⟨listeners, viewSnapshot, raised, hround, hhears, hlistens'⟩ :=
      hlistens.onViewChange h.watches.nodup hbecomes hshows
    obtain ⟨client', raised', hok, hvalid, hknows⟩ := key (client.after view' listeners viewSnapshot)
      raised rfl rfl ⟨hhears.ids.symm ▸ h.watches.nodup, fun hnone => (by cases hnone),
        fun view₁ hview₁ => (by cases hview₁; exact hlistens')⟩ hhears
    simp only [happly, hlimbo, List.isEmpty_nil, if_true, hround, hok, bind, Except.bind, pure,
      Except.pure]
    exact ⟨client', _, rfl, hvalid, hknows⟩

/-! ## Listeners come and go -/

/-- The first look at the query finds what is stored for it. -/
theorem Valid.executeQuery (h : client.Valid exact collection) :
    ∃ documents, client.engine.localStore.executeQuery client.query = .ok documents ∧
      ∀ key, documents.find? key = client.stored key := by
  have hquery := h.query
  obtain ⟨documents, hok, hfind⟩ := LocalDocumentsView.find?_getDocumentsMatchingCollectionQuery
    client.engine.localStore.localDocuments h.engine.localStore.mutationQueue
    h.engine.localStore.readTimes (Query.matchesAllDocuments_ofCollection collection)
  refine ⟨documents, hquery ▸ hok, fun key => ?_⟩
  rw [hfind key]
  unfold stored Query.matchesDoc
  rw [hquery]
  show (if Firestore.isImmediateParentOf collection key = true then client.engine.shown key
    else none) = (client.engine.shown key).filter fun _ =>
      Firestore.isImmediateParentOf collection key && true
  rw [Bool.and_true]
  cases client.engine.shown key <;> cases Firestore.isImmediateParentOf collection key <;> rfl

theorem shows_new (exact : Prop) (query : Query) (remoteKeys : DocumentKeySet) :
    (View.new query remoteKeys).Shows exact fun _ => none :=
  ⟨fun _ => .none, fun _ => rfl⟩

/-- The first listener is handed what is stored. -/
theorem Valid.listen (h : client.Valid exact collection) (hnil : client.listeners = [])
    (id : ListenerId) (listener : QueryListener)
    (honline : listener.onlineState = client.onlineState)
    (hraised : listener.raisedInitialEvent = false) (remoteKeys : DocumentKeySet) :
    ∃ client' raised, (client.withListener id listener).listen remoteKeys =
        .ok (client', ⟨raised, []⟩) ∧ client'.Valid exact collection ∧
      client'.engine = client.engine ∧
      Hears (client.withListener id listener).listeners client'.listeners raised := by
  obtain ⟨documents, hexecute, hdocuments⟩ := h.executeQuery
  obtain ⟨viewDocChanges, hcompute, hexplains, hset, hmutated⟩ :=
    (shows_new exact client.query remoteKeys).computeDocumentChanges
      (show exact → View.Steady (fun _ => none) client.stored from fun _ _ _ hold => by cases hold)
      (documents.filterMap fun _ doc => some (.document doc))
      (fun key maybeDoc hfind => by
        rw [SortedMap.find?_filterMap, hdocuments key] at hfind
        obtain ⟨doc, hdoc, hmaybe⟩ := Option.bind_eq_some_iff.mp hfind
        obtain rfl := Option.some.inj hmaybe
        rw [hdoc]
        unfold stored at hdoc
        exact Option.filter_eq_some_iff.mpr ⟨rfl, (Option.filter_eq_some_iff.mp hdoc).2⟩)
      fun key hfind => by
        rw [SortedMap.find?_filterMap, hdocuments key] at hfind
        cases hdoc : client.stored key with
        | none => rfl
        | some doc =>
          rw [hdoc] at hfind
          cases hfind
  obtain ⟨view', viewChange, happly, hbecomes, hshows, -⟩ :=
    (shows_new exact client.query remoteKeys).applyChanges hexplains hset hmutated
      (View.fits_none _)
  unfold FirestoreClient.listen
  rw [show (client.withListener id listener).engine.localStore.executeQuery
    (client.withListener id listener).query = _ from hexecute]
  rw [show (client.withListener id listener).query = client.query from rfl]
  simp only [hcompute, happly, bind, Except.bind]
  unfold FirestoreClient.onViewChange
  cases hsnapshot : viewChange.snapshot with
  | none => exact absurd (hbecomes.quiet hsnapshot).2.2 hbecomes.settled.2
  | some snapshot =>
    obtain ⟨hisOf, hchanged, -⟩ := hbecomes.told snapshot hsnapshot
    have hone : (client.withListener id listener).listeners = [(id, listener)] := by
      unfold withListener
      rw [hnil]
      rfl
    obtain ⟨listeners, raised, hok, hhears, hcurrent⟩ := onViewSnapshot_spec
      ((client.withListener id listener).setView view')
      (hone ▸ List.nodup_singleton id) hchanged fun l hl => by
        rw [show ((client.withListener id listener).setView view').listeners = _ from hone] at hl
        obtain rfl := List.mem_singleton.mp hl
        exact ⟨honline, fun h => by rw [hraised] at h; cases h⟩
    have hids : listeners.map Prod.fst = [id] := by
      rw [hhears.ids]
      exact congrArg (List.map Prod.fst) hone
    refine ⟨client.after view' listeners (some snapshot), raised, ?_, ⟨h.engine, h.query,
      hids.symm ▸ List.nodup_singleton id, fun hnone => (by cases hnone), fun view hview' => ?_⟩,
      rfl, hhears⟩
    · exact hok
    obtain rfl := Option.some.inj hview'
    refine ⟨fun hnil => ?_, hbecomes.query, hshows, hbecomes.settled, snapshot, rfl, hisOf, hchanged,
      hcurrent⟩
    rw [show listeners = [] from hnil] at hids
    cases hids

/-- A new listener can be kept up with. -/
theorem Knows.add {ν : Type} {hear : Option ν → ViewSnapshot → Option ν} {value : ViewSnapshot → ν}
    {known : ListenerId → Option ν} (h : Knows hear value client known) {id : ListenerId}
    (hid : id ∉ client.listeners.map Prod.fst) (listener : QueryListener)
    (event : Option ViewSnapshot) (hevent : KeepsUp listener.options hear value →
      event.toList.foldl hear none = listener.kept value) :
    Knows hear value (client.withListener id listener) fun id' =>
      (heard (raise id event) id').foldl hear (known id') := by
  refine ⟨fun l hl hkeeps => ?_, fun id' hid' => ?_⟩
  · rw [heard_raise]
    rcases List.mem_append.mp hl with hl | hl
    · rw [if_neg fun heq : id = l.1 => hid (heq ▸ List.mem_map_of_mem hl)]
      exact h.each l hl hkeeps
    · obtain rfl := List.mem_singleton.mp hl
      rw [if_pos rfl, h.others id hid]
      exact hevent hkeeps
  · unfold withListener at hid'
    rw [List.map_append, List.mem_append, not_or] at hid'
    rw [heard_raise, if_neg fun heq : id = id' => hid'.2 (heq ▸ List.mem_cons_self),
      h.others id' hid'.1]
    rfl

theorem Valid.addListener (h : client.Valid exact collection) {id : ListenerId}
    (hid : id ∉ client.listeners.map Prod.fst) (options : ListenOptions)
    (remoteKeys : DocumentKeySet) :
    Succeeds client exact collection (.addListener id options remoteKeys) := by
  unfold Succeeds FirestoreClient.step FirestoreClient.addQueryListener
  have hnew : (QueryListener.new options).onOnlineStateChanged client.onlineState =
    (⟨options, client.onlineState, false, none⟩, none) := rfl
  simp only [hnew, Option.isSome_none, Bool.false_eq_true, if_false]
  rcases hview : client.view with _ | view
  · obtain ⟨hlisteners, hsnapshot⟩ := h.watches.idle hview
    obtain ⟨client', raised, hok, hvalid, hengine, hhears⟩ := h.listen hlisteners id
      ⟨options, client.onlineState, false, none⟩ rfl rfl remoteKeys
    simp only [hsnapshot, hlisteners, List.isEmpty_nil, if_true, bind, Except.bind, pure, Except.pure,
      hok]
    exact ⟨client', _, rfl, hvalid, hengine, fun ν hear value known hknows => hears_knows hhears
      (hknows.add hid _ none fun _ => rfl)⟩
  · have hlistens := h.watches.listening view hview
    obtain ⟨snapshot, hsnapshot, hisOf, hchanged, hcurrent⟩ := hlistens.snapshot
    obtain ⟨listener', event, hok, hraises, hcurrent'⟩ := QueryListener.onViewSnapshot_spec
      ⟨options, client.onlineState, false, none⟩ hchanged fun h => by cases h
    have hne : client.listeners.isEmpty = false := by
      rw [List.isEmpty_eq_false_iff]
      exact hlistens.nonempty
    simp only [hsnapshot, hok, hne, bind, Except.bind, pure, Except.pure, Bool.false_eq_true,
      if_false]
    refine ⟨client.withListener id listener', _, rfl, ⟨h.engine, h.query, ?_, fun hnone => ?_,
      fun view₁ hview₁ => ?_⟩, rfl, fun ν hear value known hknows =>
      hknows.add hid listener' event fun hkeeps =>
        hraises.2 ν hear value (hraises.1 ▸ hkeeps)⟩
    · show ((client.listeners ++ [(id, listener')]).map Prod.fst).Nodup
      rw [List.map_append, List.nodup_append]
      refine ⟨h.watches.nodup, List.nodup_singleton id, fun id₁ hid₁ id₂ hid₂ heq => hid ?_⟩
      rw [← show id₂ = id from List.mem_singleton.mp hid₂, ← heq]
      exact hid₁
    · rw [show client.view = none from hnone] at hview
      cases hview
    · rw [show client.view = some view₁ from hview₁] at hview
      obtain rfl := Option.some.inj hview
      refine ⟨List.append_ne_nil_of_right_ne_nil _ (List.cons_ne_nil _ _), hlistens.query,
        hlistens.shows, hlistens.settled, snapshot, hsnapshot, hisOf, hchanged, fun l hl => ?_⟩
      rcases List.mem_append.mp hl with hl | hl
      · exact hcurrent l hl
      · obtain rfl := List.mem_singleton.mp hl
        exact hcurrent'

theorem Valid.removeListener (h : client.Valid exact collection) (id : ListenerId) :
    Succeeds client exact collection (.removeListener id) := by
  have hids : ∀ id' ∈ (client.listeners.filter fun l => decide (l.1 ≠ id)).map Prod.fst,
      id' ≠ id ∧ id' ∈ client.listeners.map Prod.fst := by
    intro id' hid'
    obtain ⟨l, hl, rfl⟩ := List.mem_map.mp hid'
    obtain ⟨hmem, hne⟩ := List.mem_filter.mp hl
    exact ⟨of_decide_eq_true hne, List.mem_map_of_mem hmem⟩
  have hknows : ∀ (ν : Type) (hear : Option ν → ViewSnapshot → Option ν) (value : ViewSnapshot → ν)
      (known : ListenerId → Option ν), Knows hear value client known →
      ∀ client' : FirestoreClient,
        client'.listeners = client.listeners.filter (fun l => decide (l.1 ≠ id)) →
        Knows hear value client' (hearing hear known ⟨client, .removeListener id, .nothing⟩) := by
    intro ν hear value known hknows client' hlisteners
    refine ⟨fun l hl hkeeps => ?_, fun id' hid' => ?_⟩ <;> unfold hearing ClientEvent.stops
    · rw [hlisteners] at hl
      rw [if_neg (by simpa using (hids _ (List.mem_map_of_mem hl)).1.symm)]
      exact hknows.each l (List.mem_filter.mp hl).1 hkeeps
    · by_cases heq : id = id'
      · rw [if_pos (by simpa using heq)]
      · rw [if_neg (by simpa using heq)]
        refine hknows.others id' fun hmem => hid' ?_
        obtain ⟨l, hl, rfl⟩ := List.mem_map.mp hmem
        rw [hlisteners]
        exact List.mem_map_of_mem (List.mem_filter.mpr ⟨hl, decide_eq_true (Ne.symm heq)⟩)
  unfold Succeeds FirestoreClient.step FirestoreClient.removeQueryListener
  simp only
  split_ifs with hempty
  · have hnil := List.isEmpty_iff.mp hempty
    exact ⟨_, _, rfl, ⟨h.engine, h.query, List.nodup_nil, fun _ => ⟨rfl, rfl⟩, fun view hsome => by
      cases hsome⟩, rfl, fun ν hear value known hk => hknows ν hear value known hk _ hnil.symm⟩
  · refine ⟨_, _, rfl, ⟨h.engine, h.query, h.watches.nodup.sublist (List.filter_sublist.map _),
      fun hview => ?_, fun view hview => ?_⟩, rfl, fun ν hear value known hk =>
        hknows ν hear value known hk _ rfl⟩
    · rw [(h.watches.idle hview).1] at hempty
      exact absurd rfl hempty
    · have hlistens := h.watches.listening view hview
      obtain ⟨snapshot, hsnapshot, hisOf, hchanged, hcurrent⟩ := hlistens.snapshot
      exact ⟨fun hnil => hempty (List.isEmpty_iff.mpr hnil), hlistens.query, hlistens.shows,
        hlistens.settled, snapshot, hsnapshot, hisOf, hchanged,
        fun l hl => hcurrent l (List.mem_filter.mp hl).1⟩

theorem Valid.listenRejected (h : client.Valid exact collection) (code : ErrorCode) :
    Succeeds client exact collection (.listenRejected code) :=
  ⟨_, _, rfl, ⟨h.engine, h.query, List.nodup_nil, fun _ => ⟨rfl, rfl⟩, fun view hsome => by
    cases hsome⟩, rfl, fun _ _ _ _ _ => ⟨fun _ hl => (by cases hl), fun _ _ => rfl⟩⟩

/-- Every possible event. -/
theorem Valid.step (h : client.Valid exact collection) {event : ClientEvent}
    (hp : client.Possible event) (hu : exact → client.Undisturbed event) :
    Succeeds client exact collection event := by
  cases event with
  | engine event targetChange => exact h.engineEvent hp hu
  | onlineStateChange onlineState => exact h.onlineStateChange onlineState
  | addListener id options remoteKeys => exact h.addListener hp options remoteKeys
  | removeListener id => exact h.removeListener id
  | listenRejected code => exact h.listenRejected code

end FirestoreClient

end GroceryApp.FirestoreCore
