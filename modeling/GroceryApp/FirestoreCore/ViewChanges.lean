import GroceryApp.FirestoreCore.View

/-!
# The changes of a view

Each change of a view tells what became of one document (`Describes`), and so does what two changes
of it are merged into (`Describes.addChange`): however often a view computes changes before it
applies them, they tell what became of its documents since the start (`changes_describe_difference`).
-/

namespace GroceryApp.FirestoreCore

/-- What a change, if there is one, says of a document that was `old` and is `new`. -/
def Describes (key : DocumentKey) (old new : Option Document) : Option DocumentViewChange → Prop
  | none => new = old
  | some change => change.key = key ∧ match change.type with
    | .removed => old.isSome ∧ new = none
    | .added => old = none ∧ new = some change.document
    | .modified => old.isSome ∧ new = some change.document
    | .metadata => old.map (·.data) = some change.document.data ∧ new = some change.document

section Merging

variable {old mid new : Option Document} {changes : DocumentViewChangeSet}
  {change : DocumentViewChange}

/-- Merged changes describe what both did, and two that follow each other can be merged. -/
theorem Describes.addChange {key : DocumentKey} (h : Describes key old mid (changes.find? key))
    (h' : Describes key mid new (some change)) :
    ∃ changes', DocumentViewChangeSet.addChange changes change = .ok changes' ∧
      Describes key old new (changes'.find? key) ∧
      ∀ key', key' ≠ key → changes'.find? key' = changes.find? key' := by
  obtain ⟨key', document, type⟩ := change
  obtain ⟨rfl, h'⟩ := h'
  simp only at h h' ⊢
  have insert : ∀ merged, Describes key' old new (some merged) →
      ∃ changes', (.ok (changes.insert key' merged) : Except HardAssert _) = .ok changes' ∧
        Describes key' old new (changes'.find? key') ∧
        ∀ k, k ≠ key' → changes'.find? k = changes.find? k := fun merged hmerged =>
    ⟨_, rfl, by rwa [SortedMap.find?_insert_self], fun k hk => SortedMap.find?_insert_of_ne hk⟩
  unfold DocumentViewChangeSet.addChange
  cases hfind : changes.find? key' with
  | none =>
    rw [hfind] at h
    obtain rfl : mid = old := h
    exact insert _ ⟨rfl, h'⟩
  | some first =>
    obtain ⟨firstKey, firstDocument, firstType⟩ := first
    rw [hfind] at h
    obtain ⟨hkey, h⟩ := h
    cases firstType with
    | removed =>
      -- Only an addition can follow a removal.
      obtain ⟨hold, rfl⟩ := h
      cases type with
      | added => exact insert _ ⟨rfl, hold, h'.2⟩
      | removed => cases h'.1
      | modified => cases h'.1
      | metadata => cases h'.1
    | added =>
      obtain ⟨rfl, rfl⟩ := h
      cases type with
      | added => cases h'.1
      | removed =>
        refine ⟨_, rfl, ?_, fun k hk => SortedMap.find?_erase_of_ne hk⟩
        rw [SortedMap.find?_erase_self]
        exact h'.2
      | modified => exact insert _ ⟨rfl, rfl, h'.2⟩
      | metadata => exact insert _ ⟨rfl, rfl, h'.2⟩
    | modified =>
      obtain ⟨hold, rfl⟩ := h
      cases type with
      | added => cases h'.1
      | removed => exact insert _ ⟨hkey, hold, h'.2⟩
      | modified => exact insert _ ⟨rfl, hold, h'.2⟩
      | metadata => exact insert _ ⟨rfl, hold, h'.2⟩
    | metadata =>
      obtain ⟨hdata, rfl⟩ := h
      have hold : old.isSome = true := by
        rw [← Option.isSome_map, hdata]
        rfl
      cases type with
      | added => cases h'.1
      | removed => exact insert _ ⟨rfl, hold, h'.2⟩
      | modified => exact insert _ ⟨rfl, hold, h'.2⟩
      | metadata => exact insert _ ⟨rfl, hdata.trans h'.1, h'.2⟩

end Merging

/-! ## One document -/

/-- What is kept of a document: itself, its change and whether it counts as mutated. -/
structure ViewDocumentChanges.Slot where
  document : Option Document
  change : Option DocumentViewChange
  mutated : Bool

/-- The state of one document: as it is in the set, its change so far, and whether it has pending
writes. -/
def ViewDocumentChanges.slot (changes : ViewDocumentChanges) (key : DocumentKey) : Slot :=
  ⟨changes.documentSet.find? key, changes.changeSet.find? key, changes.mutatedKeys.contains key⟩

namespace View

variable {view : View} {key : DocumentKey}

theorem changeOf_describes {old new : Option Document} {change : DocumentViewChange}
    (h : view.changeOf key old new = some change) :
    Describes key old new (some change) := by
  unfold changeOf at h
  cases old with
  | none =>
    cases new with
    | none => cases h
    | some new =>
      cases h
      exact ⟨rfl, rfl, rfl⟩
  | some old =>
    cases new with
    | none =>
      cases h
      exact ⟨rfl, rfl, rfl⟩
    | some new =>
      simp only at h
      split_ifs at h with hdata hwait hpending
      · cases h
        exact ⟨rfl, rfl, rfl⟩
      · cases h
        exact ⟨rfl, congrArg some (not_not.mp hdata), rfl⟩

/-- What becomes of a document when its news are looked at. -/
def Takes (view : View) (key : DocumentKey) (maybeNewDoc : MaybeDocument)
    (slot slot' : ViewDocumentChanges.Slot) : Prop :=
  if view.changeOf key slot.document (view.newDocument key maybeNewDoc) = none then slot' = slot
  else slot'.document = view.newDocument key maybeNewDoc ∧
    slot'.mutated = (view.newDocument key maybeNewDoc).any (·.hasLocalMutations) ∧
    Describes key (view.documentSet.find? key) slot'.document slot'.change

/-- Other documents are not touched. -/
theorem computeChange_spec {oldDocumentSet : DocumentMap} {state : ViewDocumentChanges}
    (hold : (state.slot key).document = oldDocumentSet.find? key)
    (hdescribes : Describes key (view.documentSet.find? key) (state.slot key).document
      (state.slot key).change) (maybeNewDoc : MaybeDocument) :
    ∃ state', view.computeChange oldDocumentSet state (key, maybeNewDoc) = .ok state' ∧
      view.Takes key maybeNewDoc (state.slot key) (state'.slot key) ∧
      ∀ key', key' ≠ key → state'.slot key' = state.slot key' := by
  unfold computeChange Takes
  rw [hold]
  cases hchange : view.changeOf key (oldDocumentSet.find? key) (view.newDocument key maybeNewDoc) with
  | none => exact ⟨state, by simp only [hchange]; rfl, by rw [if_pos rfl], fun _ _ => rfl⟩
  | some change =>
    have hone := changeOf_describes hchange
    obtain rfl := hone.1
    rw [← hold] at hone
    obtain ⟨changeSet, hadd, hboth, hothers⟩ := hdescribes.addChange hone
    simp only [hchange, hadd, bind, Except.bind, reduceCtorEq, if_false]
    have hslot : ∀ (documentSet : DocumentMap) (mutatedKeys : DocumentKeySet),
        (∀ key', key' ≠ change.key → documentSet.find? key' = state.documentSet.find? key') →
        (∀ key', key' ≠ change.key → mutatedKeys.contains key' = state.mutatedKeys.contains key') →
        ∀ key', key' ≠ change.key →
          ViewDocumentChanges.slot ⟨documentSet, changeSet, mutatedKeys⟩ key' = state.slot key' := by
      intro documentSet mutatedKeys hdocuments hmutated key' hkey
      unfold ViewDocumentChanges.slot
      rw [hdocuments key' hkey, hothers key' hkey, hmutated key' hkey]
    cases hnew : view.newDocument change.key maybeNewDoc with
    | none =>
      rw [hnew] at hboth
      refine ⟨_, rfl, ⟨SortedMap.find?_erase_self, ?_, ?_⟩, hslot _ _
        (fun key' hkey => SortedMap.find?_erase_of_ne hkey) fun key' hkey => ?_⟩
      · show (state.mutatedKeys.erase change.key).contains change.key = false
        rw [SortedMap.contains_erase]
        simp
      · show Describes _ _ ((state.documentSet.erase change.key).find? change.key) _
        rw [SortedMap.find?_erase_self]
        exact hboth
      · rw [SortedMap.contains_erase]
        simp [hkey]
    | some doc =>
      rw [hnew] at hboth
      refine ⟨_, rfl, ⟨SortedMap.find?_insert_self, ?_, ?_⟩, hslot _ _
        (fun key' hkey => SortedMap.find?_insert_of_ne hkey) fun key' hkey => ?_⟩
      · show (if doc.hasLocalMutations = true then state.mutatedKeys.insert change.key ()
          else state.mutatedKeys.erase change.key).contains change.key = doc.hasLocalMutations
        split_ifs with hlocal
        · rw [SortedMap.contains_insert]
          simp [hlocal]
        · rw [SortedMap.contains_erase]
          simp [hlocal]
      · show Describes _ _ ((state.documentSet.insert change.key doc).find? change.key) _
        rw [SortedMap.find?_insert_self]
        exact hboth
      · split_ifs
        · rw [SortedMap.contains_insert]
          simp [hkey]
        · rw [SortedMap.contains_erase]
          simp [hkey]

/-- The changes tell of every document what became of it. -/
def Explains (view : View) (changes : ViewDocumentChanges) : Prop :=
  ∀ key, Describes key (view.documentSet.find? key) (changes.slot key).document
    (changes.slot key).change

theorem explains_unchanged (view : View) : view.Explains view.unchanged := fun _ => rfl

/-- The changes computed before are kept but for the documents there are news of. -/
theorem computeDocumentChanges_spec {start : ViewDocumentChanges} (hstart : view.Explains start)
    (docChanges : MaybeDocumentMap) :
    ∃ changes, view.computeDocumentChanges docChanges (some start) = .ok changes ∧
      view.Explains changes ∧ ∀ key,
        (docChanges.find? key = none → changes.slot key = start.slot key) ∧
        ∀ maybeNewDoc, docChanges.find? key = some maybeNewDoc →
          view.Takes key maybeNewDoc (start.slot key) (changes.slot key) := by
  obtain ⟨changes, hok, hslots⟩ := SortedMap.foldlM_entries
    (P := fun key slot => slot.document = start.documentSet.find? key ∧
      Describes key (view.documentSet.find? key) slot.document slot.change)
    (fun state key maybeNewDoc h => computeChange_spec h.1 h.2 maybeNewDoc) docChanges start
    fun key => ⟨rfl, hstart key⟩
  refine ⟨changes, hok, fun key => ?_, hslots⟩
  cases hfind : docChanges.find? key with
  | none =>
    rw [(hslots key).1 hfind]
    exact hstart key
  | some maybeNewDoc =>
    have htakes := (hslots key).2 maybeNewDoc hfind
    unfold Takes at htakes
    split_ifs at htakes with hno
    · rw [htakes]
      exact hstart key
    · exact htakes.2.2

/-- In however many steps a view computes its changes, they never clash, and in the end they tell of
every document what became of it. -/
theorem changes_describe_difference (view : View) (updates : List MaybeDocumentMap) :
    ∃ changes, updates.foldlM
        (fun changes docChanges => view.computeDocumentChanges docChanges (some changes))
        view.unchanged = .ok changes ∧ view.Explains changes := by
  have run : ∀ start, view.Explains start → ∃ changes, updates.foldlM
      (fun changes docChanges => view.computeDocumentChanges docChanges (some changes)) start =
        .ok changes ∧ view.Explains changes := by
    induction updates with
    | nil => exact fun start h => ⟨start, rfl, h⟩
    | cons docChanges updates ih =>
      intro start h
      obtain ⟨changes₁, hone, h₁, -⟩ := computeDocumentChanges_spec h docChanges
      obtain ⟨changes, hrun, h'⟩ := ih changes₁ h₁
      refine ⟨changes, ?_, h'⟩
      rw [List.foldlM_cons, hone]
      exact hrun
  exact run _ view.explains_unchanged

/-! ## What is shown of the store -/

/-- A document is shown with the data it has in the store, or, if they need not be `exact`, with those
of a pending write that has been answered with other data, until the backend sends these; and it is
shown as pending as long as it is, or has been acknowledged without news of the backend since. -/
def UpToDate (exact : Prop) (shown stored : Document) : Prop :=
  (shown.data = stored.data ∨ ¬exact ∧ shouldWaitForSyncedDocument stored shown = true) ∧
    shown.hasLocalMutations =
      (stored.hasLocalMutations || (shown.hasLocalMutations && stored.hasCommittedMutations))

theorem upToDate_refl (exact : Prop) (doc : Document) : UpToDate exact doc doc := by
  refine ⟨.inl rfl, ?_⟩
  cases doc.hasLocalMutations <;> rfl

/-- What the view shows of the documents, which are `stored`. -/
structure Shows (view : View) (exact : Prop) (stored : DocumentKey → Option Document) : Prop where
  documents : ∀ key, Option.Rel (UpToDate exact) (view.documentSet.find? key) (stored key)
  mutated : ∀ key, view.mutatedKeys.contains key =
    (view.documentSet.find? key).any (·.hasLocalMutations)

/-- No document gets other data with an acknowledgment. -/
def Steady (stored stored' : DocumentKey → Option Document) : Prop :=
  ∀ key, ∀ old ∈ stored key, ∀ new ∈ stored' key,
    new.hasCommittedMutations = true → old.data = new.data

variable {exact : Prop}

theorem Takes.upToDate {slot : ViewDocumentChanges.Slot} {maybeNewDoc : MaybeDocument}
    (hmutated : view.mutatedKeys.contains key =
      (view.documentSet.find? key).any (·.hasLocalMutations))
    (hsteady : exact → ∀ shown ∈ view.documentSet.find? key, ∀ new ∈ view.newDocument key maybeNewDoc,
      new.hasCommittedMutations = true → shown.data = new.data)
    (h : view.Takes key maybeNewDoc (view.unchanged.slot key) slot) :
    Option.Rel (UpToDate exact) slot.document (view.newDocument key maybeNewDoc) ∧
      slot.mutated = slot.document.any (·.hasLocalMutations) := by
  unfold Takes at h
  split_ifs at h with hno
  · subst h
    refine ⟨?_, hmutated⟩
    show Option.Rel (UpToDate exact) (view.documentSet.find? key) _
    have hold : (view.unchanged.slot key).document = view.documentSet.find? key := rfl
    rw [hold] at hno
    unfold changeOf at hno
    cases hshown : view.documentSet.find? key with
    | none =>
      rw [hshown] at hno
      cases hnew : view.newDocument key maybeNewDoc with
      | none => exact .none
      | some new =>
        rw [hnew] at hno
        cases hno
    | some old =>
      rw [hshown] at hno hmutated
      cases hnew : view.newDocument key maybeNewDoc with
      | none =>
        rw [hnew] at hno
        cases hno
      | some new =>
        rw [hnew] at hno
        refine .some ?_
        simp only [Option.isSome_some, Bool.true_and, Option.any_some, hmutated] at hno
        unfold UpToDate
        split_ifs at hno with hdata hwait hpending
        · have hboth := hwait
          unfold shouldWaitForSyncedDocument at hwait
          simp only [Bool.and_eq_true] at hwait
          refine ⟨.inr ⟨fun hexact => hdata ?_, hboth⟩, ?_⟩
          · exact hsteady hexact old hshown new hnew hwait.1.2
          rw [hwait.1.1, hwait.1.2]
          simp
        · exact ⟨.inl (not_not.mp hdata), not_not.mp hpending⟩
  · obtain ⟨hdocument, hpending, -⟩ := h
    rw [hdocument]
    refine ⟨?_, hpending⟩
    cases view.newDocument key maybeNewDoc with
    | none => exact .none
    | some new => exact .some (upToDate_refl exact new)

/-- A view that is told of all documents that may have changed shows them as they are now. -/
theorem Shows.computeDocumentChanges {stored stored' : DocumentKey → Option Document}
    (h : view.Shows exact stored) (hsteady : exact → Steady stored stored')
    (docChanges : MaybeDocumentMap)
    (hreported : ∀ key maybeDoc, docChanges.find? key = some maybeDoc →
      view.newDocument key maybeDoc = stored' key)
    (hframe : ∀ key, docChanges.find? key = none → stored' key = stored key) :
    ∃ changes, view.computeDocumentChanges docChanges none = .ok changes ∧
      view.Explains changes ∧
      (∀ key, Option.Rel (UpToDate exact) (changes.documentSet.find? key) (stored' key)) ∧
      ∀ key, changes.mutatedKeys.contains key =
        (changes.documentSet.find? key).any (·.hasLocalMutations) := by
  obtain ⟨changes, hok, hexplains, hslots⟩ :=
    computeDocumentChanges_spec view.explains_unchanged docChanges
  have hkey : ∀ key, Option.Rel (UpToDate exact) (changes.slot key).document (stored' key) ∧
      (changes.slot key).mutated = (changes.slot key).document.any (·.hasLocalMutations) := by
    intro key
    cases hfind : docChanges.find? key with
    | none =>
      rw [(hslots key).1 hfind, hframe key hfind]
      exact ⟨h.documents key, h.mutated key⟩
    | some maybeDoc =>
      rw [← hreported key maybeDoc hfind]
      refine ((hslots key).2 maybeDoc hfind).upToDate (h.mutated key)
        fun hexact shown hshown new hnew hcommitted => ?_
      have hrel := h.documents key
      rw [show view.documentSet.find? key = some shown from hshown] at hrel
      cases hstored : stored key with
      | none =>
        rw [hstored] at hrel
        cases hrel
      | some old =>
        rw [hstored] at hrel
        obtain ⟨hdata | ⟨hnot, -⟩, -⟩ := Option.rel_some_some.mp hrel
        · rw [hdata]
          exact hsteady hexact key old hstored new (hreported key maybeDoc hfind ▸ hnew) hcommitted
        · exact absurd hexact hnot
  exact ⟨changes, hok, hexplains, fun key => (hkey key).1, fun key => (hkey key).2⟩

/-! ## Applying changes -/

/-- The view is in sync exactly if the backend is done with the query and has listed each document
that is shown and has no pending write. -/
def Settled (view : View) : Prop :=
  (view.syncState = .synced ↔ view.current = true ∧ ∀ key, view.shouldBeInLimbo key = false) ∧
    view.syncState ≠ .none

/-- The snapshot of a view that was `old` before the changes. -/
def snapshotSince (view old : View) (changes : DocumentViewChangeSet) : ViewSnapshot where
  documents := view.documentSet
  oldDocuments := old.documentSet
  documentChanges := (DocumentViewChangeSet.getChanges changes).insertionSort changeBefore
  mutatedKeys := view.mutatedKeys
  fromCache := decide (view.syncState = .local)
  syncStateChanged := decide (view.syncState ≠ old.syncState)
  excludesMetadataChanges := false

theorem fits_none (view : View) : view.Fits none := fun _ h => by cases h

theorem applyTargetChange_eq (view : View) {targetChange : Option TargetChange}
    (h : view.Fits targetChange) :
    ∃ syncedDocuments current, view.applyTargetChange targetChange =
        .ok { view with syncedDocuments := syncedDocuments, current := current } ∧
      (targetChange = none → current = view.current) := by
  cases targetChange with
  | none => exact ⟨view.syncedDocuments, view.current, rfl, fun _ => rfl⟩
  | some change =>
    refine ⟨_, _, if_pos (List.all_eq_true.mpr fun key hkey => ?_), fun h => (by cases h)⟩
    rw [SortedMap.contains_foldl_insert]
    rcases h change rfl key hkey with hsynced | hadded
    · exact .inl hsynced
    · exact .inr ⟨key, SortedMap.mem_keys.mpr hadded, rfl⟩

theorem updateLimboDocuments_eq (view : View) : ∃ limboDocuments limboChanges,
    view.updateLimboDocuments = ({ view with limboDocuments := limboDocuments }, limboChanges) ∧
      (view.current = true → (limboDocuments.entries.isEmpty = true ↔
        ∀ key, view.shouldBeInLimbo key = false)) ∧
      (view.current = false → limboChanges = []) := by
  unfold updateLimboDocuments
  by_cases hcurrent : view.current = true
  · rw [if_pos hcurrent]
    refine ⟨view.documentSet.keySet.filter view.shouldBeInLimbo, _, rfl, fun _ => ?_, fun h => ?_⟩
    · rw [SortedMap.isEmpty_iff]
      refine forall_congr' fun key => ?_
      rw [← Bool.not_eq_true, SortedMap.contains_filter, SortedMap.contains_keySet]
      cases hlimbo : view.shouldBeInLimbo key with
      | false => simp
      | true =>
        unfold shouldBeInLimbo at hlimbo
        unfold SortedMap.contains
        rw [Bool.and_eq_true] at hlimbo
        cases hfind : view.documentSet.find? key with
        | none =>
          rw [hfind] at hlimbo
          cases hlimbo.2
        | some doc => simp
    · rw [hcurrent] at h
      cases h
  · rw [if_neg hcurrent]
    exact ⟨view.limboDocuments, [], rfl, fun h => absurd h hcurrent, fun _ => rfl⟩

/-- Changes that fit are applied, and there is a snapshot if there is anything to tell. -/
theorem applyChanges_spec (view : View) (changes : ViewDocumentChanges)
    {targetChange : Option TargetChange} (hfits : view.Fits targetChange) :
    ∃ view' limboChanges, view.applyChanges changes targetChange = .ok (view',
        ⟨if (DocumentViewChangeSet.getChanges changes.changeSet).isEmpty = true ∧
            view'.syncState = view.syncState then none
          else some (view'.snapshotSince view changes.changeSet), limboChanges⟩) ∧
      view'.query = view.query ∧ view'.documentSet = changes.documentSet ∧
      view'.mutatedKeys = changes.mutatedKeys ∧ view'.Settled ∧
      (targetChange = none → view.current = false → limboChanges = []) := by
  obtain ⟨syncedDocuments, current, htarget, hcurrent⟩ := applyTargetChange_eq { view with
    documentSet := changes.documentSet, mutatedKeys := changes.mutatedKeys } hfits
  obtain ⟨limboDocuments, limboChanges, hlimbo, hempty, hnone⟩ := updateLimboDocuments_eq { view with
    documentSet := changes.documentSet
    mutatedKeys := changes.mutatedKeys
    syncedDocuments := syncedDocuments
    current := current }
  set view' : View := { view with
    documentSet := changes.documentSet
    mutatedKeys := changes.mutatedKeys
    syncedDocuments := syncedDocuments
    current := current
    limboDocuments := limboDocuments
    syncState := if (limboDocuments.entries.isEmpty && current) = true then .synced else .local }
    with hview'
  have hsettled : view'.Settled := by
    refine ⟨?_, ?_⟩
    · show (if (limboDocuments.entries.isEmpty && current) = true then SyncState.synced
        else .local) = .synced ↔ current = true ∧ ∀ key, view'.shouldBeInLimbo key = false
      cases current with
      | false => simp
      | true =>
        have hempty := hempty rfl
        rw [Bool.and_true]
        split_ifs with h
        · exact ⟨fun _ => ⟨rfl, hempty.mp h⟩, fun _ => rfl⟩
        · exact ⟨fun hfalse => (by cases hfalse), fun hall => absurd (hempty.mpr hall.2) h⟩
    · show (if (limboDocuments.entries.isEmpty && current) = true then SyncState.synced
        else .local) ≠ .none
      split_ifs <;> decide
  refine ⟨view', limboChanges, ?_, rfl, rfl, rfl, hsettled, ?_⟩
  · unfold applyChanges
    simp only [htarget, hlimbo, bind, Except.bind, pure, Except.pure]
    have hsort : ((DocumentViewChangeSet.getChanges changes.changeSet).insertionSort
        changeBefore).isEmpty = (DocumentViewChangeSet.getChanges changes.changeSet).isEmpty := by
      rw [Bool.eq_iff_iff, List.isEmpty_iff_length_eq_zero, List.isEmpty_iff_length_eq_zero,
        List.length_insertionSort]
    rw [hsort]
    by_cases h : (DocumentViewChangeSet.getChanges changes.changeSet).isEmpty = true ∧
        view'.syncState = view.syncState
    · rw [if_pos h, if_pos]
      rw [Bool.and_eq_true]
      exact ⟨h.1, by rw [show decide _ = false from decide_eq_false (not_not.mpr h.2)]; rfl⟩
    · rw [if_neg h, if_neg]
      · rfl
      · rw [Bool.and_eq_true]
        rintro ⟨hnil, hsame⟩
        refine h ⟨hnil, ?_⟩
        by_contra hne
        rw [show decide _ = true from decide_eq_true hne] at hsame
        cases hsame
  · intro hchange hoff
    exact hnone ((hcurrent hchange).trans hoff)

end View

end GroceryApp.FirestoreCore
