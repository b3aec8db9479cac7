import GroceryApp.Network.Firestore
import GroceryApp.Lib.SortedMap

/-!
# Documents, mutations and batches

The values the client's engine computes with: a document or the knowledge that there is none, with
the version it was last seen at and whether local or merely committed writes are in it; the two
mutations that replace or remove a whole document, each under a precondition; and batches of
mutations. A mutation is applied twice in its life: to the local view while it is pending
(`Mutation.applyToLocalView`), where its precondition is checked, and to the remembered remote
document once the backend has acknowledged it (`Mutation.applyToRemoteDocument`), where it must
have held. A document is filed under its key and does not repeat it.
-/

namespace GroceryApp.FirestoreCore

/-- Documents are filed under their references. -/
abbrev DocumentKey := DocumentReference

/-- Keys are in the order of their paths. -/
instance : LinearOrder DocumentKey :=
  { PartialOrder.lift (fun key : DocumentKey => key.path) fun _ _ h => DocumentReference.ext h with
    le_total := fun key key' => le_total key.path key'.path
    toDecidableLE := fun key key' => inferInstanceAs (Decidable (key.path ≤ key'.path))
    toDecidableLT := fun key key' => inferInstanceAs (Decidable (key.path < key'.path))
    toDecidableEq := inferInstanceAs (DecidableEq DocumentReference) }

theorem documentKey_lt_iff {key key' : DocumentKey} : key < key' ↔ key.path < key'.path := Iff.rfl

theorem documentKey_le_iff {key key' : DocumentKey} : key ≤ key' ↔ key.path ≤ key'.path := Iff.rfl

/-- The fields of a document. -/
abbrev ObjectValue := GroceryApp.Document

/-- A point in the backend's time; `SnapshotVersion::None()` is before all others. -/
abbrev SnapshotVersion := ℕ

abbrev SnapshotVersion.none : SnapshotVersion := 0

/-- Whether pending writes of the user are in a document, or writes that are acknowledged and have
not come back with news yet, or neither. -/
inductive DocumentState where
  | localMutations
  | committedMutations
  | synced
  deriving DecidableEq, Repr

/-- A document as the client knows it: its fields, and the version it was last seen at. -/
structure Document where
  data : ObjectValue
  version : SnapshotVersion
  documentState : DocumentState
  deriving DecidableEq

namespace Document

/-- Pending writes are in the document. -/
def hasLocalMutations (doc : Document) : Bool := doc.documentState == .localMutations

/-- Acknowledged writes without news since are in the document. -/
def hasCommittedMutations (doc : Document) : Bool := doc.documentState == .committedMutations

/-- Writes of either kind are in the document. -/
def hasPendingWrites (doc : Document) : Bool := doc.hasLocalMutations || doc.hasCommittedMutations

end Document

/-- A document, or the knowledge that there is none. -/
inductive MaybeDocument where
  | document (doc : Document)
  | noDocument (version : SnapshotVersion) (hasCommittedMutations : Bool)
  deriving DecidableEq

namespace MaybeDocument

/-- The version of the document, or of its absence. -/
def version : MaybeDocument → SnapshotVersion
  | document doc => doc.version
  | noDocument version _ => version

/-- Of the absence of a document only a committed deletion counts. -/
def hasPendingWrites : MaybeDocument → Bool
  | document doc => doc.hasPendingWrites
  | noDocument _ hasCommittedMutations => hasCommittedMutations

/-- The document, if there is one. -/
def document? : MaybeDocument → Option Document
  | document doc => some doc
  | noDocument _ _ => none

end MaybeDocument

/-- The document, if there is one: a missing entry and the knowledge that there is none look the
same. -/
def asDocument (maybeDoc : Option MaybeDocument) : Option Document := maybeDoc.bind (·.document?)

/-- The fields that are visible. -/
def visible (maybeDoc : Option MaybeDocument) : Option ObjectValue :=
  (asDocument maybeDoc).map (·.data)

@[simp] theorem asDocument_none : asDocument none = none := rfl

@[simp] theorem asDocument_document {doc : Document} :
    asDocument (some (.document doc)) = some doc := rfl

@[simp] theorem asDocument_noDocument {version : SnapshotVersion} {committed : Bool} :
    asDocument (some (.noDocument version committed)) = none := rfl

theorem visible_congr {maybeDoc maybeDoc' : Option MaybeDocument}
    (h : asDocument maybeDoc = asDocument maybeDoc') : visible maybeDoc = visible maybeDoc' := by
  unfold visible
  rw [h]

/-! ## Mutations -/

/-- What a mutation asks of the document it is applied to. -/
inductive Precondition where
  | none
  | exists (exists_ : Bool)
  | updateTime (version : SnapshotVersion)
  deriving DecidableEq, Repr

/-- The document is as the precondition asks. -/
def Precondition.isValidFor (precondition : Precondition) (maybeDoc : Option MaybeDocument) : Bool :=
  match precondition with
  | updateTime version => (asDocument maybeDoc).any fun doc => doc.version == version
  | .exists exists_ => exists_ == (asDocument maybeDoc).isSome
  | none => true

/-- What a mutation does to the document of its key. -/
inductive MutationType where
  | set (value : ObjectValue)
  | delete
  deriving DecidableEq

/-- A write of one document. -/
structure Mutation where
  key : DocumentKey
  type : MutationType
  precondition : Precondition
  deriving DecidableEq

/-- `Mutation::Rep::GetPostMutationVersion`. -/
def getPostMutationVersion (maybeDoc : Option MaybeDocument) : SnapshotVersion :=
  ((asDocument maybeDoc).map (·.version)).getD SnapshotVersion.none

namespace Mutation

/-- What a pending mutation makes of a document; if its precondition fails, nothing. -/
def applyToLocalView (mutation : Mutation) (maybeDoc : Option MaybeDocument) :
    Option MaybeDocument :=
  if mutation.precondition.isValidFor maybeDoc then
    match mutation.type with
    | .set value =>
      some (.document ⟨value, getPostMutationVersion maybeDoc, .localMutations⟩)
    | .delete => some (.noDocument SnapshotVersion.none false)
  else maybeDoc

/-- The version is that of the mutation's result. -/
def applyToRemoteDocument (mutation : Mutation) (version : SnapshotVersion) : MaybeDocument :=
  match mutation.type with
  | .set value => .document ⟨value, version, .committedMutations⟩
  | .delete => .noDocument version true

/-- The fields the mutation leaves. -/
def value (mutation : Mutation) : Option ObjectValue :=
  match mutation.type with
  | .set value => some value
  | .delete => none

/-- A mutation that depends on nothing, as a plain `setData` or `delete` makes it. -/
def Unconditional (mutation : Mutation) : Prop := mutation.precondition = .none

instance : DecidablePred Unconditional := fun mutation =>
  inferInstanceAs (Decidable (mutation.precondition = .none))

theorem visible_applyToRemoteDocument (mutation : Mutation) (version : SnapshotVersion) :
    visible (some (mutation.applyToRemoteDocument version)) = mutation.value := by
  unfold applyToRemoteDocument value
  cases mutation.type <;> rfl

theorem visible_applyToLocalView {mutation : Mutation} (h : mutation.Unconditional)
    (maybeDoc : Option MaybeDocument) :
    visible (mutation.applyToLocalView maybeDoc) = mutation.value := by
  unfold applyToLocalView value
  rw [if_pos (by rw [h]; rfl)]
  cases mutation.type <;> rfl

/-- Whether the document is missing or known not to exist, a mutation does the same. -/
theorem asDocument_applyToLocalView_congr (mutation : Mutation)
    {maybeDoc maybeDoc' : Option MaybeDocument} (h : asDocument maybeDoc = asDocument maybeDoc') :
    asDocument (mutation.applyToLocalView maybeDoc) =
      asDocument (mutation.applyToLocalView maybeDoc') := by
  have hvalid : mutation.precondition.isValidFor maybeDoc =
      mutation.precondition.isValidFor maybeDoc' := by
    unfold Precondition.isValidFor
    rw [h]
  have hversion : getPostMutationVersion maybeDoc = getPostMutationVersion maybeDoc' := by
    unfold getPostMutationVersion
    rw [h]
  unfold applyToLocalView
  rw [hvalid, hversion]
  split_ifs
  · rfl
  · exact h

end Mutation

/-! ## Batches -/

/-- `kBatchIdUnknown`. -/
abbrev batchIdUnknown : ℤ := -1

/-- Mutations that were written together; there is at least one. -/
structure MutationBatch where
  batchId : ℤ
  mutations : List Mutation
  nonempty : mutations ≠ []
  deriving DecidableEq

/-- The backend's answer to one mutation: the version it made. -/
structure MutationResult where
  version : SnapshotVersion
  deriving DecidableEq

/-- The assertions of the engine, with what they report. -/
inductive HardAssert where
  | emptyMutationBatch
  | batchIdsNotIncreasing
  | acknowledgeOnEmptyQueue
  | queueOrderingFailure (expected got : ℤ)
  | removeFromEmptyQueue
  | onlyFirstEntryRemovable
  | indexedBatchMissing
  | foundBatchMismatch
  | danglingReferences
  | mutationResultsMismatch (mutations results : ℕ)
  | docVersionMissing
  | rejectNonexistentBatch
  | zeroRemoteVersion
  | revertedSnapshot (remote last : SnapshotVersion)
  | resultForEmptyPipeline
  | pipelineFull
  | streamAlreadyStarted
  | streamNotStarted
  | stoppedWhileNeeded
  | startedWhenNotNeeded
  | backoffInhibitedWhileStarted
  | writeOnClosedStream
  | writeBeforeHandshake
  | handshakeTwice
  | unsupportedChanges
  | modifiedNotSynced
  | snapshotWithoutChanges
  | noInitialSnapshot
  | raisedForNewListener
  | onlineStateAffectsLimbo
  | indexNotFound
  | invalidFirstEvent
  | addedInWrongOrder
  deriving DecidableEq, Repr

/-- A set of keys, in their order. -/
abbrev DocumentKeySet := SortedSet DocumentKey

namespace MutationBatch

/-- The mutations of the document, one after the other, on its local view. -/
def applyToLocalDocument (batch : MutationBatch) (maybeDoc : Option MaybeDocument)
    (documentKey : DocumentKey) : Option MaybeDocument :=
  batch.mutations.foldl
    (fun maybeDoc mutation =>
      if mutation.key = documentKey then mutation.applyToLocalView maybeDoc else maybeDoc)
    maybeDoc

/-- The mutations of the document, one after the other, with their results, on what is remembered.
-/
def applyToRemoteDocument (batch : MutationBatch) (maybeDoc : Option MaybeDocument)
    (documentKey : DocumentKey) (mutationResults : List MutationResult) :
    Except HardAssert (Option MaybeDocument) :=
  if mutationResults.length = batch.mutations.length then
    .ok <| (batch.mutations.zip mutationResults).foldl
      (fun maybeDoc m =>
        if m.1.key = documentKey then some (m.1.applyToRemoteDocument m.2.version) else maybeDoc)
      maybeDoc
  else .error (.mutationResultsMismatch batch.mutations.length mutationResults.length)

/-- The documents of the batch. -/
def keys (batch : MutationBatch) : DocumentKeySet :=
  batch.mutations.foldl (fun set mutation => set.insert mutation.key ()) .empty

/-- Whether some mutation of the batch is about the key. -/
def affects (batch : MutationBatch) (key : DocumentKey) : Bool :=
  batch.mutations.any fun mutation => mutation.key == key

end MutationBatch

/-! ## Plain writes -/

theorem Mutation.applyToLocalView_of_unconditional {m : Mutation} (h : m.Unconditional)
    (d : Option MaybeDocument) :
    m.applyToLocalView d = match m.type with
      | .set value => some (.document ⟨value, getPostMutationVersion d, .localMutations⟩)
      | .delete => some (.noDocument SnapshotVersion.none false) := by
  unfold Mutation.applyToLocalView
  rw [if_pos (by rw [h]; rfl)]

/-- Mutations in order on one document. -/
def applyMutations (ms : List Mutation) (d : Option MaybeDocument) : Option MaybeDocument :=
  ms.foldl (fun d m => m.applyToLocalView d) d

theorem applyMutations_congr {ms : List Mutation} (hu : ∀ m ∈ ms, m.Unconditional) (hne : ms ≠ [])
    {d d' : Option MaybeDocument} (h : getPostMutationVersion d = getPostMutationVersion d') :
    applyMutations ms d = applyMutations ms d' := by
  cases ms with
  | nil => exact absurd rfl hne
  | cons m ms =>
    have hm := hu m List.mem_cons_self
    unfold applyMutations
    rw [List.foldl_cons, List.foldl_cons, Mutation.applyToLocalView_of_unconditional hm,
      Mutation.applyToLocalView_of_unconditional hm, h]

/-- Mutations without preconditions forget the document or keep its version. -/
theorem applyMutations_forgets_or_keeps {ms : List Mutation} (hu : ∀ m ∈ ms, m.Unconditional) :
    (∀ d d', applyMutations ms d = applyMutations ms d') ∨
      ∀ d, getPostMutationVersion (applyMutations ms d) = getPostMutationVersion d := by
  induction ms with
  | nil => exact .inr fun _ => rfl
  | cons m ms ih =>
    have hm := hu m List.mem_cons_self
    rcases ih fun m' hm' => hu m' (List.mem_cons_of_mem m hm') with hforgets | hkeeps
    · exact .inl fun d d' => hforgets _ _
    · cases htype : m.type with
      | set value =>
        refine .inr fun d => (hkeeps _).trans ?_
        show getPostMutationVersion (m.applyToLocalView d) = _
        rw [Mutation.applyToLocalView_of_unconditional hm, htype]
        rfl
      | delete =>
        refine .inl fun d d' => ?_
        unfold applyMutations
        rw [List.foldl_cons, List.foldl_cons, Mutation.applyToLocalView_of_unconditional hm,
          Mutation.applyToLocalView_of_unconditional hm, htype]

theorem applyMutations_idem {ms : List Mutation} (hu : ∀ m ∈ ms, m.Unconditional)
    (d : Option MaybeDocument) :
    applyMutations ms (applyMutations ms d) = applyMutations ms d := by
  by_cases hne : ms = []
  · rw [hne]
    rfl
  · rcases applyMutations_forgets_or_keeps hu with hforgets | hkeeps
    · exact hforgets _ _
    · exact applyMutations_congr hu hne (hkeeps d)

theorem applyMutations_isSome {ms : List Mutation} (hu : ∀ m ∈ ms, m.Unconditional) (hne : ms ≠ [])
    (d : Option MaybeDocument) : (applyMutations ms d).isSome := by
  rcases List.eq_nil_or_concat ms with rfl | ⟨init, last, rfl⟩
  · exact absurd rfl hne
  · unfold applyMutations
    rw [List.concat_eq_append, List.foldl_append]
    show (last.applyToLocalView _).isSome
    rw [Mutation.applyToLocalView_of_unconditional (hu last (by simp))]
    cases last.type <;> rfl

theorem visible_applyMutations {ms : List Mutation} (hu : ∀ m ∈ ms, m.Unconditional)
    (d : Option MaybeDocument) :
    visible (applyMutations ms d) = (ms.getLast?.map Mutation.value).getD (visible d) := by
  rcases List.eq_nil_or_concat ms with rfl | ⟨init, last, rfl⟩
  · rfl
  · unfold applyMutations
    rw [List.concat_eq_append, List.foldl_append, List.getLast?_concat]
    exact Mutation.visible_applyToLocalView (hu last (by simp)) _

namespace MutationBatch

variable {batch : MutationBatch} {key : DocumentKey} {maybeDoc maybeDoc' : Option MaybeDocument}

/-- The mutations of the batch depend on nothing, as those of plain writes. -/
def Unconditional (batch : MutationBatch) : Prop :=
  ∀ mutation ∈ batch.mutations, mutation.Unconditional

/-- The mutations of one document, in order. -/
def mutationsOf (batch : MutationBatch) (key : DocumentKey) : List Mutation :=
  batch.mutations.filter fun mutation => decide (mutation.key = key)

theorem Unconditional.mutationsOf (hu : batch.Unconditional) :
    ∀ m ∈ batch.mutationsOf key, m.Unconditional := fun m hm => hu m (List.mem_filter.mp hm).1

theorem applyToLocalDocument_eq :
    batch.applyToLocalDocument maybeDoc key = applyMutations (batch.mutationsOf key) maybeDoc := by
  unfold applyToLocalDocument mutationsOf applyMutations
  rw [List.foldl_filter]
  simp only [decide_eq_true_eq]

theorem mutationsOf_eq_nil_iff : batch.mutationsOf key = [] ↔ batch.affects key = false := by
  unfold mutationsOf affects
  rw [List.filter_eq_nil_iff, List.any_eq_false]
  simp

end MutationBatch

end GroceryApp.FirestoreCore
