import GroceryApp.FirestoreCore.Mutation
import GroceryApp.Lib.Lexicographic
import GroceryApp.Lib.Runs
import Mathlib.Data.Prod.Lex
import Mathlib.Data.List.ReduceOption

/-!
# The queue of pending mutations

The batches that the backend has not answered yet, in the order they were written, and an index of
the documents they are about. A batch is found by the distance of its id from the first one's,
documents are found by a scan of the index that stops at the first entry of another document, and
each of these rests on an assertion. In every queue that is written to at the back and emptied from
the front (`MemoryMutationQueue.Valid`) no assertion fails and each lookup finds exactly what a walk
over the whole queue finds.
-/

namespace GroceryApp.FirestoreCore

/-- An opaque token of the stream. -/
abbrev ByteString := List UInt8

/-- The batches in the order they were written, the id of the next one, and the index of their
documents, by document and then by id. -/
structure MemoryMutationQueue where
  queue : List MutationBatch
  nextBatchId : ℤ
  lastStreamToken : ByteString
  batchesByDocumentKey : SortedSet (DocumentKey ×ₗ ℤ)

namespace MemoryMutationQueue

/-- Ids count from one. -/
def new : MemoryMutationQueue := ⟨[], 1, [], .empty⟩

/-- No batch is pending. -/
def isEmpty (q : MemoryMutationQueue) : Bool := q.queue.isEmpty

/-- Started again when empty, the queue counts from one. -/
def start (q : MemoryMutationQueue) : MemoryMutationQueue :=
  if q.isEmpty then { q with nextBatchId := 1 } else q

/-- Only the first batch can be acknowledged; the stream goes on from the token of the answer. -/
def acknowledgeBatch (q : MemoryMutationQueue) (batch : MutationBatch) (streamToken : ByteString) :
    Except HardAssert MemoryMutationQueue :=
  match q.queue with
  | [] => .error .acknowledgeOnEmptyQueue
  | check :: _ =>
    if batch.batchId = check.batchId then .ok { q with lastStreamToken := streamToken }
    else .error (.queueOrderingFailure batch.batchId check.batchId)

/-- A batch joins the queue at the back, with the next id, and the index learns of its documents. -/
def addMutationBatch (q : MemoryMutationQueue) (mutations : List Mutation) :
    Except HardAssert (MutationBatch × MemoryMutationQueue) :=
  if h : mutations = [] then .error .emptyMutationBatch
  else
    let batch : MutationBatch := ⟨q.nextBatchId, mutations, h⟩
    if q.queue.getLast?.all fun prior => decide (prior.batchId < batch.batchId) then
      .ok (batch,
        { q with
          queue := q.queue ++ [batch]
          nextBatchId := q.nextBatchId + 1
          batchesByDocumentKey := mutations.foldl
            (fun index mutation => index.insert (toLex (mutation.key, batch.batchId)) ())
            q.batchesByDocumentKey })
    else .error .batchIdsNotIncreasing

/-- The first batch leaves the queue and the index. The persistence's reference delegate is told of
each of its documents, which moves nothing here: a delegate that collects by age notes when, for a
collection, and none is run. -/
def removeMutationBatch (q : MemoryMutationQueue) (batch : MutationBatch) :
    Except HardAssert MemoryMutationQueue :=
  match q.queue with
  | [] => .error .removeFromEmptyQueue
  | head :: rest =>
    if head.batchId = batch.batchId then
      .ok { q with
        queue := rest
        batchesByDocumentKey := batch.mutations.foldl
          (fun index mutation => index.erase (toLex (mutation.key, batch.batchId)))
          q.batchesByDocumentKey }
    else .error .onlyFirstEntryRemovable

/-- The distance of an id from that of the first batch. -/
def indexOfBatchId (q : MemoryMutationQueue) (batchId : ℤ) : ℤ :=
  match q.queue with
  | [] => 0
  | firstBatch :: _ => batchId - firstBatch.batchId

/-- The batch at the distance of its id, if it is in the queue; it must have that id. -/
def lookupMutationBatch (q : MemoryMutationQueue) (batchId : ℤ) :
    Except HardAssert (Option MutationBatch) :=
  if q.queue = [] then .ok none
  else
    let index := q.indexOfBatchId batchId
    if index < 0 ∨ q.queue.length ≤ index then .ok none
    else
      match q.queue[index.toNat]? with
      | none => .ok none
      | some batch =>
        if batch.batchId = batchId then .ok (some batch) else .error .foundBatchMismatch

/-- The batch at the distance of the next id, or the first one. -/
def nextMutationBatchAfterBatchId (q : MemoryMutationQueue) (batchId : ℤ) :
    Option MutationBatch :=
  q.queue[(q.indexOfBatchId (batchId + 1)).toNat]?

/-- The id of the last batch, or none if the queue is empty. -/
def getHighestUnacknowledgedBatchId (q : MemoryMutationQueue) : ℤ :=
  if q.isEmpty then batchIdUnknown else q.nextBatchId - 1

/-- The batches in order. -/
def allMutationBatches (q : MemoryMutationQueue) : List MutationBatch := q.queue

/-- The batches of some ids that are in the queue, in the order of the ids. -/
def allMutationBatchesWithIds (q : MemoryMutationQueue) (batchIds : SortedSet ℤ) :
    Except HardAssert (List MutationBatch) := do
  let found ← batchIds.keys.mapM q.lookupMutationBatch
  return found.reduceOption

/-- The entries of the index about one document, up to the first about another. -/
def references (q : MemoryMutationQueue) (key : DocumentKey) : List (DocumentKey ×ₗ ℤ) :=
  (q.batchesByDocumentKey.scan (toLex (key, 0)) fun r => decide ((ofLex r).1 = key)).keys

/-- The batch of an entry of the index, which the main table must have. -/
def indexedBatch (q : MemoryMutationQueue) (id : ℤ) : Except HardAssert MutationBatch := do
  match ← q.lookupMutationBatch id with
  | some batch => .ok batch
  | none => .error .indexedBatchMissing

/-- The batches the index has for a document; it may have none that the queue has not. -/
def allMutationBatchesAffectingDocumentKey (q : MemoryMutationQueue) (key : DocumentKey) :
    Except HardAssert (List MutationBatch) :=
  (q.references key).mapM fun reference => q.indexedBatch (ofLex reference).2

/-- The batches the index has for any of some documents, each once. -/
def allMutationBatchesAffectingDocumentKeys (q : MemoryMutationQueue)
    (documentKeys : DocumentKeySet) : Except HardAssert (List MutationBatch) :=
  q.allMutationBatchesWithIds <| documentKeys.keys.foldl
    (fun batchIds key => (q.references key).foldl
      (fun batchIds reference => batchIds.insert (ofLex reference).2 ()) batchIds) .empty

/-- The least key below a collection: its path with an empty segment. -/
def startKey (collection : CollectionReference) : DocumentKey :=
  ⟨collection.path ++ [""], by have := collection.odd; simp; omega⟩

/-- The entries of the index about the documents of a collection, up to the first outside of its
subtree. -/
def queryReferences (q : MemoryMutationQueue) (collection : CollectionReference) :
    List (DocumentKey ×ₗ ℤ) :=
  ((q.batchesByDocumentKey.scan (toLex (startKey collection, 0))
    fun r => collection.path.isPrefixOf (ofLex r).1.path).filter
      fun r => decide ((ofLex r).1.path.length = collection.path.length + 1)).keys

/-- The batches the index has for the documents of a collection, each once. -/
def allMutationBatchesAffectingQuery (q : MemoryMutationQueue) (collection : CollectionReference) :
    Except HardAssert (List MutationBatch) :=
  q.allMutationBatchesWithIds <| (q.queryReferences collection).foldl
    (fun batchIds reference => batchIds.insert (ofLex reference).2 ()) .empty

/-- An empty queue has an empty index. -/
def performConsistencyCheck (q : MemoryMutationQueue) : Except HardAssert Unit :=
  if q.isEmpty ∧ q.batchesByDocumentKey.entries ≠ [] then .error .danglingReferences else .ok ()

/-- The index has a batch for the document. -/
def containsKey (q : MemoryMutationQueue) (key : DocumentKey) : Bool :=
  (q.batchesByDocumentKey.valuesFrom (toLex (key, 0))).head?.any fun e =>
    decide ((ofLex e.1).1 = key)

/-! ## Valid queues -/

/-- Batch ids count up to the next one, from one or more, and the index holds what the queue
does. -/
structure Valid (q : MemoryMutationQueue) : Prop where
  consecutive : ∀ (i : ℕ) (h : i < q.queue.length),
    q.queue[i].batchId = q.nextBatchId - q.queue.length + i
  positive : q.queue.length < q.nextBatchId
  indexed : ∀ key id, q.batchesByDocumentKey.contains (toLex (key, id)) = true ↔
    ∃ batch ∈ q.queue, batch.batchId = id ∧ batch.affects key = true

theorem valid_new : new.Valid := by
  refine ⟨fun i h => absurd h (Nat.not_lt_zero i), by decide, fun key id => ?_⟩
  simp [new, SortedMap.contains]

section Valid

variable {q q' : MemoryMutationQueue} {batch : MutationBatch} {id : ℤ}

theorem Valid.increasing (hq : q.Valid) :
    q.queue.Pairwise fun b b' => b.batchId < b'.batchId := by
  rw [List.pairwise_iff_getElem]
  intro i j hi hj hij
  rw [hq.consecutive i hi, hq.consecutive j hj]
  omega

theorem Valid.mem_iff (hq : q.Valid) :
    batch ∈ q.queue ↔ ∃ i : ℕ, q.queue[i]? = some batch ∧
      batch.batchId = q.nextBatchId - q.queue.length + i := by
  rw [List.mem_iff_getElem?]
  refine exists_congr fun i => ⟨fun h => ⟨h, ?_⟩, And.left⟩
  obtain ⟨hi, rfl⟩ := List.getElem?_eq_some_iff.mp h
  exact hq.consecutive i hi

theorem Valid.bounds (hq : q.Valid) (h : batch ∈ q.queue) :
    0 < batch.batchId ∧ batch.batchId < q.nextBatchId := by
  obtain ⟨i, hi, hid⟩ := hq.mem_iff.mp h
  have hlt := (List.getElem?_eq_some_iff.mp hi).1
  have hpos := hq.positive
  omega

theorem Valid.eq_of_batchId_eq (hq : q.Valid) {batch' : MutationBatch} (h : batch ∈ q.queue)
    (h' : batch' ∈ q.queue) (hid : batch.batchId = batch'.batchId) : batch = batch' := by
  obtain ⟨i, hi, hbi⟩ := hq.mem_iff.mp h
  obtain ⟨j, hj, hbj⟩ := hq.mem_iff.mp h'
  obtain rfl : i = j := by omega
  exact Option.some.inj (hi.symm.trans hj)

/-- The index of an id is its distance from the first id. -/
theorem Valid.indexOfBatchId (hq : q.Valid) (hne : q.queue ≠ []) (id : ℤ) :
    q.indexOfBatchId id = id - (q.nextBatchId - q.queue.length) := by
  have h0 : 0 < q.queue.length := List.length_pos_iff.mpr hne
  have hfirst := hq.consecutive 0 h0
  unfold MemoryMutationQueue.indexOfBatchId
  cases hqueue : q.queue with
  | nil => exact absurd hqueue hne
  | cons first rest =>
    simp only [hqueue, List.getElem_cons_zero] at hfirst ⊢
    omega

/-- Looking a batch up by its distance from the first one finds what a search finds. -/
theorem Valid.lookup (hq : q.Valid) (id : ℤ) :
    q.lookupMutationBatch id = .ok (q.queue.find? fun batch => decide (batch.batchId = id)) := by
  have hpos := hq.positive
  unfold lookupMutationBatch
  by_cases hne : q.queue = []
  · rw [if_pos hne, hne]
    rfl
  rw [if_neg hne]
  simp only [hq.indexOfBatchId hne]
  set index := id - (q.nextBatchId - q.queue.length) with hindex
  have hnone : (index < 0 ∨ q.queue.length ≤ index) →
      (q.queue.find? fun batch => decide (batch.batchId = id)) = none := by
    intro h
    rw [List.find?_eq_none]
    intro batch hbatch
    obtain ⟨i, hi, hid⟩ := hq.mem_iff.mp hbatch
    have hlt := (List.getElem?_eq_some_iff.mp hi).1
    simp only [decide_eq_true_eq]
    omega
  split_ifs with h
  · rw [hnone h]
  · have hlt : index.toNat < q.queue.length := by omega
    have hid := hq.consecutive index.toNat hlt
    rw [List.getElem?_eq_getElem hlt]
    have heq : q.queue[index.toNat].batchId = id := by omega
    simp only [heq, if_pos]
    have hfound : (q.queue.find? fun batch => decide (batch.batchId = id)).isSome := by
      rw [List.find?_isSome]
      exact ⟨_, List.getElem_mem hlt, by simpa using heq⟩
    obtain ⟨batch, hbatch⟩ := Option.isSome_iff_exists.mp hfound
    have hmem := List.mem_of_find?_eq_some hbatch
    have hbid : batch.batchId = id := by simpa using List.find?_some hbatch
    rw [hbatch, hq.eq_of_batchId_eq hmem (List.getElem_mem hlt) (hbid.trans heq.symm)]

theorem Valid.lookup_of_mem (hq : q.Valid) (h : batch ∈ q.queue) :
    q.lookupMutationBatch batch.batchId = .ok (some batch) := by
  rw [hq.lookup]
  have hfound : (q.queue.find? fun b => decide (b.batchId = batch.batchId)).isSome := by
    rw [List.find?_isSome]
    exact ⟨batch, h, by simp⟩
  obtain ⟨batch', hbatch'⟩ := Option.isSome_iff_exists.mp hfound
  rw [hbatch', hq.eq_of_batchId_eq (List.mem_of_find?_eq_some hbatch') h
    (by simpa using List.find?_some hbatch')]

/-- The batch after an id is the first one with a larger id. -/
theorem Valid.next (hq : q.Valid) (id : ℤ) :
    q.nextMutationBatchAfterBatchId id =
      q.queue.find? fun batch => decide (id < batch.batchId) := by
  have hpos := hq.positive
  unfold nextMutationBatchAfterBatchId
  by_cases hne : q.queue = []
  · simp [hne]
  rw [hq.indexOfBatchId hne]
  set index := (id + 1 - (q.nextBatchId - q.queue.length)).toNat with hindex
  rw [eq_comm]
  cases hget : q.queue[index]? with
  | none =>
    rw [List.find?_eq_none]
    intro batch hbatch
    obtain ⟨i, hi, hid⟩ := hq.mem_iff.mp hbatch
    have hlt := (List.getElem?_eq_some_iff.mp hi).1
    have hge := List.getElem?_eq_none_iff.mp hget
    simp only [decide_eq_true_eq]
    omega
  | some batch =>
    obtain ⟨hlt, hbatch⟩ := List.getElem?_eq_some_iff.mp hget
    rw [List.find?_eq_some_iff_getElem]
    have hid := hq.consecutive index hlt
    rw [hbatch] at hid
    refine ⟨by simp only [decide_eq_true_eq]; omega, index, hlt, hbatch, fun j hj => ?_⟩
    have hidj := hq.consecutive j (hj.trans hlt)
    simp only [Bool.not_eq_true', decide_eq_false_iff_not]
    omega

theorem Valid.highest (hq : q.Valid) :
    q.getHighestUnacknowledgedBatchId = (q.queue.getLast?.map (·.batchId)).getD batchIdUnknown := by
  unfold getHighestUnacknowledgedBatchId isEmpty
  cases hlast : q.queue.getLast? with
  | none => simp [List.getLast?_eq_none_iff.mp hlast]
  | some last =>
    have hne : q.queue ≠ [] := fun h => by simp [h] at hlast
    have hlen : 0 < q.queue.length := List.length_pos_iff.mpr hne
    have hid := hq.consecutive (q.queue.length - 1) (by omega)
    rw [List.getLast?_eq_getElem?, List.getElem?_eq_some_iff] at hlast
    obtain ⟨hlt, hget⟩ := hlast
    rw [hget] at hid
    simp only [List.isEmpty_iff, hne, if_false, Option.map_some, Option.getD_some]
    omega

end Valid

section Scans

variable {q : MemoryMutationQueue} {key : DocumentKey} {r : DocumentKey ×ₗ ℤ}

/-- An index entry is a batch of the queue with a mutation of the document. -/
theorem Valid.contains_iff (hq : q.Valid) : q.batchesByDocumentKey.contains r = true ↔
    ∃ batch ∈ q.queue, batch.batchId = (ofLex r).2 ∧ batch.affects (ofLex r).1 = true :=
  hq.indexed (ofLex r).1 (ofLex r).2

/-- The ids in the index are above zero, where its scans start. -/
theorem Valid.start_le (hq : q.Valid) (h : q.batchesByDocumentKey.contains r = true)
    (hkey : key ≤ (ofLex r).1) : toLex (key, 0) ≤ r := by
  obtain ⟨batch, hbatch, hid, -⟩ := hq.contains_iff.mp h
  have hpos := (hq.bounds hbatch).1
  rcases lt_or_eq_of_le hkey with hlt | heq
  · exact Prod.Lex.le_iff.mpr (.inl hlt)
  · exact Prod.Lex.le_iff.mpr (.inr ⟨heq, by simp only [ofLex_toLex]; omega⟩)

/-- The scan for a document sees all its entries. -/
theorem Valid.mem_references (hq : q.Valid) : r ∈ q.references key ↔
    (∃ batch ∈ q.queue, batch.batchId = (ofLex r).2 ∧ batch.affects key = true) ∧
      (ofLex r).1 = key := by
  unfold references
  rw [SortedMap.scan_eq_filter, SortedMap.mem_keys, SortedMap.contains_filter, Bool.and_eq_true,
    decide_eq_true_eq, decide_eq_true_eq]
  · constructor
    · rintro ⟨h, -, rfl⟩
      exact ⟨hq.contains_iff.mp h, rfl⟩
    · rintro ⟨h, rfl⟩
      have h := hq.contains_iff.mpr h
      exact ⟨h, hq.start_le h le_rfl, rfl⟩
  · intro a b hka hab ha
    rw [decide_eq_false_iff_not] at ha ⊢
    have hle : key ≤ (ofLex a).1 := Prod.Lex.monotone_fst _ _ hka
    have hle' : (ofLex a).1 ≤ (ofLex b).1 := Prod.Lex.monotone_fst _ _ hab.le
    exact ((lt_of_le_of_ne hle (Ne.symm ha)).trans_le hle').ne'

theorem not_lt_emptyString (s : String) : ¬ s < "" := by
  rw [String.lt_iff]
  exact List.not_lt_nil _

theorem startKey_le {collection : CollectionReference}
    (h : Firestore.isImmediateParentOf collection key = true) : startKey collection ≤ key := by
  unfold Firestore.isImmediateParentOf at h
  rw [Bool.and_eq_true, beq_iff_eq, List.isPrefixOf_iff_prefix] at h
  obtain ⟨hlen, s, hs⟩ := h
  rw [documentKey_le_iff, ← hs]
  refine Lexicographic.append_le_append_left _ ?_
  cases s with
  | nil => rw [← hs, List.append_nil] at hlen; omega
  | cons a s =>
    refine Lexicographic.cons_le_cons_iff.mpr ?_
    rcases lt_or_eq_of_le (not_lt.mp (not_lt_emptyString a)) with hlt | heq
    · exact .inl hlt
    · exact .inr ⟨heq, Lexicographic.nil_le s⟩

/-- The scan for a collection sees all entries of its documents. -/
theorem Valid.mem_queryReferences (hq : q.Valid) {collection : CollectionReference} :
    r ∈ q.queryReferences collection ↔
      (∃ batch ∈ q.queue, batch.batchId = (ofLex r).2 ∧ batch.affects (ofLex r).1 = true) ∧
        Firestore.isImmediateParentOf collection (ofLex r).1 = true := by
  unfold queryReferences
  rw [SortedMap.scan_eq_filter, SortedMap.mem_keys, SortedMap.contains_filter,
    SortedMap.contains_filter, hq.contains_iff, and_assoc]
  · refine and_congr_right fun h => ?_
    have hle : Firestore.isImmediateParentOf collection (ofLex r).1 = true →
        toLex (startKey collection, 0) ≤ r := fun hparent =>
      hq.start_le (hq.contains_iff.mpr h) (startKey_le hparent)
    unfold Firestore.isImmediateParentOf at hle ⊢
    grind
  · intro a b hka hab ha
    have hle : (startKey collection).path ≤ (ofLex a).1.path :=
      documentKey_le_iff.mp (Prod.Lex.monotone_fst _ _ hka)
    have hpa : collection.path ≤ (ofLex a).1.path :=
      (Lexicographic.le_append collection.path [""]).trans hle
    rcases lt_or_eq_of_le (Prod.Lex.monotone_fst _ _ hab.le : (ofLex a).1 ≤ (ofLex b).1)
      with hlt | heq
    · have hpast := Lexicographic.not_prefix_of_lt hpa (documentKey_lt_iff.mp hlt)
      simp only [← Bool.not_eq_true, List.isPrefixOf_iff_prefix] at ha ⊢
      exact hpast ha
    · rw [← heq]
      exact ha

theorem mapM_eq_ok {α β ε : Type*} {f : α → Except ε β} {g : α → β} {l : List α}
    (h : ∀ a ∈ l, f a = .ok (g a)) : l.mapM f = .ok (l.map g) := by
  induction l with
  | nil => rfl
  | cons a l ih =>
    rw [List.mapM_cons, h a List.mem_cons_self, ih fun b hb => h b (List.mem_cons_of_mem a hb)]
    rfl

/-- A set of ids of some batches of the queue leads to these batches, in their order. -/
theorem Valid.withIds (hq : q.Valid) {batchIds : SortedSet ℤ} {p : MutationBatch → Bool}
    (h : ∀ id, batchIds.contains id = true ↔ ∃ batch ∈ q.queue, batch.batchId = id ∧ p batch = true) :
    q.allMutationBatchesWithIds batchIds = .ok (q.queue.filter p) := by
  have hkeys : batchIds.keys = (q.queue.filter p).map (·.batchId) := by
    refine SortedMap.eq_of_increasing (f := id) SortedMap.sorted_keys ?_ fun id => ?_
    · exact List.pairwise_map.mpr (hq.increasing.filter p)
    · rw [SortedMap.mem_keys, h, List.mem_map]
      simp only [List.mem_filter]
      grind
  have hfound : (batchIds.keys.mapM q.lookupMutationBatch) = .ok ((q.queue.filter p).map some) := by
    rw [hkeys, List.mapM_map]
    exact mapM_eq_ok fun batch hbatch => hq.lookup_of_mem (List.mem_filter.mp hbatch).1
  unfold allMutationBatchesWithIds
  rw [hfound]
  simp [bind, Except.bind, pure, Except.pure, List.reduceOption]

/-- The batches about a document, by the index, are those a walk over the queue finds. -/
theorem Valid.affectingKey (hq : q.Valid) (key : DocumentKey) :
    q.allMutationBatchesAffectingDocumentKey key =
      .ok (q.queue.filter fun batch => batch.affects key) := by
  have hids : (q.references key).map (fun r => (ofLex r).2) =
      (q.queue.filter fun batch => batch.affects key).map (·.batchId) := by
    refine SortedMap.eq_of_increasing (f := id) ?_ ?_ fun id => ?_
    · rw [List.pairwise_map]
      refine SortedMap.sorted_keys.imp_of_mem fun {a b} ha hb hab => ?_
      have hka := (hq.mem_references.mp ha).2
      have hkb := (hq.mem_references.mp hb).2
      rcases Prod.Lex.lt_iff.mp hab with hlt | ⟨-, hlt⟩
      · rw [hka, hkb] at hlt
        exact absurd hlt (lt_irrefl _)
      · exact hlt
    · exact List.pairwise_map.mpr (hq.increasing.filter _)
    · simp only [List.mem_map, List.mem_filter, hq.mem_references]
      constructor
      · rintro ⟨r, ⟨⟨batch, hbatch, hid, haff⟩, rfl⟩, rfl⟩
        exact ⟨batch, ⟨hbatch, haff⟩, hid⟩
      · rintro ⟨batch, ⟨hbatch, haff⟩, rfl⟩
        exact ⟨toLex (key, batch.batchId), ⟨⟨batch, hbatch, rfl, haff⟩, rfl⟩, rfl⟩
  have hfound : ((q.references key).map fun r => (ofLex r).2).mapM q.indexedBatch =
      .ok ((q.queue.filter fun batch => batch.affects key).map id) := by
    rw [hids, List.mapM_map]
    refine mapM_eq_ok fun batch hbatch => ?_
    unfold indexedBatch
    rw [Function.comp_apply, hq.lookup_of_mem (List.mem_filter.mp hbatch).1]
    rfl
  rwa [List.mapM_map, List.map_id] at hfound

/-- The batches about some of the documents, in the order of the queue. -/
theorem Valid.affectingKeys (hq : q.Valid) (documentKeys : DocumentKeySet) :
    q.allMutationBatchesAffectingDocumentKeys documentKeys =
      .ok (q.queue.filter fun batch => documentKeys.keys.any fun key => batch.affects key) := by
  refine hq.withIds fun id => ?_
  have hfold : ∀ (keys : List DocumentKey) (ids : SortedSet ℤ),
      (keys.foldl (fun batchIds key => (q.references key).foldl
        (fun batchIds reference => batchIds.insert (ofLex reference).2 ()) batchIds)
          ids).contains id = true ↔
        ids.contains id = true ∨ ∃ key ∈ keys, ∃ r ∈ q.references key, (ofLex r).2 = id := by
    intro keys
    induction keys with
    | nil => simp
    | cons key keys ih =>
      intro ids
      rw [List.foldl_cons, ih, SortedMap.contains_foldl_insert]
      simp [or_assoc]
  rw [hfold]
  simp only [hq.mem_references, List.any_eq_true]
  constructor
  · rintro (h | ⟨key, hkey, r, ⟨⟨batch, hbatch, hid, haff⟩, rfl⟩, rfl⟩)
    · simp [SortedMap.contains] at h
    · exact ⟨batch, hbatch, hid, _, hkey, haff⟩
  · rintro ⟨batch, hbatch, rfl, key, hkey, haff⟩
    exact .inr ⟨key, hkey, toLex (key, batch.batchId), ⟨⟨batch, hbatch, rfl, haff⟩, rfl⟩, rfl⟩

/-- The batches about documents of a collection, in the order of the queue. -/
theorem Valid.affectingQuery (hq : q.Valid) (collection : CollectionReference) :
    q.allMutationBatchesAffectingQuery collection =
      .ok (q.queue.filter fun batch => batch.mutations.any fun mutation =>
        Firestore.isImmediateParentOf collection mutation.key) := by
  refine hq.withIds fun id => ?_
  rw [SortedMap.contains_foldl_insert]
  simp only [hq.mem_queryReferences, List.any_eq_true]
  constructor
  · rintro (h | ⟨r, ⟨⟨batch, hbatch, hid, haff⟩, hparent⟩, rfl⟩)
    · simp [SortedMap.contains] at h
    · obtain ⟨mutation, hmutation, hkey⟩ := List.any_eq_true.mp haff
      exact ⟨batch, hbatch, hid, mutation, hmutation, (beq_iff_eq.mp hkey) ▸ hparent⟩
  · rintro ⟨batch, hbatch, rfl, mutation, hmutation, hparent⟩
    exact .inr ⟨toLex (mutation.key, batch.batchId), ⟨⟨batch, hbatch, rfl,
      List.any_eq_true.mpr ⟨mutation, hmutation, beq_self_eq_true _⟩⟩, hparent⟩, rfl⟩

theorem Valid.consistent (hq : q.Valid) : q.performConsistencyCheck = .ok () := by
  unfold performConsistencyCheck isEmpty
  rw [if_neg]
  rintro ⟨hempty, hne⟩
  obtain ⟨e, he⟩ := List.exists_mem_of_ne_nil _ hne
  obtain ⟨batch, hbatch, -⟩ :=
    hq.contains_iff.mp (SortedMap.mem_keys.mp (List.mem_map_of_mem he))
  rw [List.isEmpty_iff.mp hempty] at hbatch
  cases hbatch

theorem Valid.containsKey_iff (hq : q.Valid) (key : DocumentKey) :
    q.containsKey key = true ↔ ∃ batch ∈ q.queue, batch.affects key = true := by
  have href : q.containsKey key = true ↔ ∃ r, r ∈ q.references key := by
    have hkeys : q.references key = ((q.batchesByDocumentKey.valuesFrom (toLex (key, 0))).takeWhile
      fun e => decide ((ofLex e.1).1 = key)).map Prod.fst := rfl
    unfold containsKey
    rw [hkeys]
    cases q.batchesByDocumentKey.valuesFrom (toLex (key, 0)) with
    | nil => simp
    | cons e es =>
      by_cases h : (ofLex e.1).1 = key
      · simp [h]
      · simp [h]
  rw [href]
  constructor
  · rintro ⟨r, hr⟩
    obtain ⟨⟨batch, hbatch, -, haff⟩, -⟩ := hq.mem_references.mp hr
    exact ⟨batch, hbatch, haff⟩
  · rintro ⟨batch, hbatch, haff⟩
    exact ⟨toLex (key, batch.batchId), hq.mem_references.mpr ⟨⟨batch, hbatch, rfl, haff⟩, rfl⟩⟩

end Scans

/-! ## What the operations keep -/

section Operations

variable {q : MemoryMutationQueue} {head : MutationBatch} {rest : List MutationBatch}

theorem Valid.start (hq : q.Valid) : q.start.Valid := by
  unfold MemoryMutationQueue.start
  split_ifs with h
  · have hnil : q.queue = [] := List.isEmpty_iff.mp h
    refine ⟨fun i hi => ?_, ?_, fun key id => hq.indexed key id⟩
    · simp [hnil] at hi
    · simp [hnil]
  · exact hq

theorem queue_start : q.start.queue = q.queue := by
  unfold MemoryMutationQueue.start
  split_ifs <;> rfl

theorem Valid.acknowledge (hq : q.Valid) (h : q.queue = head :: rest) (streamToken : ByteString) :
    ∃ q', q.acknowledgeBatch head streamToken = .ok q' ∧ q'.queue = q.queue ∧
      q'.nextBatchId = q.nextBatchId ∧ q'.Valid := by
  refine ⟨{ q with lastStreamToken := streamToken }, ?_, rfl, rfl, hq.consecutive, hq.positive,
    hq.indexed⟩
  unfold acknowledgeBatch
  rw [h]
  exact if_pos rfl

/-- A batch that is written goes to the back, under the next id. -/
theorem Valid.add (hq : q.Valid) {mutations : List Mutation} (hne : mutations ≠ []) :
    ∃ q', q.addMutationBatch mutations = .ok (⟨q.nextBatchId, mutations, hne⟩, q') ∧
      q'.queue = q.queue ++ [⟨q.nextBatchId, mutations, hne⟩] ∧
      q'.nextBatchId = q.nextBatchId + 1 ∧ q'.Valid := by
  have hlast : q.queue.getLast?.all fun prior => decide (prior.batchId < q.nextBatchId) := by
    rw [Option.all_eq_true]
    intro prior hprior
    exact decide_eq_true (hq.bounds (List.mem_of_getLast? hprior)).2
  unfold addMutationBatch
  rw [dif_neg hne, if_pos hlast]
  refine ⟨_, rfl, rfl, rfl, fun i hi => ?_, ?_, fun key id => ?_⟩
  · rw [List.length_append, List.length_singleton] at hi
    simp only [List.length_append, List.length_singleton]
    by_cases hi' : i < q.queue.length
    · rw [List.getElem_append_left hi', hq.consecutive i hi']
      omega
    · rw [List.getElem_append_right (by omega), List.getElem_singleton]
      simp only
      omega
  · have hpos := hq.positive
    simp only [List.length_append, List.length_singleton]
    omega
  · rw [SortedMap.contains_foldl_insert, hq.indexed]
    simp only [List.mem_append, List.mem_singleton, EmbeddingLike.apply_eq_iff_eq, Prod.mk.injEq]
    constructor
    · rintro (⟨batch, hbatch, hid, haff⟩ | ⟨mutation, hmutation, rfl, rfl⟩)
      · exact ⟨batch, .inl hbatch, hid, haff⟩
      · exact ⟨_, .inr rfl, rfl, List.any_eq_true.mpr ⟨mutation, hmutation, beq_self_eq_true _⟩⟩
    · rintro ⟨batch, hbatch | rfl, hid, haff⟩
      · exact .inl ⟨batch, hbatch, hid, haff⟩
      · obtain ⟨mutation, hmutation, hkey⟩ := List.any_eq_true.mp haff
        exact .inr ⟨mutation, hmutation, beq_iff_eq.mp hkey, hid⟩

/-- The first batch can be removed, and leaves the others. -/
theorem Valid.remove (hq : q.Valid) (h : q.queue = head :: rest) :
    ∃ q', q.removeMutationBatch head = .ok q' ∧ q'.queue = rest ∧
      q'.nextBatchId = q.nextBatchId ∧ q'.Valid := by
  have hincreasing : ∀ batch ∈ rest, head.batchId < batch.batchId := by
    have := hq.increasing
    rw [h] at this
    exact (List.pairwise_cons.mp this).1
  unfold removeMutationBatch
  rw [h]
  simp only [if_pos]
  refine ⟨_, rfl, rfl, rfl, fun i hi => ?_, ?_, fun key id => ?_⟩
  · have hlen : q.queue.length = rest.length + 1 := by rw [h, List.length_cons]
    have hi : i < rest.length := hi
    have hid := hq.consecutive (i + 1) (by omega)
    simp only [h, List.getElem_cons_succ, List.length_cons] at hid
    simp only
    omega
  · have hpos := hq.positive
    rw [h, List.length_cons] at hpos
    simp only
    omega
  · rw [SortedMap.contains_foldl_erase, hq.indexed, h]
    simp only [List.mem_cons, ne_eq, EmbeddingLike.apply_eq_iff_eq, Prod.mk.injEq]
    constructor
    · rintro ⟨⟨batch, rfl | hbatch, hid, haff⟩, hother⟩
      · obtain ⟨mutation, hmutation, hkey⟩ := List.any_eq_true.mp haff
        exact absurd ⟨beq_iff_eq.mp hkey, hid⟩ (hother mutation hmutation)
      · exact ⟨batch, hbatch, hid, haff⟩
    · rintro ⟨batch, hbatch, hid, haff⟩
      refine ⟨⟨batch, .inr hbatch, hid, haff⟩, fun mutation _ heq => ?_⟩
      have hlt := hincreasing batch hbatch
      omega

end Operations

end MemoryMutationQueue

end GroceryApp.FirestoreCore
