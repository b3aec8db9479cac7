import Mathlib.Data.List.InsertIdx
import Mathlib.Data.List.Sort
import Mathlib.Data.List.Lex

/-!
# Sorted maps

A finite map over a linear order is the list of its entries in strictly increasing order of their
keys, so that two maps with the same lookups are the same map (`SortedMap.ext_find`). A scan starts
at the first entry whose key is not below a given one (`valuesFrom`) and stops at the first entry
that fails a test (`scan`); over a test that fails for good it sees exactly the entries that pass
(`scan_eq_filter`).
-/

universe u v

structure SortedMap (α : Type u) (β : Type v) [LinearOrder α] where
  entries : List (α × β)
  sorted : entries.Pairwise fun a b => a.1 < b.1

namespace SortedMap

variable {α : Type u} {β : Type v} [LinearOrder α]

instance [DecidableEq β] : DecidableEq (SortedMap α β) := fun m m' =>
  decidable_of_iff (m.entries = m'.entries) ⟨fun h => by cases m; cases m'; congr, congrArg _⟩

def empty : SortedMap α β := ⟨[], .nil⟩

instance : Inhabited (SortedMap α β) := ⟨empty⟩

/-! ## Lists of entries -/

def insertEntry (k : α) (v : β) : List (α × β) → List (α × β)
  | [] => [(k, v)]
  | e :: es =>
    if k < e.1 then (k, v) :: e :: es
    else if k = e.1 then (k, v) :: es
    else e :: insertEntry k v es

theorem mem_insertEntry {k : α} {v : β} {es : List (α × β)} {e : α × β}
    (h : e ∈ insertEntry k v es) : e = (k, v) ∨ e ∈ es := by
  induction es with
  | nil => exact .inl (List.mem_singleton.mp h)
  | cons e' es ih =>
    unfold insertEntry at h
    split_ifs at h
    · exact List.mem_cons.mp h
    · exact (List.mem_cons.mp h).imp id (List.mem_cons_of_mem e')
    · rcases List.mem_cons.mp h with rfl | h
      · exact .inr List.mem_cons_self
      · exact (ih h).imp id (List.mem_cons_of_mem e')

theorem sorted_insertEntry (k : α) (v : β) {es : List (α × β)}
    (h : es.Pairwise fun a b => a.1 < b.1) :
    (insertEntry k v es).Pairwise fun a b => a.1 < b.1 := by
  induction es with
  | nil => exact List.pairwise_singleton _ _
  | cons e es ih =>
    obtain ⟨he, hes⟩ := List.pairwise_cons.mp h
    unfold insertEntry
    split_ifs with hlt heq
    · refine List.pairwise_cons.mpr ⟨fun e' he' => ?_, h⟩
      rcases List.mem_cons.mp he' with rfl | he'
      · exact hlt
      · exact hlt.trans (he e' he')
    · exact List.pairwise_cons.mpr ⟨fun e' he' => heq ▸ he e' he', hes⟩
    · refine List.pairwise_cons.mpr ⟨fun e' he' => ?_, ih hes⟩
      rcases mem_insertEntry he' with rfl | he'
      · exact lt_of_le_of_ne (not_lt.mp hlt) (Ne.symm heq)
      · exact he e' he'

def findEntry (k : α) : List (α × β) → Option β
  | [] => none
  | e :: es => if e.1 = k then some e.2 else findEntry k es

theorem findEntry_eq_none {k : α} {es : List (α × β)} (h : ∀ e ∈ es, e.1 ≠ k) :
    findEntry k es = none := by
  induction es with
  | nil => rfl
  | cons e es ih =>
    rw [findEntry, if_neg (h e List.mem_cons_self),
      ih fun e' he' => h e' (List.mem_cons_of_mem e he')]

theorem findEntry_insertEntry (k k' : α) (v : β) (es : List (α × β)) :
    findEntry k' (insertEntry k v es) = if k' = k then some v else findEntry k' es := by
  induction es with
  | nil => simp [insertEntry, findEntry, eq_comm]
  | cons e es ih =>
    unfold insertEntry
    split_ifs <;> simp_all [findEntry] <;> grind

theorem findEntry_filter (p : α → Bool) (k : α) (es : List (α × β)) :
    findEntry k (es.filter fun e => p e.1) = if p k then findEntry k es else none := by
  induction es with
  | nil => simp [findEntry]
  | cons e es ih =>
    rw [List.filter_cons]
    by_cases hk : e.1 = k
    · subst hk
      cases hp : p e.1 <;> simp [findEntry, ih, hp]
    · cases hp : p e.1 <;> simp [findEntry, ih, hk]

theorem mem_iff_findEntry {k : α} {v : β} {es : List (α × β)}
    (h : es.Pairwise fun a b => a.1 < b.1) : (k, v) ∈ es ↔ findEntry k es = some v := by
  induction es with
  | nil => simp [findEntry]
  | cons e es ih =>
    obtain ⟨he, hes⟩ := List.pairwise_cons.mp h
    rw [List.mem_cons, ih hes, findEntry]
    split_ifs with hk
    · subst hk
      rw [findEntry_eq_none fun e' he' => (he e' he').ne']
      simp [Prod.ext_iff, eq_comm]
    · simp [Prod.ext_iff, Ne.symm hk]

theorem sorted_filterMapEntries {γ : Type*} (f : α → β → Option γ) {es : List (α × β)}
    (h : es.Pairwise fun a b => a.1 < b.1) :
    (es.filterMap fun e => (f e.1 e.2).map fun c => (e.1, c)).Pairwise fun a b => a.1 < b.1 := by
  refine List.Pairwise.filterMap _ (fun a a' haa' b hb b' hb' => ?_) h
  obtain ⟨c, -, rfl⟩ := Option.map_eq_some_iff.mp hb
  obtain ⟨c', -, rfl⟩ := Option.map_eq_some_iff.mp hb'
  exact haa'

theorem findEntry_filterMap {γ : Type*} (f : α → β → Option γ) (k : α) {es : List (α × β)}
    (h : es.Pairwise fun a b => a.1 < b.1) :
    findEntry k (es.filterMap fun e => (f e.1 e.2).map fun c => (e.1, c)) =
      (findEntry k es).bind (f k) := by
  induction es with
  | nil => rfl
  | cons e es ih =>
    obtain ⟨he, hes⟩ := List.pairwise_cons.mp h
    by_cases hk : e.1 = k
    · subst hk
      have hrest :
          findEntry e.1 (es.filterMap fun e => (f e.1 e.2).map fun c => (e.1, c)) = none := by
        rw [ih hes, findEntry_eq_none fun e' he' => (he e' he').ne']
        rfl
      cases hf : f e.1 e.2 <;> simp [findEntry, hf, hrest]
    · cases hf : f e.1 e.2 <;> simp [findEntry, hf, hk, ih hes]

/-! ## Operations -/

def find? (m : SortedMap α β) (k : α) : Option β := findEntry k m.entries

def insert (m : SortedMap α β) (k : α) (v : β) : SortedMap α β :=
  ⟨insertEntry k v m.entries, sorted_insertEntry k v m.sorted⟩

def filter (m : SortedMap α β) (p : α → Bool) : SortedMap α β :=
  ⟨m.entries.filter fun e => p e.1, m.sorted.filter _⟩

def erase (m : SortedMap α β) (k : α) : SortedMap α β := m.filter fun k' => !decide (k' = k)

def filterMap {γ : Type*} (m : SortedMap α β) (f : α → β → Option γ) : SortedMap α γ :=
  ⟨m.entries.filterMap fun e => (f e.1 e.2).map fun c => (e.1, c),
    sorted_filterMapEntries f m.sorted⟩

def keys (m : SortedMap α β) : List α := m.entries.map Prod.fst

def contains (m : SortedMap α β) (k : α) : Bool := (m.find? k).isSome

/-- The keys as a set. -/
def keySet (m : SortedMap α β) : SortedMap α Unit := m.filterMap fun _ _ => some ()

/-- The entries from the first one whose key is not below `k`. -/
def valuesFrom (m : SortedMap α β) (k : α) : List (α × β) :=
  m.entries.dropWhile fun e => decide (e.1 < k)

/-- The entries a scan from `k` sees before the first one that fails the test. -/
def scan (m : SortedMap α β) (k : α) (p : α → Bool) : SortedMap α β :=
  ⟨(m.valuesFrom k).takeWhile fun e => p e.1,
    m.sorted.sublist ((List.takeWhile_sublist _).trans (List.dropWhile_sublist _))⟩

variable {m m' : SortedMap α β} {k k' : α} {v : β}

@[simp] theorem find?_empty : (empty : SortedMap α β).find? k = none := rfl

theorem find?_insert : (m.insert k v).find? k' = if k' = k then some v else m.find? k' :=
  findEntry_insertEntry k k' v m.entries

@[simp] theorem find?_insert_self : (m.insert k v).find? k = some v := by
  rw [find?_insert, if_pos rfl]

theorem find?_insert_of_ne (h : k' ≠ k) : (m.insert k v).find? k' = m.find? k' := by
  rw [find?_insert, if_neg h]

theorem find?_filter {p : α → Bool} :
    (m.filter p).find? k = if p k then m.find? k else none := findEntry_filter p k m.entries

theorem contains_filter {p : α → Bool} :
    (m.filter p).contains k = true ↔ m.contains k = true ∧ p k = true := by
  unfold contains
  rw [find?_filter]
  cases p k <;> simp

theorem find?_filterMap {γ : Type*} {f : α → β → Option γ} :
    (m.filterMap f).find? k = (m.find? k).bind (f k) := findEntry_filterMap f k m.sorted

theorem contains_keySet : m.keySet.contains k = m.contains k := by
  unfold keySet contains
  rw [find?_filterMap]
  cases m.find? k <;> rfl

theorem find?_erase : (m.erase k).find? k' = if k' = k then none else m.find? k' := by
  unfold erase
  rw [find?_filter]
  by_cases h : k' = k <;> simp [h]

@[simp] theorem find?_erase_self : (m.erase k).find? k = none := by
  rw [find?_erase, if_pos rfl]

theorem find?_erase_of_ne (h : k' ≠ k) : (m.erase k).find? k' = m.find? k' := by
  rw [find?_erase, if_neg h]

theorem contains_insert : (m.insert k v).contains k' = (decide (k' = k) || m.contains k') := by
  unfold contains
  rw [find?_insert]
  by_cases h : k' = k <;> simp [h]

theorem contains_erase : (m.erase k).contains k' = (!decide (k' = k) && m.contains k') := by
  unfold contains
  rw [find?_erase]
  by_cases h : k' = k <;> simp [h]

theorem mem_entries : (k, v) ∈ m.entries ↔ m.find? k = some v := mem_iff_findEntry m.sorted

theorem mem_keys : k ∈ m.keys ↔ m.contains k = true := by
  unfold keys contains
  rw [List.mem_map, Option.isSome_iff_exists]
  constructor
  · rintro ⟨⟨k', v⟩, h, rfl⟩
    exact ⟨v, mem_entries.mp h⟩
  · rintro ⟨v, h⟩
    exact ⟨(k, v), mem_entries.mpr h, rfl⟩

theorem sorted_keys : m.keys.Pairwise (· < ·) := List.pairwise_map.mpr m.sorted

theorem nodup_keys : m.keys.Nodup := sorted_keys.imp fun h => h.ne

/-- A sorted map is its lookups. -/
theorem ext_find (h : ∀ k, m.find? k = m'.find? k) : m = m' := by
  have hperm : m.entries.Perm m'.entries := by
    rw [List.perm_ext_iff_of_nodup (m.sorted.imp fun h e => h.ne (congrArg _ e))
      (m'.sorted.imp fun h e => h.ne (congrArg _ e))]
    rintro ⟨k, v⟩
    rw [mem_entries, mem_entries, h k]
  have heq : m.entries = m'.entries := by
    refine hperm.eq_of_pairwise ?_ m.sorted m'.sorted
    intro a b _ _ hab hba
    exact absurd (hab.trans hba) (lt_irrefl _)
  cases m
  cases m'
  congr

theorem isEmpty_iff : m.entries.isEmpty = true ↔ ∀ k, m.contains k = false := by
  rw [List.isEmpty_iff]
  constructor
  · intro h k
    unfold contains find?
    rw [h]
    rfl
  · intro h
    rw [List.eq_nil_iff_forall_not_mem]
    rintro ⟨k, v⟩ hmem
    have hk := h k
    unfold contains at hk
    rw [mem_entries.mp hmem] at hk
    cases hk

theorem erase_eq_self (h : m.find? k = none) : m.erase k = m := by
  refine ext_find fun k' => ?_
  rw [find?_erase]
  split_ifs with hk
  · rw [hk, h]
  · rfl

/-! ## Many entries at once -/

theorem find?_foldl_insert {γ : Type*} (f : γ → α) (v : β) (l : List γ) :
    (l.foldl (fun m a => m.insert (f a) v) m).find? k =
      if l.any (fun a => decide (f a = k)) then some v else m.find? k := by
  induction l generalizing m with
  | nil => simp
  | cons a l ih =>
    rw [List.foldl_cons, ih, find?_insert, List.any_cons]
    by_cases h : f a = k
    · simp [h]
    · simp [h, Ne.symm h]

theorem find?_foldl_erase {γ : Type*} (f : γ → α) (l : List γ) :
    (l.foldl (fun m a => m.erase (f a)) m).find? k =
      if l.any (fun a => decide (f a = k)) then none else m.find? k := by
  induction l generalizing m with
  | nil => simp
  | cons a l ih =>
    rw [List.foldl_cons, ih, find?_erase, List.any_cons]
    by_cases h : f a = k
    · simp [h]
    · simp [h, Ne.symm h]

/-- A fold that keeps the last hit. -/
theorem foldl_keep_last {γ δ : Type*} (p : γ → Prop) [DecidablePred p] (f : γ → δ) (l : List γ)
    (c : Option δ) : l.foldl (fun c a => if p a then some (f a) else c) c =
      ((l.filter fun a => decide (p a)).getLast?.map f).or c := by
  induction l generalizing c with
  | nil => rfl
  | cons a l ih =>
    rw [List.foldl_cons, ih]
    by_cases h : p a
    · rw [if_pos h, List.filter_cons_of_pos (by simpa using h), List.getLast?_cons]
      cases (l.filter fun a => decide (p a)).getLast? <;> rfl
    · rw [if_neg h, List.filter_cons_of_neg (by simpa using h)]

/-- Of several insertions at a key the last one is found. -/
theorem find?_foldl_insert_last {γ : Type*} (f : γ → α) (g : γ → β) (l : List γ) :
    (l.foldl (fun m a => m.insert (f a) (g a)) m).find? k =
      ((l.filter fun a => decide (f a = k)).getLast?.map g).or (m.find? k) := by
  rw [← foldl_keep_last]
  induction l generalizing m with
  | nil => rfl
  | cons a l ih =>
    rw [List.foldl_cons, List.foldl_cons, ih, find?_insert]
    simp only [eq_comm]

theorem contains_foldl_insert {γ : Type*} (f : γ → α) (v : β) (l : List γ) :
    (l.foldl (fun m a => m.insert (f a) v) m).contains k = true ↔
      m.contains k = true ∨ ∃ a ∈ l, f a = k := by
  unfold contains
  rw [find?_foldl_insert]
  split_ifs with h
  · simpa using .inr (by simpa using h)
  · simp_all

theorem contains_foldl_erase {γ : Type*} (f : γ → α) (l : List γ) :
    (l.foldl (fun m a => m.erase (f a)) m).contains k = true ↔
      m.contains k = true ∧ ∀ a ∈ l, f a ≠ k := by
  unfold contains
  rw [find?_foldl_erase]
  split_ifs with h
  · simpa using fun _ => h
  · simp_all

/-- A fold over the entries whose steps each touch nothing but the slot of their key does to each
slot what the step of its key does, from what the slot was at first. -/
theorem foldlM_entries {σ τ ε : Type*} {step : σ → α × β → Except ε σ} {slot : σ → α → τ}
    {P : α → τ → Prop} {R : α → β → τ → τ → Prop}
    (hstep : ∀ s k v, P k (slot s k) → ∃ s', step s (k, v) = .ok s' ∧
      R k v (slot s k) (slot s' k) ∧ ∀ k', k' ≠ k → slot s' k' = slot s k')
    (m : SortedMap α β) (s : σ) (hs : ∀ k, P k (slot s k)) :
    ∃ s', m.entries.foldlM step s = .ok s' ∧ ∀ k, (m.find? k = none → slot s' k = slot s k) ∧
      ∀ v, m.find? k = some v → R k v (slot s k) (slot s' k) := by
  obtain ⟨es, hsorted⟩ := m
  show ∃ s', es.foldlM step s = .ok s' ∧ ∀ k, (findEntry k es = none → _) ∧
    ∀ v, findEntry k es = some v → _
  replace hs : ∀ e ∈ es, P e.1 (slot s e.1) := fun e _ => hs e.1
  induction es generalizing s with
  | nil => exact ⟨s, rfl, fun k => ⟨fun _ => rfl, fun v h => by cases h⟩⟩
  | cons e es ih =>
    obtain ⟨he, hsorted⟩ := List.pairwise_cons.mp hsorted
    obtain ⟨s₁, hone, hslot, hframe⟩ := hstep s e.1 e.2 (hs e List.mem_cons_self)
    obtain ⟨s', hfold, hslots⟩ := ih s₁ hsorted fun e' he' => by
      rw [hframe e'.1 (he e' he').ne']
      exact hs e' (List.mem_cons_of_mem e he')
    refine ⟨s', ?_, fun k => ?_⟩
    · rw [List.foldlM_cons, hone]
      exact hfold
    · unfold findEntry
      by_cases hk : e.1 = k
      · subst hk
        have hlast := (hslots e.1).1 (findEntry_eq_none fun e' he' => (he e' he').ne')
        rw [if_pos rfl, hlast]
        refine ⟨fun h => (by cases h), fun v h => ?_⟩
        obtain rfl := Option.some.inj h
        exact hslot
      · rw [if_neg hk, ← hframe k (Ne.symm hk)]
        exact hslots k

/-! ## The first and the last entry -/

theorem find?_head {es : List (α × β)} (h : m.entries = (k, v) :: es) : m.find? k = some v := by
  unfold find?
  rw [h, findEntry, if_pos rfl]

theorem entries_erase_head {es : List (α × β)} (h : m.entries = (k, v) :: es) :
    (m.erase k).entries = es := by
  have hsorted := m.sorted
  rw [h] at hsorted
  show m.entries.filter _ = es
  rw [h, List.filter_cons_of_neg (by simp), List.filter_eq_self]
  intro e he
  simpa using ((List.pairwise_cons.mp hsorted).1 e he).ne'

theorem insertEntry_append {es : List (α × β)} (h : ∀ e ∈ es, e.1 < k) (es' : List (α × β)) :
    insertEntry k v (es ++ es') = es ++ insertEntry k v es' := by
  induction es with
  | nil => rfl
  | cons e es ih =>
    have he := h e List.mem_cons_self
    rw [List.cons_append, insertEntry, if_neg he.not_gt, if_neg he.ne',
      ih fun e' he' => h e' (List.mem_cons_of_mem e he')]
    rfl

/-- A key above all others goes to the end. -/
theorem entries_insert_of_lt (h : ∀ e ∈ m.entries, e.1 < k) :
    (m.insert k v).entries = m.entries ++ [(k, v)] := by
  show insertEntry k v m.entries = _
  have happend := insertEntry_append (v := v) h []
  rwa [List.append_nil] at happend

/-- The last entry can be replaced. -/
theorem entries_insert_last {es : List (α × β)} {v' : β} (h : m.entries = es ++ [(k, v')]) :
    (m.insert k v).entries = es ++ [(k, v)] := by
  have hsorted := m.sorted
  rw [h] at hsorted
  show insertEntry k v m.entries = _
  rw [h, insertEntry_append fun e he => (List.pairwise_append.mp hsorted).2.2 e he _
    List.mem_cons_self, insertEntry, if_neg (lt_irrefl _), if_pos rfl]

/-! ## Places -/

/-- Two lists in strictly increasing order of a measure with the same members are equal. -/
theorem eq_of_increasing {γ : Type*} {f : γ → α} {l l' : List γ}
    (hl : l.Pairwise fun a b => f a < f b) (hl' : l'.Pairwise fun a b => f a < f b)
    (h : ∀ a, a ∈ l ↔ a ∈ l') : l = l' := by
  have hperm : l.Perm l' :=
    (List.perm_ext_iff_of_nodup (hl.imp fun h e => h.ne (congrArg _ e))
      (hl'.imp fun h e => h.ne (congrArg _ e))).mpr h
  exact hperm.eq_of_pairwise (fun a b _ _ hab hba => absurd (hab.trans hba) (lt_irrefl _)) hl hl'

/-- The place of a key. -/
def indexOf (m : SortedMap α β) (k : α) : Option ℕ := m.entries.findIdx? fun e => decide (e.1 = k)

theorem entries_erase_at (h : m.find? k = some v) :
    ∃ i, m.indexOf k = some i ∧ (m.erase k).entries = m.entries.eraseIdx i := by
  obtain ⟨es, hsorted⟩ := m
  show ∃ i, es.findIdx? (fun e => decide (e.1 = k)) = some i ∧
    es.filter (fun e => !decide (e.1 = k)) = es.eraseIdx i
  replace h : findEntry k es = some v := h
  induction es with
  | nil => cases h
  | cons e es ih =>
    obtain ⟨he, hsorted⟩ := List.pairwise_cons.mp hsorted
    by_cases hk : e.1 = k
    · refine ⟨0, by simp [List.findIdx?_cons, hk], ?_⟩
      rw [List.filter_cons_of_neg (by simp [hk]), List.eraseIdx_cons_zero, List.filter_eq_self]
      intro e' he'
      simpa [← hk] using (he e' he').ne'
    · unfold findEntry at h
      rw [if_neg hk] at h
      obtain ⟨i, hi, hfilter⟩ := ih hsorted h
      refine ⟨i + 1, by simp [List.findIdx?_cons, hk, hi], ?_⟩
      rw [List.filter_cons_of_pos (by simp [hk]), hfilter]
      rfl

theorem entries_insert_at (h : m.find? k = none) (v : β) :
    ∃ i, (m.insert k v).indexOf k = some i ∧
      (m.insert k v).entries = m.entries.insertIdx i (k, v) := by
  obtain ⟨es, hsorted⟩ := m
  show ∃ i, (insertEntry k v es).findIdx? (fun e => decide (e.1 = k)) = some i ∧
    insertEntry k v es = es.insertIdx i (k, v)
  replace h : findEntry k es = none := h
  induction es with
  | nil => exact ⟨0, by simp [insertEntry], rfl⟩
  | cons e es ih =>
    obtain ⟨he, hsorted⟩ := List.pairwise_cons.mp hsorted
    have hne : e.1 ≠ k := by
      rintro rfl
      unfold findEntry at h
      rw [if_pos rfl] at h
      cases h
    unfold findEntry at h
    rw [if_neg hne] at h
    unfold insertEntry
    split_ifs with hlt heq
    · exact ⟨0, by simp [List.findIdx?_cons], rfl⟩
    · exact absurd heq.symm hne
    · obtain ⟨i, hi, hinsert⟩ := ih hsorted h
      exact ⟨i + 1, by simp [List.findIdx?_cons, hne, hi], by rw [hinsert]; rfl⟩

/-- Two maps are related entry by entry if they are key by key. -/
theorem forall₂_entries {γ : Type*} {R : β → γ → Prop} {m' : SortedMap α γ}
    (h : ∀ k, Option.Rel R (m.find? k) (m'.find? k)) :
    List.Forall₂ (fun e e' => e.1 = e'.1 ∧ R e.2 e'.2) m.entries m'.entries := by
  have hkeys : m.keys = m'.keys := by
    refine eq_of_increasing (f := id) sorted_keys sorted_keys fun k => ?_
    rw [mem_keys, mem_keys]
    unfold contains
    have hk := h k
    generalize m.find? k = o at hk
    generalize m'.find? k = o' at hk
    cases hk <;> simp
  have hsame : List.Forall₂ (fun e e' => e.1 = e'.1) m.entries m'.entries := by
    have hequal : List.Forall₂ (· = ·) m.keys m'.keys := hkeys ▸ List.forall₂_same.mpr fun _ _ => rfl
    exact List.forall₂_map_right_iff.mp (List.forall₂_map_left_iff.mp hequal)
  rw [List.forall₂_iff_zip] at hsame ⊢
  refine ⟨hsame.1, fun {e e'} hmem => ⟨hsame.2 hmem, ?_⟩⟩
  have hk := h e.1
  rw [mem_entries.mp (List.of_mem_zip hmem).1, hsame.2 hmem,
    mem_entries.mp (List.of_mem_zip hmem).2] at hk
  cases hk with
  | some hR => exact hR

/-! ## Scans -/

theorem valuesFrom_eq_filter (m : SortedMap α β) (k : α) :
    m.valuesFrom k = m.entries.filter fun e => decide (k ≤ e.1) := by
  have key : ∀ es : List (α × β), es.Pairwise (fun a b => a.1 < b.1) →
      es.dropWhile (fun e => decide (e.1 < k)) = es.filter fun e => decide (k ≤ e.1) := by
    intro es
    induction es with
    | nil => exact fun _ => rfl
    | cons e es ih =>
      intro h
      obtain ⟨he, hes⟩ := List.pairwise_cons.mp h
      by_cases hk : e.1 < k
      · rw [List.dropWhile_cons_of_pos (by simpa using hk),
          List.filter_cons_of_neg (by simpa using hk), ih hes]
      · rw [List.dropWhile_cons_of_neg (by simpa using hk), eq_comm, List.filter_eq_self]
        intro e' he'
        rcases List.mem_cons.mp he' with rfl | he'
        · simpa using hk
        · simpa using (not_lt.mp hk).trans (he e' he').le
  exact key m.entries m.sorted

theorem takeWhile_eq_filter {γ : Type*} {r : γ → γ → Prop} {p : γ → Bool} {l : List γ}
    (hl : l.Pairwise r) (hp : ∀ a ∈ l, ∀ b ∈ l, r a b → p a = false → p b = false) :
    l.takeWhile p = l.filter p := by
  induction l with
  | nil => rfl
  | cons a l ih =>
    obtain ⟨ha, hl⟩ := List.pairwise_cons.mp hl
    have ih := ih hl fun a' ha' b hb =>
      hp a' (List.mem_cons_of_mem a ha') b (List.mem_cons_of_mem a hb)
    cases hpa : p a with
    | true => rw [List.takeWhile_cons_of_pos hpa, List.filter_cons_of_pos hpa, ih]
    | false =>
      rw [List.takeWhile_cons_of_neg (by simp [hpa]), eq_comm, List.filter_eq_nil_iff]
      intro b hb
      rcases List.mem_cons.mp hb with rfl | hb'
      · simp [hpa]
      · simp [hp a List.mem_cons_self b hb (ha b hb') hpa]

/-- A scan for a test that never passes again once it failed is a filter. -/
theorem scan_eq_filter {p : α → Bool}
    (hp : ∀ a b, k ≤ a → a < b → p a = false → p b = false) :
    m.scan k p = m.filter fun a => decide (k ≤ a) && p a := by
  unfold scan filter
  congr 1
  rw [valuesFrom_eq_filter, takeWhile_eq_filter (m.sorted.filter _), List.filter_filter]
  · congr 1
    funext e
    exact Bool.and_comm _ _
  · intro a ha b _ hab
    exact hp a.1 b.1 (by simpa using (List.mem_filter.mp ha).2) hab

end SortedMap

/-- A finite set as a sorted map to nothing. -/
abbrev SortedSet (α : Type u) [LinearOrder α] := SortedMap α Unit
