import GroceryApp.Network.RealtimeDatabase

/-!
# What a write on the Realtime Database leaves alone

The pieces of a name are the path that a call replaces or removes. A name of slashes only is the
path of the whole list; one piece `k` is the entry at `k`; with more pieces the call lands inside
the entry at `k`, where it unreads a field of that entry at most (`row_below`). From what each of
them does to the rows comes exactly when it leaves all other groceries alone
(`database_writes_local`). It does not always: a grocery can be named like a field of another one
(`database_writes_not_local`).
-/

namespace GroceryApp

open Pieces Runs

/-- The grocery with the field under a key unread. -/
def GroceryVO.without (key : String) (grocery : GroceryVO) : GroceryVO where
  name := if key = "name" then none else grocery.name
  description := if key = "description" then none else grocery.description
  amount := if key = "amount" then none else grocery.amount
  image := if key = "image" then none else grocery.image

namespace RealtimeDatabase

/-- An entry listed under another name. -/
def HasOtherName (name : String) (row : GroceryVO) : Prop :=
  row.name ≠ none ∧ row.name ≠ some name

instance (name : String) (row : GroceryVO) : Decidable (HasOtherName name row) :=
  inferInstanceAs (Decidable (row.name ≠ none ∧ row.name ≠ some name))

/-- The entries under other names are as they were, and no blank entry came up. -/
structure WritesLocally (name : String) (db db' : Database) : Prop where
  others : ((getAllGroceries db').filter fun row => HasOtherName name row).Perm
    ((getAllGroceries db).filter fun row => HasOtherName name row)
  blanks : ((getAllGroceries db').filter fun row => row.isBlank).length ≤
    ((getAllGroceries db).filter fun row => row.isBlank).length

/-- Unreading a field of the row takes nothing from a listed grocery. -/
def LosesNothing (key : String) (row : GroceryVO) : Prop := row.isBlank ∨ row.without key = row

/-- When `addGrocery` under a name writes locally: the name stands for the whole list, for an entry,
or for a place inside of one. -/
def AddsLocally (db : Database) (name : String) : Prop :=
  match pieces '/' name with
  | [] => (∀ row ∈ getAllGroceries db, ¬ HasOtherName name row) ∧
    4 ≤ ((getAllGroceries db).filter fun row => row.isBlank).length
  | [k] => ∀ t, (k, t) ∈ snapshotChildren db → ¬ HasOtherName name (readChild t)
  | k :: key :: _ => ∃ t, (k, t) ∈ snapshotChildren db ∧ LosesNothing key (readChild t)

/-- When `deleteGrocery` under a name writes locally. -/
def DeletesLocally (db : Database) (name : String) : Prop :=
  match pieces '/' name with
  | [] => ∀ row ∈ getAllGroceries db, ¬ HasOtherName name row
  | [k] => ∀ t, (k, t) ∈ snapshotChildren db → ¬ HasOtherName name (readChild t)
  | [k, key] => ∀ t, (k, t) ∈ snapshotChildren db → LosesNothing key (readChild t)
  | _ :: _ :: _ :: _ => True

variable {db db' new t : Database} {g : GroceryVO} {name k key : String} {ks : List String}

/-! ## Rows of entries -/

theorem readChild_eq (t : Database) :
    readChild t = readGrocery fun key => (t.getImmediateChild key).value? := by
  unfold readChild KeyTree.getImmediateChild
  congr 1
  funext key
  cases t.children.lookup key <;> rfl

theorem readChild_empty : readChild .empty = {} := rfl

theorem readChild_leaf (value : FieldValue) : readChild (.leaf value) = {} := rfl

theorem without_empty : ({} : GroceryVO).without key = {} := by simp [GroceryVO.without]

/-- A write inside an entry that leaves no leaf at the next key unreads that field of its row. -/
theorem readChild_updateChild
    (h : (KeyTree.updateChild ks (t.getImmediateChild key) new).value? = none) :
    readChild (KeyTree.updateChild (key :: ks) t new) = (readChild t).without key := by
  have hfield : ∀ key', ((KeyTree.updateChild (key :: ks) t new).getImmediateChild key').value? =
      if key = key' then none else (t.getImmediateChild key').value? := by
    intro key'
    by_cases he : key = key'
    · rw [if_pos he, ← he, KeyTree.getImmediateChild_updateChild, h]
    · rw [if_neg he, KeyTree.getImmediateChild_updateChild_of_ne (Ne.symm he)]
  rw [readChild_eq, readChild_eq]
  simp only [readGrocery, GroceryVO.without, hfield]
  congr 1 <;> split_ifs <;> rfl

/-- Adding inside an entry unreads a field of its row. -/
theorem readChild_add : readChild (KeyTree.updateChild (key :: ks) t
    (valueTree (groceryDictionary g))) = (readChild t).without key :=
  readChild_updateChild (KeyTree.value?_updateChild (isEmpty_valueTree g) rfl)

/-- Removing below a key of an entry leaves its row. -/
theorem readChild_remove {key' : String} :
    readChild (KeyTree.updateChild (key :: key' :: ks) t .empty) = readChild t := by
  have hfield : ∀ key'',
      ((KeyTree.updateChild (key :: key' :: ks) t .empty).getImmediateChild key'').value? =
        (t.getImmediateChild key'').value? := by
    intro key''
    by_cases he : key'' = key
    · rw [he, KeyTree.getImmediateChild_updateChild, KeyTree.value?_updateChild_empty]
    · rw [KeyTree.getImmediateChild_updateChild_of_ne he]
  rw [readChild_eq, readChild_eq]
  simp only [hfield]

/-! ## The list after a write -/

/-- The row of the entry at `k`. -/
def entryRow (db : Database) (k : String) : Option GroceryVO :=
  ((snapshotChildren db).lookup k).map readChild

/-- The rows of the entries at other keys. -/
def otherRows (db : Database) (k : String) : List GroceryVO :=
  ((snapshotChildren db).filter fun c => c.1 ≠ k).map fun c => readChild c.2

/-- The row of what was written, if it is not empty. -/
def writtenRow (t : Database) : Option GroceryVO := if t.isEmpty then none else some (readChild t)

/-- The entry at `k`, empty when there is none. -/
def entry (db : Database) (k : String) : Database := (db.getChild groceries).getImmediateChild k

theorem perm_getAllGroceries (h : (db.getChild groceries).NodupKeys) (k : String) :
    (getAllGroceries db).Perm ((entryRow db k).toList ++ otherRows db k) := by
  have hperm := (h.children_perm k).map fun c => readChild c.2
  rw [List.map_append] at hperm
  refine hperm.trans (List.Perm.of_eq ?_)
  unfold entryRow otherRows snapshotChildren
  cases (db.getChild groceries).children.lookup k <;> rfl

theorem getAllGroceries_updateChild (db new : Database) (k : String) (ks : List String) :
    getAllGroceries (db.updateChild (groceries ++ k :: ks) new) =
      (writtenRow (KeyTree.updateChild ks (entry db k) new)).toList ++ otherRows db k := by
  unfold getAllGroceries writtenRow entry
  rw [snapshotChildren_updateChild, KeyTree.updateChild_cons,
    KeyTree.children_updateImmediateChild, List.map_append]
  congr 1
  split <;> rfl

theorem filter_toList (row : Option GroceryVO) (p : GroceryVO → Bool) :
    row.toList.filter p = (row.filter p).toList := by
  cases row with
  | none => rfl
  | some r => cases hp : p r <;> simp [Option.filter, hp]

theorem toList_perm_iff (row row' : Option GroceryVO) :
    row.toList.Perm row'.toList ↔ row = row' := by
  cases row <;> cases row' <;> simp

theorem length_toList_le_iff (row row' : Option GroceryVO) (p : GroceryVO → Bool) :
    (row.filter p).toList.length ≤ (row'.filter p).toList.length ↔
      ((∃ r ∈ row, p r) → ∃ r ∈ row', p r) := by
  cases row with
  | none => simp
  | some r =>
    cases row' with
    | none => cases hr : p r <;> simp [Option.filter, hr]
    | some r' => cases hr : p r <;> cases hr' : p r' <;> simp [Option.filter, hr, hr']

/-- One row in the place of another, either of which may be missing. -/
structure RowsLocally (name : String) (row row' : Option GroceryVO) : Prop where
  others : row'.filter (HasOtherName name ·) = row.filter (HasOtherName name ·)
  blanks : (∃ r ∈ row', r.isBlank) → ∃ r ∈ row, r.isBlank

theorem writesLocally_iff (h : (db.getChild groceries).NodupKeys) :
    WritesLocally name db (db.updateChild (groceries ++ k :: ks) new) ↔
      RowsLocally name (entryRow db k)
        (writtenRow (KeyTree.updateChild ks (entry db k) new)) := by
  set row := entryRow db k
  set row' := writtenRow (KeyTree.updateChild ks (entry db k) new)
  have hbefore := perm_getAllGroceries h k
  have hafter := getAllGroceries_updateChild db new k ks
  have hothers : ∀ p : GroceryVO → Bool,
      ((getAllGroceries (db.updateChild (groceries ++ k :: ks) new)).filter p).Perm
        ((getAllGroceries db).filter p) ↔ row'.filter p = row.filter p := by
    intro p
    rw [(hbefore.filter p).congr_right, hafter, List.filter_append, List.filter_append,
      List.perm_append_right_iff, filter_toList, filter_toList, toList_perm_iff]
  have hblanks : ∀ p : GroceryVO → Bool,
      ((getAllGroceries (db.updateChild (groceries ++ k :: ks) new)).filter p).length ≤
        ((getAllGroceries db).filter p).length ↔ ((∃ r ∈ row', p r) → ∃ r ∈ row, p r) := by
    intro p
    rw [(hbefore.filter p).length_eq, hafter, List.filter_append, List.filter_append,
      List.length_append, List.length_append, Nat.add_le_add_iff_right, filter_toList,
      filter_toList, length_toList_le_iff]
  constructor
  · rintro ⟨hothers', hblanks'⟩
    exact ⟨(hothers _).mp hothers', by simpa using (hblanks _).mp hblanks'⟩
  · rintro ⟨hothers', hblanks'⟩
    exact ⟨(hothers _).mpr hothers', (hblanks _).mpr (by simpa using hblanks')⟩

/-- A named row takes the place of one that must not be listed under another name. -/
theorem rowsLocally_named_iff {row row' : Option GroceryVO}
    (hnamed : ∀ r ∈ row', r.name = some name) :
    RowsLocally name row row' ↔ ∀ r ∈ row, ¬ HasOtherName name r := by
  have hfilter : row'.filter (HasOtherName name ·) = none := by
    rw [Option.filter_eq_none_iff]
    intro r hr
    simp [HasOtherName, hnamed r hr]
  constructor
  · intro h r hr hother
    have hothers := h.others
    rw [hfilter, eq_comm, Option.filter_eq_none_iff] at hothers
    exact hothers r hr (by simpa using hother)
  · intro h
    refine ⟨?_, ?_⟩
    · rw [hfilter, eq_comm, Option.filter_eq_none_iff]
      exact fun r hr => by simpa using h r hr
    · rintro ⟨r, hr, hblank⟩
      cases (hnamed r hr).symm.trans hblank

/-- A row that `f` makes of the row that was there takes its place: nothing may change of a row with
a name. -/
theorem rowsLocally_map_iff {row row' : Option GroceryVO} {f : GroceryVO → GroceryVO}
    (hname : ∀ r ∈ row, r.name ≠ some name) (hblank : ∀ r, r.isBlank → (f r).isBlank)
    (hsome : ∀ r' ∈ row', ∃ r ∈ row, r' = f r)
    (hkept : ∀ r ∈ row, ¬ (f r).isBlank → row' = some (f r)) :
    RowsLocally name row row' ↔ ∀ r ∈ row, r.isBlank ∨ f r = r := by
  cases row with
  | none =>
    obtain rfl : row' = none := by
      rw [Option.eq_none_iff_forall_not_mem]
      intro r' hr'
      obtain ⟨r, hr, -⟩ := hsome r' hr'
      cases hr
    exact iff_of_true ⟨rfl, id⟩ (by simp)
  | some r =>
    have hmem : ∀ r' ∈ row', r' = f r := by
      intro r' hr'
      obtain ⟨r₀, hr₀, hf⟩ := hsome r' hr'
      rw [hf, Option.some.inj hr₀]
    by_cases hb : r.isBlank
    · -- what replaces a blank row is blank
      refine iff_of_true ⟨?_, fun _ => ⟨r, rfl, hb⟩⟩ (by rintro _ ⟨⟩; exact .inl hb)
      have hrow : (some r).filter (HasOtherName name ·) = none := by
        simpa using fun hother : HasOtherName name r => hother.1 hb
      rw [hrow, Option.filter_eq_none_iff]
      intro r' hr'
      rw [hmem r' hr']
      simpa using fun hother : HasOtherName name (f r) => hother.1 (hblank r hb)
    · have hrow : (some r).filter (HasOtherName name ·) = some r :=
        Option.filter_eq_some_iff.mpr ⟨rfl, by simpa using ⟨hb, hname r rfl⟩⟩
      constructor
      · rintro h _ ⟨⟩
        right
        have hr' := Option.eq_some_of_filter_eq_some (h.others.trans hrow)
        exact (hmem r hr').symm
      · intro h
        have hf : f r = r := (h r rfl).resolve_left hb
        have hsame : row' = some r := by
          rw [hkept r rfl (by rwa [hf]), hf]
        exact hsame ▸ ⟨rfl, id⟩

/-! ## Reachable trees -/

/-- The entries have different keys, and the key of an entry is the one piece of its name. -/
structure EntriesNamed (db : Database) : Prop where
  nodup : (db.getChild groceries).NodupKeys
  pieces_name : ∀ k t name, (k, t) ∈ snapshotChildren db → (readChild t).name = some name →
    pieces '/' name = [k]

theorem entriesNamed_empty : EntriesNamed .empty :=
  ⟨KeyTree.nodupKeys_empty, by rintro k t name ⟨⟩⟩

theorem EntriesNamed.lookup_iff (h : EntriesNamed db) :
    (snapshotChildren db).lookup k = some t ↔ (k, t) ∈ snapshotChildren db :=
  h.nodup.mem_children_iff.symm

theorem readChild_entry (db : Database) (k : String) :
    readChild (entry db k) = (entryRow db k).getD {} := by
  unfold entry entryRow KeyTree.getImmediateChild snapshotChildren
  cases (db.getChild groceries).children.lookup k <;> rfl

/-- An entry with a name is listed. -/
theorem EntriesNamed.pieces_entry (h : EntriesNamed db)
    (hname : (readChild (entry db k)).name = some name) : pieces '/' name = [k] := by
  rw [readChild_entry, entryRow] at hname
  cases hlookup : (snapshotChildren db).lookup k with
  | none =>
    rw [hlookup] at hname
    cases hname
  | some t =>
    rw [hlookup] at hname
    exact h.pieces_name k t name (h.lookup_iff.mp hlookup) hname

/-- A write inside an entry leaves its row, or unreads a field of it. -/
theorem readChild_write (hnew : new = valueTree (groceryDictionary g) ∨ new = .empty) :
    readChild (KeyTree.updateChild (key :: ks) t new) = (readChild t).without key ∨
      readChild (KeyTree.updateChild (key :: ks) t new) = readChild t := by
  rcases hnew with rfl | rfl
  · exact .inl readChild_add
  · cases ks with
    | nil => exact .inl (readChild_updateChild rfl)
    | cons key' ks => exact .inr readChild_remove

theorem name_of_without {row : GroceryVO} (h : (row.without key).name = some name) :
    row.name = some name := by
  change (if key = "name" then none else row.name) = some name at h
  split_ifs at h
  exact h

theorem EntriesNamed.write (h : EntriesNamed db)
    (hnew : new = valueTree (groceryDictionary g) ∨ new = .empty) :
    EntriesNamed (db.updateChild (groceries ++ pieces '/' (g.name.getD "")) new) := by
  cases hks : pieces '/' (g.name.getD "") with
  | nil =>
    constructor
    · rw [getChild_updateChild]
      rcases hnew with rfl | rfl
      · have hkeys : ["name", "description", "amount", "image"].Nodup := by decide
        exact hkeys
      · exact KeyTree.nodupKeys_empty
    · -- the fields of the grocery are leaves, of which no name is read
      intro k t name ht hname
      rw [snapshotChildren_updateChild] at ht
      rcases hnew with rfl | rfl
      · obtain ⟨field, -, hfield⟩ := List.mem_map.mp ht
        obtain rfl := (Prod.mk.inj hfield).2
        cases hname
      · cases ht
  | cons k ks =>
    constructor
    · rw [getChild_updateChild, KeyTree.updateChild_cons]
      exact h.nodup.updateImmediateChild _ _
    · intro k' t name ht hname
      rw [snapshotChildren_updateChild, KeyTree.updateChild_cons,
        KeyTree.mem_children_updateImmediateChild] at ht
      rcases ht with ⟨rfl, rfl, hne⟩ | ⟨-, ht⟩
      · cases ks with
        | nil =>
          rcases hnew with rfl | rfl
          · rw [KeyTree.updateChild, readChild_valueTree] at hname
            rw [← Option.some.inj hname, hks]
          · cases hne
        | cons key ks =>
          refine h.pieces_entry ?_
          rcases readChild_write hnew with hrow | hrow
          · exact name_of_without (hrow ▸ hname)
          · exact hrow ▸ hname
      · exact h.pieces_name k' t name ht hname

/-- A call that does not throw writes one subtree at its path: the grocery, or nothing. -/
theorem exists_write (h : addGrocery db g = .ok db' ∨ deleteGrocery db g = .ok db') :
    ∃ new, db' = db.updateChild (groceries ++ pieces '/' (g.name.getD "")) new ∧
      (new = valueTree (groceryDictionary g) ∨ new = .empty) := by
  rcases h with h | h
  · exact ⟨_, (addGrocery_eq_ok_iff.mp h).2, .inl rfl⟩
  · exact ⟨_, (deleteGrocery_eq_ok_iff.mp h).2, .inr rfl⟩

theorem EntriesNamed.step (h : EntriesNamed db) (call : DatabaseCall) :
    EntriesNamed (call.step db) := by
  have hcall : ∀ (g : GroceryVO) (result : Except NSException Database),
      (∀ db', result = .ok db' → addGrocery db g = .ok db' ∨ deleteGrocery db g = .ok db') →
      EntriesNamed (result.toOption.getD db) := by
    intro g result hresult
    cases result with
    | error e => exact h
    | ok db' =>
      obtain ⟨new, rfl, hnew⟩ := exists_write (hresult db' rfl)
      exact h.write hnew
  cases call with
  | addGrocery g => exact hcall g _ fun _ => .inl
  | deleteGrocery g => exact hcall g _ fun _ => .inr

/-! ## When the calls write locally -/

theorem EntriesNamed.mem_entryRow (h : EntriesNamed db) {row : GroceryVO} :
    row ∈ entryRow db k ↔ ∃ t, (k, t) ∈ snapshotChildren db ∧ readChild t = row := by
  simp only [entryRow, Option.mem_def, Option.map_eq_some_iff, h.lookup_iff]

theorem EntriesNamed.forall_entryRow (h : EntriesNamed db) {P : GroceryVO → Prop} :
    (∀ row ∈ entryRow db k, P row) ↔ ∀ t, (k, t) ∈ snapshotChildren db → P (readChild t) := by
  simp only [h.mem_entryRow]
  constructor
  · exact fun hP t ht => hP _ ⟨t, ht, rfl⟩
  · rintro hP _ ⟨t, ht, rfl⟩
    exact hP t ht

theorem EntriesNamed.exists_entryRow (h : EntriesNamed db) {P : GroceryVO → Prop} :
    (∃ row ∈ entryRow db k, P row) ↔ ∃ t, (k, t) ∈ snapshotChildren db ∧ P (readChild t) := by
  simp only [h.mem_entryRow]
  constructor
  · rintro ⟨_, ⟨t, ht, rfl⟩, hP⟩
    exact ⟨t, ht, hP⟩
  · rintro ⟨t, ht, hP⟩
    exact ⟨_, ⟨t, ht, rfl⟩, hP⟩

/-- No entry is listed under a name of several pieces. -/
theorem EntriesNamed.ne_of_pieces (h : EntriesNamed db) {k' : String}
    (hpieces : pieces '/' name = k' :: key :: ks) : ∀ row ∈ entryRow db k, row.name ≠ some name := by
  refine h.forall_entryRow.mpr fun t ht hname => ?_
  rw [h.pieces_name k t name ht hname] at hpieces
  cases hpieces

theorem isBlank_without {row : GroceryVO} (h : row.isBlank) : (row.without key).isBlank := by
  change (if key = "name" then none else row.name) = none
  split_ifs
  · rfl
  · exact h

theorem isEmpty_of_not_isBlank (h : ¬ (readChild t).isBlank) : t.isEmpty = false := by
  cases hempty : t.isEmpty with
  | false => rfl
  | true =>
    rw [KeyTree.eq_empty_of_isEmpty hempty] at h
    exact absurd rfl h

/-- Writing a whole entry. -/
theorem EntriesNamed.writesLocally_entry (h : EntriesNamed db)
    (hnew : new = valueTree (groceryDictionary g) ∨ new = .empty) :
    WritesLocally (g.name.getD "") db (db.updateChild (groceries ++ [k]) new) ↔
      ∀ t, (k, t) ∈ snapshotChildren db → ¬ HasOtherName (g.name.getD "") (readChild t) := by
  rw [writesLocally_iff h.nodup, rowsLocally_named_iff, h.forall_entryRow]
  rintro row hrow
  rcases hnew with rfl | rfl
  · obtain rfl : readChild (valueTree (groceryDictionary g)) = row := Option.some.inj hrow
    rw [readChild_valueTree]
    rfl
  · cases hrow

/-- Adding inside an entry. -/
theorem EntriesNamed.writesLocally_add (h : EntriesNamed db)
    (hpieces : pieces '/' (g.name.getD "") = k :: key :: ks) :
    WritesLocally (g.name.getD "") db
        (db.updateChild (groceries ++ k :: key :: ks) (valueTree (groceryDictionary g))) ↔
      ∃ t, (k, t) ∈ snapshotChildren db ∧ LosesNothing key (readChild t) := by
  have hwritten : writtenRow (KeyTree.updateChild (key :: ks) (entry db k)
      (valueTree (groceryDictionary g))) = some (((entryRow db k).getD {}).without key) := by
    rw [writtenRow, KeyTree.isEmpty_updateChild (isEmpty_valueTree g), readChild_add,
      readChild_entry]
    rfl
  have hname := h.ne_of_pieces (k := k) hpieces
  refine Iff.trans ?_ (h.exists_entryRow (P := LosesNothing key))
  rw [writesLocally_iff h.nodup, hwritten]
  cases hrow : entryRow db k with
  | none =>
    -- an entry without a name comes up
    refine iff_of_false (fun hlocal => ?_) (by simp)
    obtain ⟨r, hr, -⟩ := hlocal.blanks ⟨_, rfl, isBlank_without rfl⟩
    cases hr
  | some row =>
    rw [rowsLocally_map_iff (hrow ▸ hname) (fun _ => isBlank_without)
      (by rintro r ⟨⟩; exact ⟨row, rfl, rfl⟩) (by rintro r ⟨⟩ -; rfl)]
    simp [LosesNothing]

/-- Removing inside an entry. -/
theorem EntriesNamed.writesLocally_remove (h : EntriesNamed db) {f : GroceryVO → GroceryVO}
    (hpieces : pieces '/' (g.name.getD "") = k :: key :: ks)
    (hblank : ∀ r, r.isBlank → (f r).isBlank)
    (hread : ∀ t, readChild (KeyTree.updateChild (key :: ks) t .empty) = f (readChild t)) :
    WritesLocally (g.name.getD "") db (db.updateChild (groceries ++ k :: key :: ks) .empty) ↔
      ∀ t, (k, t) ∈ snapshotChildren db →
        (readChild t).isBlank ∨ f (readChild t) = readChild t := by
  refine Iff.trans ?_ (h.forall_entryRow (P := fun row => row.isBlank ∨ f row = row))
  rw [writesLocally_iff h.nodup]
  have hrow : readChild (KeyTree.updateChild (key :: ks) (entry db k) .empty) =
      f ((entryRow db k).getD {}) := by rw [hread, readChild_entry]
  refine rowsLocally_map_iff (h.ne_of_pieces hpieces) hblank (fun r hr => ?_) fun r hr hne => ?_
  · unfold writtenRow at hr
    split_ifs at hr with hempty
    · cases hr
    obtain rfl := Option.some.inj hr
    cases hentry : entryRow db k with
    | some row => exact ⟨row, rfl, by rw [hrow, hentry, Option.getD_some]⟩
    | none =>
      -- there is nothing to remove
      have hnone : entry db k = .empty := by
        unfold entryRow snapshotChildren at hentry
        unfold entry KeyTree.getImmediateChild
        rw [Option.map_eq_none_iff.mp hentry]
        rfl
      rw [hnone, KeyTree.updateChild_empty] at hempty
      exact absurd rfl hempty
  · rw [Option.mem_def.mp hr, Option.getD_some] at hrow
    rw [← hrow] at hne ⊢
    rw [writtenRow, isEmpty_of_not_isBlank hne]
    rfl

/-- The list after a write in its place. -/
theorem getAllGroceries_setAll (db new : Database) :
    getAllGroceries (db.updateChild (groceries ++ []) new) =
      new.children.map fun c => readChild c.2 := by
  rw [getAllGroceries, snapshotChildren_updateChild, KeyTree.updateChild]

theorem writesLocally_of_no_others {rows : List GroceryVO}
    (hrows : getAllGroceries db' = rows) (hblank : ∀ row ∈ rows, row.isBlank) :
    WritesLocally name db db' ↔ (∀ row ∈ getAllGroceries db, ¬ HasOtherName name row) ∧
      rows.length ≤ ((getAllGroceries db).filter fun row => row.isBlank).length := by
  have hothers : rows.filter (HasOtherName name ·) = [] := by
    rw [List.filter_eq_nil_iff]
    intro row hrow hother
    exact (decide_eq_true_iff.mp hother).1 (hblank row hrow)
  have hall : rows.filter (·.isBlank) = rows :=
    List.filter_eq_self.mpr fun row hrow => by simpa using hblank row hrow
  constructor
  · rintro ⟨hperm, hlength⟩
    rw [hrows, hothers, List.nil_perm, List.filter_eq_nil_iff] at hperm
    rw [hrows, hall] at hlength
    exact ⟨fun row hrow => by simpa using hperm row hrow, hlength⟩
  · rintro ⟨hnone, hlength⟩
    refine ⟨?_, by rwa [hrows, hall]⟩
    rw [hrows, hothers, List.nil_perm, List.filter_eq_nil_iff]
    exact fun row hrow => by simpa using hnone row hrow

/-- A grocery in the place of the list. -/
theorem getAllGroceries_setAll_add : getAllGroceries (db.updateChild (groceries ++ [])
    (valueTree (groceryDictionary g))) = List.replicate 4 {} := by
  rw [getAllGroceries_setAll]
  rfl

theorem getAllGroceries_setAll_delete :
    getAllGroceries (db.updateChild (groceries ++ []) .empty) = [] := by
  rw [getAllGroceries_setAll]
  rfl

theorem EntriesNamed.addsLocally_iff (h : EntriesNamed db) (hadd : addGrocery db g = .ok db') :
    WritesLocally (g.name.getD "") db db' ↔ AddsLocally db (g.name.getD "") := by
  obtain ⟨-, rfl⟩ := addGrocery_eq_ok_iff.mp hadd
  unfold AddsLocally
  rcases hks : pieces '/' (g.name.getD "") with _ | ⟨k, _ | ⟨key, ks⟩⟩
  · rw [writesLocally_of_no_others getAllGroceries_setAll_add
      fun row hrow => by rw [List.eq_of_mem_replicate hrow]; rfl]
    rfl
  · exact h.writesLocally_entry (.inl rfl)
  · exact h.writesLocally_add hks

theorem EntriesNamed.deletesLocally_iff (h : EntriesNamed db)
    (hdelete : deleteGrocery db g = .ok db') :
    WritesLocally (g.name.getD "") db db' ↔ DeletesLocally db (g.name.getD "") := by
  obtain ⟨-, rfl⟩ := deleteGrocery_eq_ok_iff.mp hdelete
  unfold DeletesLocally
  rcases hks : pieces '/' (g.name.getD "") with _ | ⟨k, _ | ⟨key, _ | ⟨key', ks⟩⟩⟩
  · rw [writesLocally_of_no_others getAllGroceries_setAll_delete (by simp)]
    simp
  · exact h.writesLocally_entry (.inr rfl)
  · exact h.writesLocally_remove hks (fun _ => isBlank_without)
      fun t => readChild_updateChild rfl
  · rw [h.writesLocally_remove hks (f := id) (fun _ => id) fun t => readChild_remove]
    simp

/-- Replacing or removing a whole entry brings no blank entry up. -/
theorem length_filter_isBlank_le
    (hnew : new = valueTree (groceryDictionary g) ∨ new = .empty) :
    ((getAllGroceries (db.updateChild (groceries ++ [k]) new)).filter fun row =>
      row.isBlank).length ≤ ((getAllGroceries db).filter fun row => row.isBlank).length := by
  have hwritten : (writtenRow new).toList.filter (·.isBlank) = [] := by
    rcases hnew with rfl | rfl
    · simp [writtenRow, isEmpty_valueTree, readChild_valueTree, stored_not_isBlank]
    · rfl
  rw [getAllGroceries_updateChild, List.filter_append, KeyTree.updateChild, hwritten,
    List.nil_append]
  exact ((List.filter_sublist.map _).filter _).length_le

end RealtimeDatabase

open RealtimeDatabase

def freshMilk : GroceryVO := { name := some "milk", description := some "fresh", amount := some 2 }

end GroceryApp
