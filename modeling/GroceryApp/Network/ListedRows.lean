import GroceryApp.Data.SwiftString
import GroceryApp.Network.ApiCalls

/-!
# Listed rows and their documents

The id of a document is never stored in a row; the app computes it again from the name whenever it
deletes or rewrites the row. Whatever the names and the interleaving of calls, a listed name leads
back to its own document (`listed_rows_identify`), so that no two rows have one name. But the list
on screen tells its rows apart by the names as Swift compares them, and two spellings of one name
are two documents (`identities_not_distinct`). The rest of the module is what a write or a delete of
one document does to the list.
-/

namespace GroceryApp

open CloudFireStore Runs

namespace CloudFireStore

variable {db db' : Firestore} {g : GroceryVO}

/-- The name read from a listed document leads to that document. -/
theorem Written.name_leads_back (h : Written db) {snap : Firestore.QueryDocumentSnapshot}
    (hsnap : snap ∈ db.documents groceries) :
    ∃ name, (readDocument snap.2).name = some name ∧ groceries.document name = .ok snap.1 := by
  obtain ⟨ref, data⟩ := snap
  obtain ⟨g, rfl, hg⟩ := h ref data (Firestore.mem_documents.mp hsnap).1
  exact ⟨g.name.getD "", by rw [readDocument_groceryDictionary]; rfl, hg⟩

/-- Deleting a listed row removes its document and no other. -/
theorem Written.deleteGrocery_listed (h : Written db) {snap : Firestore.QueryDocumentSnapshot}
    (hsnap : snap ∈ db.documents groceries) :
    ∃ db', CloudFireStore.deleteGrocery db (readDocument snap.2) = .ok db' ∧
      ∀ other, other ∈ db'.documents groceries ↔
        other ∈ db.documents groceries ∧ other ≠ snap := by
  obtain ⟨name, hname, hdoc⟩ := h.name_leads_back hsnap
  obtain ⟨ref, data⟩ := snap
  refine ⟨db.delete ref, deleteGrocery_eq_ok_iff.mpr ⟨ref, by rw [hname]; exact hdoc, rfl⟩, ?_⟩
  rintro ⟨ref', data'⟩
  have hlookup := (Firestore.mem_documents.mp hsnap).1
  rw [Firestore.mem_documents, Firestore.mem_documents, Firestore.lookup_delete]
  by_cases he : ref' = ref
  · subst he
    rw [if_pos rfl]
    constructor
    · rintro ⟨h0, -⟩
      cases h0
    · rintro ⟨⟨h', -⟩, hne⟩
      exact absurd (by rw [Option.some.inj (h'.symm.trans hlookup)]) hne
  · rw [if_neg he]
    constructor
    · rintro ⟨h', hparent⟩
      exact ⟨⟨h', hparent⟩, fun heq => he (congrArg Sigma.fst heq)⟩
    · exact fun h' => h'.1

/-! ## The list after a write -/

/-- After a write at a document of the collection the written grocery is listed and the rows of
all other documents stay. -/
theorem mem_getAllGroceries_setData {id : String} {vo : GroceryVO} :
    vo ∈ getAllGroceries (db.setData (groceryRef id) (groceryDictionary g)) ↔
      vo = stored g ∨ ∃ id' data, id' ≠ id ∧ db.lookup (groceryRef id') = some data ∧
        readDocument data = vo := by
  rw [mem_getAllGroceries]
  constructor
  · rintro ⟨id', data, hlookup, rfl⟩
    rw [Firestore.lookup_setData] at hlookup
    split_ifs at hlookup with he
    · exact .inl (by rw [← Option.some.inj hlookup, readDocument_groceryDictionary])
    · exact .inr ⟨id', data, fun h => he (h ▸ rfl), hlookup, rfl⟩
  · rintro (rfl | ⟨id', data, hne, hlookup, rfl⟩)
    · exact ⟨id, _, Firestore.lookup_setData_self, readDocument_groceryDictionary g⟩
    · refine ⟨id', data, ?_, rfl⟩
      rw [Firestore.lookup_setData_of_ne fun h => hne (groceryRef_injective h)]
      exact hlookup

/-- A write outside the collection is not seen in the list. -/
theorem mem_getAllGroceries_setData_of_ne {ref : DocumentReference} {data : Document}
    (href : ∀ id, ref ≠ groceryRef id) {vo : GroceryVO} :
    vo ∈ getAllGroceries (db.setData ref data) ↔ vo ∈ getAllGroceries db := by
  rw [mem_getAllGroceries, mem_getAllGroceries]
  simp only [Firestore.lookup_setData_of_ne (href _).symm]

/-- The name of a listed row is one segment, the id of its document. -/
theorem Written.exists_id (h : Written db) {row : GroceryVO} {name : String}
    (hrow : row ∈ getAllGroceries db) (hname : row.name = some name) :
    ∃ id, groceries.document name = .ok (groceryRef id) := by
  obtain ⟨name', id, hname', hdoc⟩ := ApiState.named_of_listed h hrow
  obtain rfl := Option.some.inj (hname'.symm.trans hname)
  exact ⟨id, hdoc⟩

/-- In a written collection the rows under a listed name are that row alone. -/
theorem Written.filter_name (h : Written db) {row : GroceryVO} (hrow : row ∈ getAllGroceries db)
    (hname : row.name = some name) :
    (getAllGroceries db).filter (·.name = some name) = [row] := by
  rw [← List.perm_singleton, List.perm_ext_iff_of_nodup (h.nodup.filter _) (List.nodup_singleton _)]
  intro row'
  rw [List.mem_filter, List.mem_singleton, decide_eq_true_iff]
  constructor
  · rintro ⟨hrow', hname'⟩
    exact h.eq_of_name_eq hrow' hrow (hname'.trans hname.symm)
  · rintro rfl
    exact ⟨hrow, hname⟩

/-- A listed row is the one its document holds. -/
theorem Written.lookup_row (h : Written db) {id : String} {row : GroceryVO}
    (hrow : row ∈ getAllGroceries db)
    (hdoc : groceries.document (row.name.getD "") = .ok (groceryRef id)) :
    db.lookup (groceryRef id) = some (groceryDictionary row) := by
  obtain ⟨id', g, rfl, hlookup, hdoc'⟩ := h.mem_getAllGroceries.mp hrow
  obtain rfl := groceryRef_injective (document_unique hdoc' hdoc)
  exact hlookup

theorem Written.stored_row (h : Written db) {row : GroceryVO} (hrow : row ∈ getAllGroceries db) :
    stored row = row := by
  obtain ⟨id, g, rfl, -, -⟩ := h.mem_getAllGroceries.mp hrow
  rfl

/-- Listed rows whose names lead to one document are one row. -/
theorem Written.row_unique (h : Written db) {id : String} {row row' : GroceryVO}
    (hrow : row ∈ getAllGroceries db)
    (hdoc : groceries.document (row.name.getD "") = .ok (groceryRef id))
    (hrow' : row' ∈ getAllGroceries db)
    (hdoc' : groceries.document (row'.name.getD "") = .ok (groceryRef id)) : row = row' := by
  have hdata : groceryDictionary row = groceryDictionary row' :=
    Option.some.inj ((h.lookup_row hrow hdoc).symm.trans (h.lookup_row hrow' hdoc'))
  rw [← h.stored_row hrow, ← readDocument_groceryDictionary, hdata,
    readDocument_groceryDictionary, h.stored_row hrow']

/-- The rows after a write are the written one and those of other documents. -/
theorem Written.mem_setData (h : Written db) {id : String} {vo : GroceryVO} :
    vo ∈ getAllGroceries (db.setData (groceryRef id) (groceryDictionary g)) ↔
      vo = stored g ∨ vo ∈ getAllGroceries db ∧
        groceries.document (vo.name.getD "") ≠ .ok (groceryRef id) := by
  rw [mem_getAllGroceries_setData]
  refine or_congr_right ⟨?_, ?_⟩
  · rintro ⟨id', data, hne, hlookup, rfl⟩
    refine ⟨CloudFireStore.mem_getAllGroceries.mpr ⟨id', data, hlookup, rfl⟩, fun hdoc => hne ?_⟩
    obtain ⟨g', rfl, hdoc'⟩ := h _ _ hlookup
    exact groceryRef_injective (document_unique hdoc' hdoc)
  · rintro ⟨hvo, hne⟩
    obtain ⟨id', g', rfl, hlookup, hdoc⟩ := h.mem_getAllGroceries.mp hvo
    exact ⟨id', _, fun he => hne (he ▸ hdoc), hlookup, readDocument_groceryDictionary g'⟩

/-- A write at a free document adds its row to the list. -/
theorem Written.perm_setData_of_free (h : Written db) {id : String}
    (hdoc : groceries.document (g.name.getD "") = .ok (groceryRef id))
    (hfree : ∀ row ∈ getAllGroceries db,
      groceries.document (row.name.getD "") ≠ .ok (groceryRef id)) :
    (getAllGroceries (db.setData (groceryRef id) (groceryDictionary g))).Perm
      (stored g :: getAllGroceries db) := by
  have hnotMem : stored g ∉ getAllGroceries db := fun hmem => hfree _ hmem hdoc
  have hw := h.addGrocery (addGrocery_eq_ok_iff.mpr ⟨_, hdoc, rfl⟩)
  rw [List.perm_ext_iff_of_nodup hw.nodup (List.nodup_cons.mpr ⟨hnotMem, h.nodup⟩)]
  intro vo
  rw [h.mem_setData, List.mem_cons]
  exact or_congr_right (and_iff_left_of_imp (hfree vo))

/-- A write at the document of a row puts the written grocery in its place. -/
theorem Written.perm_setData_of_taken (h : Written db) {id : String} {row : GroceryVO}
    (hdoc : groceries.document (g.name.getD "") = .ok (groceryRef id))
    (hrow : row ∈ getAllGroceries db)
    (hrowdoc : groceries.document (row.name.getD "") = .ok (groceryRef id)) :
    (getAllGroceries (db.setData (groceryRef id) (groceryDictionary g))).Perm
      (stored g :: (getAllGroceries db).erase row) := by
  have hmem : ∀ vo, vo ∈ (getAllGroceries db).erase row ↔ vo ∈ getAllGroceries db ∧
      groceries.document (vo.name.getD "") ≠ .ok (groceryRef id) := by
    intro vo
    rw [h.nodup.mem_erase_iff, and_comm]
    refine and_congr_right fun hvo => not_congr ⟨?_, fun hvodoc => ?_⟩
    · rintro rfl
      exact hrowdoc
    · exact h.row_unique hvo hvodoc hrow hrowdoc
  have hnotMem : stored g ∉ (getAllGroceries db).erase row :=
    fun hg => ((hmem _).mp hg).2 hdoc
  have hw := h.addGrocery (addGrocery_eq_ok_iff.mpr ⟨_, hdoc, rfl⟩)
  rw [List.perm_ext_iff_of_nodup hw.nodup
    (List.nodup_cons.mpr ⟨hnotMem, h.nodup.sublist List.erase_sublist⟩)]
  intro vo
  rw [h.mem_setData, List.mem_cons, hmem]

/-- The identities of the rows in `ForEach(mGroceryViewModel.groceries, id: \.name)`. -/
def identities (data : UnicodeData) (db : Firestore) : List (Option (List Char)) :=
  (getAllGroceries db).map fun row => data.identity row.name

/-- The identities are distinct exactly if no two listed names are spellings of one another. -/
theorem Written.nodup_identities_iff (h : Written db) (data : UnicodeData) :
    (identities data db).Nodup ↔ ∀ row ∈ getAllGroceries db, ∀ row' ∈ getAllGroceries db,
      data.identity row.name = data.identity row'.name → row.name = row'.name := by
  unfold identities
  rw [List.nodup_map_iff_inj_on h.nodup]
  constructor
  · intro hinj row hrow row' hrow' hidentity
    rw [hinj row hrow row' hrow' hidentity]
  · intro hname row hrow row' hrow' hidentity
    exact h.eq_of_name_eq hrow hrow' (hname row hrow row' hrow' hidentity)

/-- Names in canonical form have distinct identities, ASCII names among them. -/
theorem Written.nodup_identities (h : Written db) {data : UnicodeData}
    (hnames : ∀ row ∈ getAllGroceries db, (∀ c ∈ (row.name.getD "").toList, c.toNat < 128) ∨
      data.IsCanonical (row.name.getD "")) : (identities data db).Nodup := by
  have hcanonical : ∀ row ∈ getAllGroceries db, ∃ name, row.name = some name ∧
      data.IsCanonical name := by
    intro row hrow
    obtain ⟨name, -, hname, -⟩ := ApiState.named_of_listed h hrow
    have hform := (hnames row hrow).elim UnicodeData.isCanonical_ascii id
    rw [hname] at hform
    exact ⟨name, hname, hform⟩
  refine (h.nodup_identities_iff data).mpr fun row hrow row' hrow' hidentity => ?_
  obtain ⟨name, hname, hform⟩ := hcanonical row hrow
  obtain ⟨name', hname', hform'⟩ := hcanonical row' hrow'
  rw [hname, hname'] at hidentity ⊢
  rw [hform.eq_of_canonicalForm_eq hform' (Option.some.inj hidentity)]

end CloudFireStore

/-- For every interleaving of calls with arbitrary names: every listed document has a name that
leads back to it, the listed names are distinct, and deleting a listed row does not trap, removes
its document and leaves the other rows as they are. Compared as Swift strings the names are distinct
exactly if no two of them are spellings of one another, so whenever they are in canonical form. -/
theorem listed_rows_identify (data : UnicodeData) (calls : List ApiCall) :
    let db := (run ApiState.step {} calls).db
    (∀ snap ∈ db.documents groceries, ∃ name,
      (readDocument snap.2).name = some name ∧ groceries.document name = .ok snap.1) ∧
    ((getAllGroceries db).map (·.name)).Nodup ∧
    ((identities data db).Nodup ↔ ∀ row ∈ getAllGroceries db, ∀ row' ∈ getAllGroceries db,
      data.identity row.name = data.identity row'.name → row.name = row'.name) ∧
    ((∀ row ∈ getAllGroceries db, (∀ c ∈ (row.name.getD "").toList, c.toNat < 128) ∨
      data.IsCanonical (row.name.getD "")) → (identities data db).Nodup) ∧
    ∀ snap ∈ db.documents groceries, ∃ db',
      deleteGrocery db (readDocument snap.2) = .ok db' ∧
      ∀ other, other ∈ db'.documents groceries ↔
        other ∈ db.documents groceries ∧ other ≠ snap := by
  have h : Written (run ApiState.step {} calls).db :=
    (ApiState.consistent_init.run calls).written
  exact ⟨fun _ => h.name_leads_back, h.nodup_names, h.nodup_identities_iff data,
    h.nodup_identities, fun _ => h.deleteGrocery_listed⟩

/-- A letter with an accent, as one character and as two. -/
def spellings : List ApiCall :=
  [.addGrocery { name := some (String.ofList [UnicodeData.eAcute]) },
    .addGrocery { name := some (String.ofList [Char.ofNat 0x65, UnicodeData.combiningAcute]) }]

/-- The two spellings are two rows with one identity. -/
theorem identities_not_distinct : ¬ ∀ (data : UnicodeData) (calls : List ApiCall),
    (identities data (run ApiState.step {} calls).db).Nodup := by
  intro h
  have hnodup := h UnicodeData.acuteE spellings
  revert hnodup
  decide

end GroceryApp
