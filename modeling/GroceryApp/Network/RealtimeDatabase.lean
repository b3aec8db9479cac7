import GroceryApp.Data.GroceryVO
import GroceryApp.Lib.Pieces
import GroceryApp.Lib.Runs
import GroceryApp.Lib.KeyTree

/-!
# `FirebaseRealtimeDatabaseApiImpl`

The back end on the Realtime Database, a tree with one child of `groceries` for each entry. The
name of a grocery is a path from there: its non-empty pieces lead to the subtree that a call
replaces or removes. So a call changes nothing outside the entry of the first piece
(`database_writes_local`), but a name of several pieces writes inside that entry, and a name of
slashes only replaces all entries. The order in which the children are listed is not modelled.
-/

namespace GroceryApp

open Pieces Runs

structure NSException where
  name : String
  reason : String
  deriving DecidableEq, Repr

/-- `isValidPathString:` of `FValidation`. -/
def isValidPathString (pathString : String) : Bool :=
  pathString ≠ "" && pathString.toList.all fun c => c ∉ ['[', ']', '.', '#', '$']

def invalidPathValidation (fn : String) : NSException where
  name := "InvalidPathValidation"
  reason := "(" ++ fn ++ ") Must be a non-empty string and not contain '.' '#' '$' '[' or ']'"

/-- `child:` of a reference below the root. -/
def child (path : List String) (pathString : String) : Except NSException (List String) :=
  if isValidPathString pathString then .ok (path ++ pieces '/' pathString)
  else .error (invalidPathValidation "child:")

abbrev Database := KeyTree String FieldValue

namespace RealtimeDatabase

/-- `ref.child("groceries")`. -/
def groceries : List String := ["groceries"]

/-- The subtree that `setValue` makes of a dictionary. -/
def valueTree (dictionary : List (String × FieldValue)) : Database :=
  .node (dictionary.map fun field => (field.1, .leaf field.2))

def addGrocery (db : Database) (grocery : GroceryVO) : Except NSException Database := do
  let path ← child groceries (grocery.name.getD "")
  return db.updateChild path (valueTree (groceryDictionary grocery))

def deleteGrocery (db : Database) (grocery : GroceryVO) : Except NSException Database := do
  let path ← child groceries (grocery.name.getD "")
  return db.updateChild path .empty

def onDownloadURL : Database → GroceryVO → Option String →
    GroceryVO × Except NSException Database := completeUpload addGrocery

/-- The children of the snapshot, under their keys. -/
def snapshotChildren (db : Database) : List (String × Database) := (db.getChild groceries).children

/-- The grocery read from a child: a leaf has no dictionary, and a nested subtree is no string. -/
def readChild (singleSnapShot : Database) : GroceryVO :=
  readGrocery fun key => (singleSnapShot.children.lookup key).bind KeyTree.value?

/-- The list handed to `success` when the database is `db`. -/
def getAllGroceries (db : Database) : List GroceryVO :=
  (snapshotChildren db).map fun singleSnapShot => readChild singleSnapShot.2

variable {db db' : Database} {g : GroceryVO}

theorem addGrocery_eq_ok_iff : addGrocery db g = .ok db' ↔
    isValidPathString (g.name.getD "") = true ∧
      db' = db.updateChild (groceries ++ pieces '/' (g.name.getD ""))
        (valueTree (groceryDictionary g)) := by
  unfold addGrocery child
  split_ifs with h <;> simp [h, bind, Except.bind, pure, Except.pure, eq_comm]

theorem deleteGrocery_eq_ok_iff : deleteGrocery db g = .ok db' ↔
    isValidPathString (g.name.getD "") = true ∧
      db' = db.updateChild (groceries ++ pieces '/' (g.name.getD "")) .empty := by
  unfold deleteGrocery child
  split_ifs with h <;> simp [h, bind, Except.bind, pure, Except.pure, eq_comm]

/-- A write below `groceries` acts on the entries as on a tree of their own. -/
theorem getChild_updateChild (db : Database) (ks : List String) (new : Database) :
    (db.updateChild (groceries ++ ks) new).getChild groceries =
      (db.getChild groceries).updateChild ks new := by
  unfold groceries
  rw [List.singleton_append, KeyTree.getChild, KeyTree.getChild,
    KeyTree.getImmediateChild_updateChild]
  rfl

theorem snapshotChildren_updateChild (db : Database) (ks : List String) (new : Database) :
    snapshotChildren (db.updateChild (groceries ++ ks) new) =
      ((db.getChild groceries).updateChild ks new).children := by
  rw [snapshotChildren, getChild_updateChild]

theorem readChild_valueTree (g : GroceryVO) :
    readChild (valueTree (groceryDictionary g)) = stored g := by
  rw [← readGrocery_groceryDictionary]
  unfold readChild
  congr 1
  funext key
  rw [valueTree, KeyTree.children_node]
  induction groceryDictionary g with
  | nil => rfl
  | cons field fields ih =>
    rw [List.map_cons, List.lookup_cons, List.lookup_cons]
    split
    · rfl
    · exact ih

theorem isEmpty_valueTree (g : GroceryVO) : (valueTree (groceryDictionary g)).isEmpty = false := rfl

end RealtimeDatabase

/-- The calls that write. -/
inductive DatabaseCall where
  | addGrocery (grocery : GroceryVO)
  | deleteGrocery (grocery : GroceryVO)

/-- A call that throws changes nothing. -/
def DatabaseCall.step (db : Database) : DatabaseCall → Database
  | .addGrocery grocery => ((RealtimeDatabase.addGrocery db grocery).toOption).getD db
  | .deleteGrocery grocery => ((RealtimeDatabase.deleteGrocery db grocery).toOption).getD db

end GroceryApp
