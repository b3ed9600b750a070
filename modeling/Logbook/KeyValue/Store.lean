import Logbook.Bytes
import Logbook.Lsn
import Std.Data.TreeMap

/-!
# A key-value store with versions

The store maps keys, each inside a scope, to values. Every write happens as of a
sequence number, and a write never undoes a newer one, so writes may be applied
in any order that respects the keys. The store remembers the last write of every
key and the last deletion of every scope: an action built from the store
supersedes them.
-/

namespace Logbook.KeyValue

/-- A key inside a scope. -/
structure Key where
  scope : UInt64
  name : String
deriving DecidableEq, Repr

/-- Keys are ordered by scope, then by name. -/
instance : Ord Key :=
  ⟨compareLex (compareOn Key.scope) (compareOn Key.name)⟩

instance : Std.TransOrd Key :=
  inferInstanceAs (Std.TransCmp (compareLex (compareOn Key.scope) (compareOn Key.name)))

instance : Std.LawfulEqOrd Key where
  eq_of_compare {a b} same := by
    have both : compareOn Key.scope a b = .eq ∧ compareOn Key.name a b = .eq := by
      simpa [compare, compareLex, Ordering.then_eq_eq] using same
    cases a
    cases b
    simp only [compareOn, Std.LawfulEqOrd.compare_eq_iff_eq] at both
    simp [both]

/-- A mutation of the store. -/
inductive Operation where
  | put (key : Key) (value : Bytes)
  | delete (key : Key)
  | deleteScope (scope : UInt64)
deriving DecidableEq, Repr

/-- A mutation and the sequence numbers of what it supersedes. -/
structure Action where
  operation : Operation
  invalidated : List Nat
deriving DecidableEq, Repr

/-- A value and the sequence number of the write it comes from. -/
structure Versioned where
  value : Bytes
  version : Nat
deriving DecidableEq, Repr

/-- The state of the store. -/
structure Store where
  entries : Std.TreeMap Key Versioned
  /-- The last write of each key, deletions included. -/
  lastWrite : Std.TreeMap Key Nat
  /-- The last deletion of each scope. -/
  scopeDeletes : Std.TreeMap UInt64 Nat
  /-- The numbers of the replayed actions, in the order they were replayed. -/
  replayed : List Nat
  /-- How many actions were disposed of. -/
  disposed : Nat

namespace Store

/-- A store without keys. -/
def empty : Store := ⟨∅, ∅, ∅, [], 0⟩

/-- The number of a table entry is raised to `lsn`. -/
def raise {κ : Type} [Ord κ] (table : Std.TreeMap κ Nat) (key : κ) (lsn : Nat) :
    Std.TreeMap κ Nat :=
  table.insert key (max (table.getD key lsn) lsn)

/-- Apply a mutation as of `lsn`, keeping what is newer. -/
def apply (store : Store) (operation : Operation) (lsn : Nat) : Store :=
  match operation with
  | .put key value =>
      { store with
        entries :=
          if (store.entries[key]?).any (lsn < ·.version) then store.entries
          else store.entries.insert key ⟨value, lsn⟩
        lastWrite := raise store.lastWrite key lsn }
  | .delete key =>
      { store with
        entries :=
          if (store.entries[key]?).any (·.version < lsn) then store.entries.erase key
          else store.entries
        lastWrite := raise store.lastWrite key lsn }
  | .deleteScope scope =>
      { store with
        entries := store.entries.filter fun key entry => key.scope ≠ scope ∨ lsn < entry.version
        lastWrite := store.lastWrite.filter fun key last => key.scope ≠ scope ∨ lsn < last
        scopeDeletes := raise store.scopeDeletes scope lsn }

/-- What a mutation supersedes when it is built from this store. -/
def supersededBy (store : Store) : Operation → List Nat
  | .put key _ | .delete key => store.lastWrite[key]?.toList
  | .deleteScope scope => store.scopeDeletes[scope]?.toList

/-- The action for a mutation, built from this store. -/
def build (store : Store) (operation : Operation) : Action :=
  ⟨operation, store.supersededBy operation⟩

/-- The value of a key. -/
def get? (store : Store) (key : Key) : Option Bytes := store.entries[key]?.map (·.value)

/-- The number of the write that the value of a key comes from. -/
def version? (store : Store) (key : Key) : Option Nat := store.entries[key]?.map (·.version)

/-- The number of keys. -/
def size (store : Store) : Nat := store.entries.size

/-- Keys and values, in key order. -/
def snapshot (store : Store) : List (Key × Bytes) :=
  store.entries.toList.map fun (key, entry) => (key, entry.value)

/-- Replay a mutation as of `lsn`. -/
def replay (store : Store) (operation : Operation) (lsn : Nat) : Store :=
  let store := store.apply operation lsn
  { store with replayed := store.replayed ++ [lsn] }

/-- Count an action that was not applied. -/
def dispose (store : Store) : Store := { store with disposed := store.disposed + 1 }

end Store

end Logbook.KeyValue
