import Logbook.Engine

/-!
# Transactions

A transaction groups actions that recovery replays all or none. Its members are
logged as they come; recovery replays them only if the commit is in the log. A
transaction that is dropped leaves its members behind, and recovery voids them.
-/

namespace Logbook

/-- An open transaction. -/
structure Transaction where
  id : Nat
  /-- The numbers of the members logged so far. -/
  members : List Nat
deriving DecidableEq, Repr

namespace Engine

variable {α σ δ : Type}

/-- Open a transaction under the next number. -/
def beginTransaction (engine : Engine σ δ) : Transaction × Engine σ δ :=
  (⟨engine.nextTxn, []⟩, { engine with nextTxn := engine.nextTxn + 1 })

/-- Log an action as a member of a transaction. -/
def appendMember (app : Application α σ) (engine : Engine σ δ) (txn : Transaction)
    (action : α) : Outcome Nat × Transaction × Engine σ δ :=
  match engine.log app (.member txn.id action) false with
  | (.ok lsn, engine) => (.ok lsn, { txn with members := txn.members ++ [lsn] }, engine)
  | (outcome, engine) => (outcome, txn, engine)

/-- Log the commit of a transaction. -/
def commit (app : Application α σ) (engine : Engine σ δ) (txn : Transaction) (sync : Bool) :
    Outcome Nat × Engine σ δ :=
  engine.log app (.commit txn.id) sync

end Engine

end Logbook
