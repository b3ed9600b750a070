import Logbook.Entry

/-!
# The fate of a record

Going down the log, recovery knows of each record what the newer ones said: which
numbers they supersede, which transactions they commit and which scopes they
delete. That decides whether the record is replayed, and what it adds to the
knowledge about older ones. A superseded record still supersedes in its turn; a
superseded commit does not commit; a member without a commit and an action of a
deleted scope leave no trace.
-/

namespace Logbook.Recovery

/-- What newer records said. -/
structure Tables where
  superseded : List Nat
  committed : List Nat
  deletedScopes : List UInt64
deriving DecidableEq, Repr

/-- Before the newest record nothing was said. -/
def Tables.empty : Tables := ⟨[], [], []⟩

/-- What becomes of a record. -/
inductive Fate where
  /-- A newer record supersedes it. -/
  | superseded
  /-- It commits a transaction. -/
  | commits
  /-- Its transaction is not committed. -/
  | voided
  /-- A newer record deletes its scope. -/
  | deleted
  /-- It is replayed. -/
  | survives
deriving DecidableEq, Repr

variable {α σ : Type}

namespace Tables

/-- Note what a surviving action says about older records. -/
def noteAction (app : Application α σ) (tables : Tables) (action : α) : Tables :=
  { tables with
    superseded := app.invalidated action ++ tables.superseded
    deletedScopes := (app.deletedScope action).toList ++ tables.deletedScopes }

/-- The fate of an action that is not superseded and whose transaction, if any,
is committed. -/
def judgeAction (app : Application α σ) (tables : Tables) (action : α) : Fate × Tables :=
  if ∃ scope ∈ app.scope action, scope ∈ tables.deletedScopes then (.deleted, tables)
  else (.survives, tables.noteAction app action)

/-- The fate of the entry with number `lsn`, and what is known after it. -/
def judge (app : Application α σ) (tables : Tables) (lsn : Nat) (entry : Entry α) :
    Fate × Tables :=
  if lsn ∈ tables.superseded then
    (.superseded,
      { tables with
        superseded := entry.invalidated app ++ tables.superseded.filter (· ≠ lsn) })
  else
    match entry with
    | .commit txn => (.commits, { tables with committed := txn :: tables.committed })
    | .member txn action =>
        if txn ∈ tables.committed then tables.judgeAction app action else (.voided, tables)
    | .plain action => tables.judgeAction app action

end Tables

end Logbook.Recovery
