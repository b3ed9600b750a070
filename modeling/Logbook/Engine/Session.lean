import Logbook.Engine.Transaction

/-!
# Sessions

A session is an engine together with the transactions that are open on it, each
under a name of the caller's choice. Requests refer to transactions by name, and
a commit uses its transaction up, whether it succeeds or not.

A caller may wait after every request, or make several while the device is held:
the writer then has the first record in hand, and the others gather behind it.
-/

namespace Logbook

/-- What a caller may ask to have logged. -/
inductive Request (α : Type) where
  /-- An action on its own. -/
  | plain (action : α) (sync : Bool)
  /-- An action as a member of an open transaction. -/
  | member (name : String) (action : α)
  /-- The commit of an open transaction. -/
  | commit (name : String) (sync : Bool)

/-- What came of a request. -/
inductive Reply where
  /-- The outcome for a record that the caller may wait for. -/
  | record (outcome : Outcome Nat)
  /-- The outcome for a member, which counts only with its commit. -/
  | member (outcome : Outcome Nat)
  /-- No transaction of that name is open. -/
  | unknown (name : String)

/-- An engine and its open transactions by name. -/
structure Session (σ δ : Type) where
  engine : Engine σ δ
  transactions : List (String × Transaction)

namespace Session

variable {α σ δ : Type}

/-- A session without transactions. -/
def start (engine : Engine σ δ) : Session σ δ := ⟨engine, []⟩

/-- Change the engine and keep the transactions. -/
def onEngine {β : Type} (session : Session σ δ) (work : Engine σ δ → β × Engine σ δ) :
    β × Session σ δ :=
  let (result, engine) := work session.engine
  (result, { session with engine := engine })

/-- The open transaction of a name. -/
def transaction? (session : Session σ δ) (name : String) : Option Transaction :=
  session.transactions.lookup name

/-- Close a name; the transaction it stood for, if it is not committed, is given
up. -/
def drop (session : Session σ δ) (name : String) : Session σ δ :=
  { session with transactions := session.transactions.filter (·.1 ≠ name) }

/-- Let a name stand for a transaction. -/
def keep (session : Session σ δ) (name : String) (txn : Transaction) : Session σ δ :=
  { session with transactions := (name, txn) :: (session.drop name).transactions }

/-- Open a transaction under a name. -/
def begin (session : Session σ δ) (name : String) : Transaction × Session σ δ :=
  let (txn, session) := session.onEngine Engine.beginTransaction
  (txn, session.keep name txn)

/-- Make a request. -/
def request (app : Application α σ) (session : Session σ δ) :
    Request α → Reply × Session σ δ
  | .plain action sync =>
      let (outcome, session) := session.onEngine (·.append app action sync)
      (.record outcome, session)
  | .member name action =>
      match session.transaction? name with
      | none => (.unknown name, session)
      | some txn =>
          let (outcome, txn, engine) := session.engine.appendMember app txn action
          (.member outcome, { session with engine := engine }.keep name txn)
  | .commit name sync =>
      match session.transaction? name with
      | none => (.unknown name, session)
      | some txn =>
          let (outcome, session) := (session.drop name).onEngine (·.commit app txn sync)
          (.record outcome, session)

variable [Device δ]

/-- Let the writer run until it has nothing to do. -/
def settle (session : Session σ δ) : Session σ δ :=
  { session with engine := session.engine.settle }

/-- Make one of several requests while the device is held. The writer collects
the window of the first record of all, and of no later one. -/
def requestHeld (app : Application α σ) (progress : List Reply × Bool × Session σ δ)
    (request : σ → Request α) : List Reply × Bool × Session σ δ :=
  let (replies, held, session) := progress
  let (reply, after) := session.request app (request session.engine.state)
  let first := ¬ held ∧ session.engine.current < after.engine.current
  (replies ++ [reply], held || first,
    if first then { after with engine := after.engine.collect } else after)

/-- Make requests, each for the state that those before it left, while the device
is held in the write of the first record; then let go of it. -/
def requestAll (app : Application α σ) (session : Session σ δ)
    (requests : List (σ → Request α)) : List Reply × Session σ δ :=
  let (replies, _, session) := requests.foldl (requestHeld app) ([], false, session)
  (replies, session.settle)

end Session

end Logbook
