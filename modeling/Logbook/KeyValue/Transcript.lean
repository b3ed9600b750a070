import Logbook.Engine.Session
import Logbook.KeyValue.Rounds

/-!
# Transactions on a key-value store

A caller of a store logs mutations on their own or as members of transactions, which it
commits or drops. Every mutation is built from the store as it is when it is logged, and
so from the effects of transactions that are open as well. A transcript keeps track of
the entries that were logged; a mutation takes effect if it is on its own or a member of
a transaction that is committed.
-/

namespace Logbook

/-- An entry with other actions. -/
def Entry.map {α β : Type} (change : α → β) : Entry α → Entry β
  | .plain action => .plain (change action)
  | .member txn action => .member txn (change action)
  | .commit txn => .commit txn

/-- The number of the record that was logged for a request. -/
def Reply.lsn? : Reply → Option Nat
  | .record (.ok lsn) | .member (.ok lsn) => some lsn
  | _ => none

namespace KeyValue

/-- An entry and the number it was logged under. -/
structure Logged where
  lsn : Nat
  entry : Entry Operation
deriving DecidableEq, Repr

/-- The mutation of an entry, as of its number. -/
def Logged.stamped? (logged : Logged) : Option Stamped :=
  logged.entry.action?.map (Stamped.mk logged.lsn)

/-- All mutations of a history. -/
def mutations (history : List Logged) : List Stamped := history.filterMap Logged.stamped?

/-- The entry is not one of a transaction, or its transaction is committed. -/
def Logged.TakesEffect (history : List Logged) (logged : Logged) : Prop :=
  ∀ txn ∈ logged.entry.txn?, ∃ other ∈ history, other.entry = .commit txn

instance (history : List Logged) (logged : Logged) : Decidable (logged.TakesEffect history) := by
  unfold Logged.TakesEffect
  infer_instance

/-- The mutations of a history that take effect. -/
def effective (history : List Logged) : List Stamped :=
  mutations (history.filter (·.TakesEffect history))

/-- What happens to a store and its transactions. -/
inductive Turn where
  /-- A mutation is logged on its own. -/
  | plain (operation : Operation) (sync : Bool)
  /-- A transaction is opened under a name. -/
  | begin (name : String)
  /-- A mutation is logged as a member of an open transaction. -/
  | member (name : String) (operation : Operation)
  /-- An open transaction is committed. -/
  | commit (name : String) (sync : Bool)
  /-- An open transaction is given up. -/
  | drop (name : String)
  /-- The current window is closed. -/
  | closeBarrier
  /-- The writer collects a window. -/
  | collect
  /-- The writer writes a window. -/
  | write
  /-- The writer ends, if it is to. -/
  | finish
deriving DecidableEq, Repr

/-- A session on a store, and the entries that it has logged. -/
structure Transcript (δ : Type) where
  session : Session Store δ
  history : List Logged

namespace Transcript

variable {δ : Type}

/-- A session that has logged nothing. -/
def start (engine : Engine Store δ) : Transcript δ := ⟨.start engine, []⟩

/-- The engine. -/
def engine (transcript : Transcript δ) : Engine Store δ := transcript.session.engine

/-- The store. -/
def store (transcript : Transcript δ) : Store := transcript.engine.state

/-- Change the engine. -/
def onEngine (transcript : Transcript δ) (work : Engine Store δ → Engine Store δ) :
    Transcript δ :=
  { transcript with session := { transcript.session with engine := work transcript.engine } }

/-- Make a request for an entry. -/
def request (transcript : Transcript δ) (request : Request Action) (entry : Entry Operation) :
    Transcript δ :=
  let (reply, session) := transcript.session.request app request
  ⟨session, transcript.history ++ (reply.lsn?.map (Logged.mk · entry)).toList⟩

/-- The transcript after a turn. Nothing comes of a turn for a transaction that is not
open. -/
def step [Device δ] (transcript : Transcript δ) : Turn → Transcript δ
  | .plain operation sync =>
      transcript.request (.plain (transcript.store.build operation) sync) (.plain operation)
  | .begin name => { transcript with session := (transcript.session.begin name).2 }
  | .member name operation =>
      match transcript.session.transaction? name with
      | none => transcript
      | some txn =>
          transcript.request (.member name (transcript.store.build operation))
            (.member txn.id operation)
  | .commit name sync =>
      match transcript.session.transaction? name with
      | none => transcript
      | some txn => transcript.request (.commit name sync) (.commit txn.id)
  | .drop name => { transcript with session := transcript.session.drop name }
  | .closeBarrier => transcript.onEngine fun engine => engine.closeBarrier.2
  | .collect => transcript.onEngine Engine.collect
  | .write => transcript.onEngine Engine.write
  | .finish => transcript.onEngine Engine.finish

/-- The transcript after some turns. -/
def run [Device δ] (transcript : Transcript δ) (turns : List Turn) : Transcript δ :=
  turns.foldl step transcript

end Transcript

end KeyValue

end Logbook
