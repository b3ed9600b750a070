import Logbook.Chain

/-!
# Calls on a chain

Producers and the writer call a chain and its windows in an order that nobody
plans. A history is a chain together with the records whose append was accepted
on the way, so that what the chain holds can be compared with what it took.
-/

namespace Logbook.Chain

/-- A call on a chain, or on the window at one of its places. -/
inductive Call where
  | append (record : Record) (sync : Bool)
  | appendAt (place : Nat) (record : Record) (sync : Bool)
  | closeAt (place : Nat) (last : Nat)
  | next (place : Nat)
  | closeThrough (lsn : Nat)
deriving DecidableEq, Repr

/-- The chain after a call, and the record that the call accepted. -/
def call (chain : Chain) : Call → Option Record × Chain
  | .append record sync =>
      let (result, chain) := chain.append record sync
      (bif result.isOk then some record else none, chain)
  | .appendAt place record sync =>
      let (result, chain) := chain.appendAt place record sync
      (bif result.toOption.getD false then some record else none, chain)
  | .closeAt place last => (none, (chain.closeAt place last).2)
  | .next place => (none, (chain.next place).2)
  | .closeThrough lsn => (none, (chain.closeThrough lsn).2)

/-- A chain and the records it has accepted, in the order it did. -/
structure History where
  chain : Chain
  accepted : List Record

namespace History

/-- A chain that has accepted nothing. -/
def start (chain : Chain) : History := ⟨chain, []⟩

/-- The history after one more call. -/
def step (history : History) (call : Call) : History :=
  let (accepted, chain) := history.chain.call call
  ⟨chain, history.accepted ++ accepted.toList⟩

/-- The history after some more calls. -/
def run (history : History) (calls : List Call) : History :=
  calls.foldl step history

@[simp]
theorem run_nil (history : History) : history.run [] = history :=
  rfl

@[simp]
theorem run_cons (history : History) (call : Call) (calls : List Call) :
    history.run (call :: calls) = (history.step call).run calls :=
  rfl

end History

end Logbook.Chain
