import Logbook.Chain.Call
import Logbook.Chain.Future

/-!
# The life of a chain

While producers call a chain, the writer completes its tail and lets go of it, until it
fails. A watch is a chain together with the places of the windows whose write was completed
on the way, so that what a completion handle says can be compared with what happened.
-/

namespace Logbook.Chain

/-- What happens to a chain. -/
inductive Event where
  /-- A call on the chain or on one of its windows. -/
  | called (call : Call)
  /-- The tail is written. -/
  | completed
  /-- The writer lets go of the tail, which somebody else may hold. -/
  | retired (held : Bool)
  /-- The writer fails. -/
  | failed (failure : DurabilityFailure)
deriving DecidableEq, Repr

/-- The chain after an event. -/
def react (chain : Chain) : Event → Chain
  | .called call => (chain.call call).2
  | .completed => chain.complete chain.tail
  | .retired held => chain.retire chain.tail held
  | .failed failure => chain.fail failure

/-- A chain and the places of the windows that were completed. -/
structure Watch where
  chain : Chain
  completed : List Nat

namespace Watch

/-- A chain of which nothing has been completed. -/
def start (chain : Chain) : Watch := ⟨chain, []⟩

/-- The watch after one more event. -/
def step (watch : Watch) (event : Event) : Watch where
  chain := watch.chain.react event
  completed := if event = .completed then watch.chain.tail :: watch.completed else watch.completed

/-- The watch after some more events. -/
def run (watch : Watch) (events : List Event) : Watch :=
  events.foldl step watch

@[simp]
theorem run_nil (watch : Watch) : watch.run [] = watch :=
  rfl

@[simp]
theorem run_cons (watch : Watch) (event : Event) (events : List Event) :
    watch.run (event :: events) = (watch.step event).run events :=
  rfl

theorem run_append (watch : Watch) (front back : List Event) :
    watch.run (front ++ back) = (watch.run front).run back :=
  List.foldl_append

end Watch

end Logbook.Chain
