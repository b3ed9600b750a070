import Logbook.Chain

/-!
# Completion handles

Whoever appended a record may hold on to the completion handle of its window. The handle
looks in two places: in the window, whose outcome is settled once, and in the chain, which
keeps the first failure for all its windows. The outcome of the window comes first, so a
write that was over before the writer failed stays a success.

A wait looks again and again until there is something to be seen; what it finds each time
is given to it as a list.
-/

namespace Logbook

/-- What a completion handle sees when it looks. -/
structure WriteFuture where
  /-- The outcome of the write of the window, once it is settled. -/
  outcome : Option WriteOutcome
  /-- The first failure of the writer, once there is one. -/
  failure : Option DurabilityFailure
deriving Repr

namespace WriteFuture

/-- The outcome, if there is one by now. -/
def poll (future : WriteFuture) : Option WriteOutcome :=
  match future.outcome with
  | some outcome => some outcome
  | none => future.failure.map .error

/-- How a wait ends that finds the handle like this each time it looks, or `none` while it
has to go on. -/
def wait : (looks : List WriteFuture) → Option WriteOutcome
  | [] => none
  | future :: later =>
      match future.outcome, future.failure with
      | some outcome, _ => some outcome
      | none, some failure => some (.error failure)
      | none, none => wait later

/-- How a wait with a time limit ends. It sleeps if there is nothing to be seen at first,
and then says what it finds when it wakes. -/
def waitTimeout (future woken : WriteFuture) : Option WriteOutcome :=
  if future.outcome.isNone && future.failure.isNone then woken.poll else future.poll

end WriteFuture

namespace Chain

/-- The completion handle of the window at a place. -/
def futureAt (chain : Chain) (place : Nat) : WriteFuture :=
  ⟨(chain.window? place).bind (·.outcome), chain.failure⟩

theorem outcomeAt_eq_poll (chain : Chain) (place : Nat) :
    chain.outcomeAt place = (chain.futureAt place).poll := by
  rw [outcomeAt, futureAt, WriteFuture.poll]
  cases (chain.window? place).bind (·.outcome) with
  | none => rfl
  | some outcome => rfl

end Chain

end Logbook
