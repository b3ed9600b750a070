import Logbook.Chain.Walk

/-!
# The chain of windows

Between the producers of records and the writer stands a chain of windows. Its
tail is the oldest window that is not written yet; its head is where the newest
records went, and only saves producers a walk from the tail. A window is known
by its place in the chain, counted from the first one ever made, so a written
window keeps its place.

Once the writer has failed, the first failure is the outcome of every window
whose write was not over by then, and of every window made later.
-/

namespace Logbook

/-- The windows of a log. -/
structure Chain where
  capacity : Capacity
  /-- All windows ever made, oldest first. -/
  windows : List Window
  /-- The place of the oldest window that is not written. -/
  tail : Nat
  /-- The place of the window that the newest record went to. -/
  head : Nat
  /-- The first failure of the writer. -/
  failure : Option DurabilityFailure
  /-- Slot arrays of written windows that wait for a new window. -/
  pooled : Nat
  /-- The most slot arrays that may wait. -/
  poolLimit : Nat
deriving Repr

namespace Chain

/-- A chain whose first window starts at `first`. -/
def create (first : Nat) (capacity poolLimit : Nat) : Chain where
  capacity := .atLeastOne capacity
  windows := [(Capacity.atLeastOne capacity).fresh first]
  tail := 0
  head := 0
  failure := none
  pooled := 0
  poolLimit := poolLimit

/-- The window at a place. -/
def window? (chain : Chain) (place : Nat) : Option Window := chain.windows[place]?

/-- The base of the window at a place. -/
def baseAt (chain : Chain) (place : Nat) : Nat := ((chain.window? place).map (·.base)).getD 0

/-- The chain with other windows; each new one takes a pooled slot array, if
there is one. -/
def withWindows (chain : Chain) (windows : List Window) : Chain :=
  { chain with
    windows := windows
    pooled := chain.pooled - (windows.length - chain.windows.length) }

/-- Work on the window at a place and those after it. -/
def onSuffix {ε α : Type} (chain : Chain) (place : Nat) (missing : Except ε α)
    (work : Window → List Window → Except ε α × List Window) : Except ε α × Chain :=
  match chain.windows.drop place with
  | [] => (missing, chain)
  | window :: rest =>
      let (result, windows) := work window rest
      (result, chain.withWindows (chain.windows.take place ++ windows))

/-- Append a record to the window at a place: `false` if it lies past it. -/
def appendAt (chain : Chain) (place : Nat) (record : Record) (sync : Bool) :
    Except LogError Bool × Chain :=
  let (result, chain) :=
    chain.onSuffix place (.ok false) (Windows.offerFirst chain.capacity record sync)
  (result.mapError .invariant, chain)

/-- Close the window at a place. -/
def closeAt (chain : Chain) (place : Nat) (last : Nat) : Except LogError Bool × Chain :=
  let (result, chain) :=
    chain.onSuffix place (.ok false) fun window rest =>
      Windows.closeFirst chain.capacity window rest last
  (result.mapError .invariant, chain)

/-- The place of the window after the one at a place, which is made if there is
none; a window gets a successor only when it is closed. -/
def next (chain : Chain) (place : Nat) : Nat × Chain :=
  match chain.windows.drop place with
  | [window] =>
      (place + 1,
        chain.withWindows (chain.windows.take place
          ++ [window.closeNaturally, chain.capacity.fresh window.successorBase]))
  | _ => (place + 1, chain)

/-- Append a record to the window that has a slot for it. The result is the
place of that window. -/
def append (chain : Chain) (record : Record) (sync : Bool) : Except LogError Nat × Chain :=
  match chain.failure with
  | some failure => (.error (.durability failure), chain)
  | none =>
      let start := if chain.baseAt chain.head ≤ record.lsn then chain.head else chain.tail
      let (result, chain) :=
        chain.onSuffix start (.ok 0) fun window rest =>
          Windows.offer chain.capacity record sync window.base (window :: rest)
      match result with
      | .error fault => (.error (.invariant fault), chain)
      | .ok passed =>
          let place := start + passed
          (.ok place,
            if chain.baseAt chain.head < chain.baseAt place then { chain with head := place }
            else chain)

/-- Close the window that has a slot for `lsn` at `lsn`, and those before it at
their natural ends, starting at the tail. -/
def closeThrough (chain : Chain) (lsn : Nat) : Except LogError Unit × Chain :=
  let (result, chain) :=
    chain.onSuffix chain.tail (.ok ()) fun window rest =>
      Windows.closeThrough chain.capacity lsn window.base (window :: rest)
  (result.mapError .invariant, chain)

/-- The records of the window at a place, `none` while one is missing. -/
def contiguousAt (chain : Chain) (place : Nat) : Except LogError (Option (List Record)) :=
  match chain.window? place with
  | none => .ok none
  | some window => window.contiguous chain.failure

/-- The writer has failed. The first failure stays, and it is the outcome of
every unwritten window. -/
def fail (chain : Chain) (failure : DurabilityFailure) : Chain :=
  let first := chain.failure.getD failure
  { chain with
    failure := some first
    windows := chain.windows.take chain.tail
      ++ (chain.windows.drop chain.tail).map (·.settle (.error first)) }

/-- The window at a place is written. -/
def complete (chain : Chain) (place : Nat) : Chain :=
  { chain with windows := chain.windows.modify place (·.settle (.ok ())) }

/-- The outcome of the write of the window at a place, once there is one. -/
def outcomeAt (chain : Chain) (place : Nat) : Option WriteOutcome :=
  ((chain.window? place).bind (·.outcome)).or (chain.failure.map .error)

/-- The window at a place is written and no longer the tail; its successor is.
Its slot array waits for reuse if nobody holds the window and there is room. -/
def retire (chain : Chain) (written : Nat) (held : Bool) : Chain :=
  let (successor, chain) := chain.next written
  let head :=
    if chain.baseAt chain.head < chain.baseAt successor then successor else chain.head
  { chain with
    tail := successor
    head := head
    pooled :=
      if held ∨ head = written ∨ chain.poolLimit ≤ chain.pooled then chain.pooled
      else chain.pooled + 1 }

end Chain

end Logbook
