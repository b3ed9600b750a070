import Logbook.Engine.Transaction

/-!
# Runs of an engine

A run is a sequence of moves of producers and of the writer in any order. What
the engine does under a caller who waits after every operation is one run among
them.
-/

namespace Logbook

/-- A move of a producer, of the writer or of whoever holds the device. -/
inductive Move (α δ : Type) where
  | append (action : α) (sync : Bool)
  | beginTransaction
  | appendMember (txn : Nat) (action : α)
  | commit (txn : Nat) (sync : Bool)
  | setLowestLive (lsn : Nat)
  | closeBarrier
  | requestStop
  | collect
  | write
  | finish
  /-- Something is done to the device from outside. -/
  | onDevice (work : δ → δ)

namespace Engine

variable {α σ δ : Type} [Device δ]

/-- The engine after a move. -/
def move (app : Application α σ) (engine : Engine σ δ) : Move α δ → Engine σ δ
  | .append action sync => (engine.append app action sync).2
  | .beginTransaction => engine.beginTransaction.2
  | .appendMember txn action => (engine.log app (.member txn action) false).2
  | .commit txn sync => (engine.log app (.commit txn) sync).2
  | .setLowestLive lsn => engine.setLowestLive lsn
  | .closeBarrier => engine.closeBarrier.2
  | .requestStop => engine.requestStop
  | .collect => engine.collect
  | .write => engine.write
  | .finish => engine.finish
  | .onDevice work => { engine with device := work engine.device }

/-- The engine after some moves. -/
def run (app : Application α σ) (engine : Engine σ δ) (moves : List (Move α δ)) :
    Engine σ δ :=
  moves.foldl (move app) engine

@[simp]
theorem run_nil (app : Application α σ) (engine : Engine σ δ) : engine.run app [] = engine :=
  rfl

@[simp]
theorem run_cons (app : Application α σ) (engine : Engine σ δ) (first : Move α δ)
    (rest : List (Move α δ)) :
    engine.run app (first :: rest) = (engine.move app first).run app rest :=
  rfl

theorem run_append (app : Application α σ) (engine : Engine σ δ)
    (first second : List (Move α δ)) :
    engine.run app (first ++ second) = (engine.run app first).run app second :=
  List.foldl_append

end Engine

end Logbook
