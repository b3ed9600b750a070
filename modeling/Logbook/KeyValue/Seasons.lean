import Logbook.KeyValue.Rounds

/-!
# Seasons of a key-value store

The owner of a store may give up the older part of its log: once no value of the store
was put before a number, the lowest live number of the log can be raised to it. A season
is a round in which that happens, any number of times and between any two steps. The
owner is careful if it raises the number no further than the values of the store and the
next number of the log allow.
-/

namespace Logbook.KeyValue

/-- What happens to a log between two openings, if its older part may be given up. -/
inductive Act where
  | step (step : Step)
  /-- The lowest live number is raised, unless it is as high already. -/
  | raise (lsn : Nat)
deriving DecidableEq, Repr

/-- The mutation that an act logs. -/
def Act.operation? : Act → Option Operation
  | .step taken => taken.operation?
  | .raise _ => none

/-- The number that an act raises the lowest live number to. -/
def Act.raised? : Act → Option Nat
  | .step _ => none
  | .raise lsn => some lsn

/-- What happens to a log in a season, and when the workers of the recovery at its end
take their jobs. -/
structure Season where
  acts : List Act
  ending : Ending
  schedule : Recovery.Schedule

/-- The mutations that a season logs. -/
def Season.operations (season : Season) : List Operation :=
  season.acts.filterMap Act.operation?

namespace Chronicle

/-- The chronicle after an act. -/
def act (chronicle : Chronicle) : Act → Outcome Chronicle
  | .step taken => chronicle.step taken
  | .raise lsn => .ok (chronicle.onEngine (·.setLowestLive lsn))

/-- The chronicle after some acts. -/
def actAll (chronicle : Chronicle) : List Act → Outcome Chronicle
  | [] => .ok chronicle
  | first :: rest =>
      match chronicle.act first with
      | .ok chronicle => chronicle.actAll rest
      | .failed error => .failed error
      | .panicked panic => .panicked panic

/-- The chronicle after a season. -/
def spend (chronicle : Chronicle) (season : Season) : Outcome Chronicle :=
  match chronicle.actAll season.acts with
  | .ok chronicle =>
      match chronicle.opened season.ending season.schedule with
      | .ok log => .ok ⟨log, surviving chronicle.history log.report⟩
      | .failed error => .failed error
      | .panicked panic => .panicked panic
  | .failed error => .failed error
  | .panicked panic => .panicked panic

/-- The chronicle after some seasons. -/
def spendAll (chronicle : Chronicle) : List Season → Outcome Chronicle
  | [] => .ok chronicle
  | first :: rest =>
      match chronicle.spend first with
      | .ok chronicle => chronicle.spendAll rest
      | .failed error => .failed error
      | .panicked panic => .panicked panic

/-- No value of the store was put before a number, and the log has not passed over it. -/
def MayRaise (chronicle : Chronicle) (lsn : Nat) : Prop :=
  (∀ pair ∈ chronicle.log.store.entries.toList, lsn ≤ pair.2.version) ∧
    lsn ≤ chronicle.log.engine.current + 1

/-- The lowest live number is raised only where it may be. -/
def Careful (chronicle : Chronicle) : List Act → Prop
  | [] => True
  | first :: rest =>
      (∀ lsn ∈ first.raised?, chronicle.MayRaise lsn) ∧
        match chronicle.act first with
        | .ok chronicle => chronicle.Careful rest
        | .failed _ | .panicked _ => True

/-- The lowest live number is raised only where it may be, in all seasons. -/
def CarefulAll (chronicle : Chronicle) : List Season → Prop
  | [] => True
  | first :: rest =>
      chronicle.Careful first.acts ∧
        match chronicle.spend first with
        | .ok chronicle => chronicle.CarefulAll rest
        | .failed _ | .panicked _ => True

instance (chronicle : Chronicle) (lsn : Nat) : Decidable (chronicle.MayRaise lsn) := by
  unfold MayRaise
  infer_instance

instance decidableCareful (chronicle : Chronicle) :
    (acts : List Act) → Decidable (chronicle.Careful acts)
  | [] => isTrue trivial
  | first :: rest =>
      have : Decidable (match chronicle.act first with
          | .ok chronicle => chronicle.Careful rest
          | .failed _ | .panicked _ => True) :=
        match chronicle.act first with
        | .ok chronicle => decidableCareful chronicle rest
        | .failed _ | .panicked _ => isTrue trivial
      inferInstanceAs (Decidable ((∀ lsn ∈ first.raised?, chronicle.MayRaise lsn) ∧ _))

instance decidableCarefulAll (chronicle : Chronicle) :
    (seasons : List Season) → Decidable (chronicle.CarefulAll seasons)
  | [] => isTrue trivial
  | first :: rest =>
      have : Decidable (match chronicle.spend first with
          | .ok chronicle => chronicle.CarefulAll rest
          | .failed _ | .panicked _ => True) :=
        match chronicle.spend first with
        | .ok chronicle => decidableCarefulAll chronicle rest
        | .failed _ | .panicked _ => isTrue trivial
      inferInstanceAs (Decidable (chronicle.Careful first.acts ∧ _))

end Chronicle

end Logbook.KeyValue
