import Logbook.Application

/-!
# Log entries

What a record carries is an entry: an action on its own, an action that takes
effect only if its transaction commits, or the commit of a transaction. An entry
is encoded as a tag byte, the transaction number in eight bytes if it has one,
and the encoding of the action if it has one.
-/

namespace Logbook

/-- An entry of the log. -/
inductive Entry (α : Type) where
  | plain (action : α)
  | member (txn : Nat) (action : α)
  | commit (txn : Nat)
deriving DecidableEq, Repr

namespace Entry

variable {α σ : Type}

/-- The tag of an action on its own. -/
def plainTag : UInt8 := 1

/-- The tag of a member of a transaction. -/
def memberTag : UInt8 := 2

/-- The tag of a commit. -/
def commitTag : UInt8 := 3

/-- The transaction of an entry. -/
def txn? : Entry α → Option Nat
  | plain _ => none
  | member txn _ | commit txn => some txn

/-- The action of an entry. -/
def action? : Entry α → Option α
  | plain action | member _ action => some action
  | commit _ => none

/-- The sequence numbers that an entry supersedes; a commit supersedes none. -/
def invalidated (app : Application α σ) (entry : Entry α) : List Nat :=
  (entry.action?.map app.invalidated).getD []

/-- Let go of the action of an entry. -/
def dispose (app : Application α σ) (entry : Entry α) (state : σ) : σ :=
  match entry.action? with
  | some action => app.dispose action state
  | none => state

/-- The encoding of an entry. -/
def encode (app : Application α σ) : Entry α → Except CodecError Bytes
  | plain action => return plainTag :: (← app.encode action)
  | member txn action => return memberTag :: Bytes.ofNat 8 txn ++ (← app.encode action)
  | commit txn => return commitTag :: Bytes.ofNat 8 txn

/-- The transaction number in front of the bytes of a member or a commit. -/
def readTxn (bytes : Bytes) : Except CodecError (Nat × Bytes) :=
  match Bytes.readNat? 8 bytes with
  | some (txn, rest) => .ok (txn, rest)
  | none => .error (.truncated 8 bytes.length)

/-- The entry that bytes encode. -/
def decode (app : Application α σ) : Bytes → Except CodecError (Entry α)
  | [] => .error (.truncated 1 0)
  | tag :: rest =>
      if tag = plainTag then return plain (← app.decode rest)
      else if tag = memberTag then do
        let (txn, rest) ← readTxn rest
        return member txn (← app.decode rest)
      else if tag = commitTag then do
        let (txn, rest) ← readTxn rest
        if rest = [] then return commit txn
        else throw (.invalid s!"trailing bytes in commit envelope: {rest.length}")
      else .error (.unknownTag tag)

end Entry

end Logbook
