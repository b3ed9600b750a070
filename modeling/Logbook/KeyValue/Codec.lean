import Logbook.Application
import Logbook.KeyValue.Store
import Logbook.Text.Utf8

/-!
# Encoded key-value actions

    operation (1) | scope (8) | name length (4) | name | value length (4) | value
      | count (4) | superseded numbers (8 each)

Names are UTF-8. The name is there for a put and a delete, the value for a put
only. The bytes have to end with the last number.
-/

namespace Logbook.KeyValue

namespace Codec

/-- The tag of a put. -/
def putTag : UInt8 := 1

/-- The tag of a delete. -/
def deleteTag : UInt8 := 2

/-- The tag of the deletion of a scope. -/
def deleteScopeTag : UInt8 := 3

/-- The least length that no length field can hold. -/
def fieldLimit : Nat := UInt32.size

/-- The bytes of a name. -/
def nameBytes (name : String) : Bytes := name.toByteArray.data.toList

/-- A field behind its length. -/
def encodeField (field : Bytes) : Except CodecError Bytes :=
  if fieldLimit ≤ field.length then .error (.invalid s!"field of {field.length} bytes")
  else .ok (Bytes.ofNat 4 field.length ++ field)

/-- The encoding of a mutation. -/
def encodeOperation : Operation → Except CodecError Bytes
  | .put key value => do
      let name ← encodeField (nameBytes key.name)
      let value ← encodeField value
      return putTag :: Bytes.ofNat 8 key.scope.toNat ++ name ++ value
  | .delete key => do
      let name ← encodeField (nameBytes key.name)
      return deleteTag :: Bytes.ofNat 8 key.scope.toNat ++ name
  | .deleteScope scope => return deleteScopeTag :: Bytes.ofNat 8 scope.toNat

/-- The encoding of an action. -/
def encode (action : Action) : Except CodecError Bytes := do
  let operation ← encodeOperation action.operation
  return operation ++ Bytes.ofNat 4 action.invalidated.length
    ++ action.invalidated.flatMap (Bytes.ofNat 8)

/-- The first `n` bytes and the rest; it is an error if there are fewer. -/
def take (n : Nat) (bytes : Bytes) : Except CodecError (Bytes × Bytes) :=
  match Bytes.split? n bytes with
  | some parts => .ok parts
  | none => .error (.truncated n bytes.length)

/-- The field behind its length, and the rest. -/
def decodeField (bytes : Bytes) : Except CodecError (Bytes × Bytes) := do
  let (length, bytes) ← take 4 bytes
  take (Bytes.toNat length) bytes

/-- The text of a name. -/
def decodeName (bytes : Bytes) : Except CodecError String :=
  match String.fromUTF8? ⟨bytes.toArray⟩ with
  | some name => .ok name
  | none =>
      let fault := (Utf8.fault? bytes).getD ⟨bytes.length, none⟩
      .error (.invalid s!"key name: {fault.message}")

/-- The name behind its length as a key of a scope, and the rest. -/
def decodeKey (scope : UInt64) (bytes : Bytes) : Except CodecError (Key × Bytes) := do
  let (name, bytes) ← decodeField bytes
  return (⟨scope, ← decodeName name⟩, bytes)

/-- The mutation with a given tag and scope, and the rest. -/
def decodeOperation (tag : UInt8) (scope : UInt64) (bytes : Bytes) :
    Except CodecError (Operation × Bytes) :=
  if tag = putTag then do
    let (key, bytes) ← decodeKey scope bytes
    let (value, bytes) ← decodeField bytes
    return (.put key value, bytes)
  else if tag = deleteTag then do
    let (key, bytes) ← decodeKey scope bytes
    return (.delete key, bytes)
  else if tag = deleteScopeTag then return (.deleteScope scope, bytes)
  else .error (.unknownTag tag)

/-- The first `count` eight-byte numbers. -/
def decodeNumbers : (count : Nat) → Bytes → List Nat
  | 0, _ => []
  | count + 1, bytes => Bytes.toNat (bytes.take 8) :: decodeNumbers count (bytes.drop 8)

/-- The superseded numbers that fill the rest of the bytes. -/
def decodeInvalidated (bytes : Bytes) : Except CodecError (List Nat) := do
  let (count, bytes) ← take 4 bytes
  let count := Bytes.toNat count
  if bytes.length = count * 8 then return decodeNumbers count bytes
  else
    throw (.invalid s!"expected {count} invalidated lsns, {bytes.length} bytes left")

/-- The action that bytes encode. -/
def decode (bytes : Bytes) : Except CodecError Action := do
  let (header, bytes) ← take 9 bytes
  let scope := UInt64.ofNat (Bytes.toNat (header.drop 1))
  let (operation, bytes) ← decodeOperation (header.headD 0) scope bytes
  let invalidated ← decodeInvalidated bytes
  return ⟨operation, invalidated⟩

end Codec

namespace Key

/-- The start of the hash of a key. -/
def hashOffset : UInt64 := 0xcbf29ce484222325

/-- The factor that each byte multiplies the hash by. -/
def hashPrime : UInt64 := 0x00000100000001b3

/-- The replay bucket of a key, its 64-bit FNV-1a hash: that of the scope, in
eight bytes, followed by the name. -/
def bucket (key : Key) : UInt64 :=
  (Bytes.ofNat 8 key.scope.toNat ++ Codec.nameBytes key.name).foldl
    (fun hash byte => (hash ^^^ byte.toUInt64) * hashPrime) hashOffset

end Key

namespace Operation

/-- The replay bucket: all mutations of one key share one. -/
def bucket : Operation → UInt64
  | put key _ | delete key => key.bucket
  | deleteScope scope => scope

/-- The scope that the mutation belongs to. -/
def scope : Operation → UInt64
  | put key _ | delete key => key.scope
  | deleteScope scope => scope

/-- The scope that the mutation deletes. -/
def deletedScope : Operation → Option UInt64
  | deleteScope scope => some scope
  | _ => none

end Operation

/-- The key-value store as an application of the log. Its actions never fail. -/
def app : Application Action Store where
  encode := Codec.encode
  decode := Codec.decode
  invalidated := Action.invalidated
  bucket action := action.operation.bucket
  scope action := some action.operation.scope
  deletedScope action := action.operation.deletedScope
  record action lsn store := .ok (store.apply action.operation lsn)
  replay action lsn store := .ok (store.replay action.operation lsn)
  dispose _ store := store.dispose

end Logbook.KeyValue
