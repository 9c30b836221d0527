import TopicCipher.Engine.Basic
import TopicCipher.Envelope.Field

/-!
# Fields of messages

Single text fields of a message can be encrypted as well.  A missing field stays missing in both
directions.  A value that is not marked as encrypted passes through when it is read, without a
look at the topic; a marked one is decrypted or refused.
-/

namespace TopicCipher.Engine

variable {m : Type → Type} [Monad m]

/-- The field of a value of a topic. -/
def encodeField (e : Engine m) (topic : String) :
    Option String → StateT Memory m (Except EngineError (Option String))
  | none => return .ok none
  | some value => do
    match ← e.encrypt topic (Bytes.ofText value) with
    | .error err => return .error err
    | .ok envelope => return ((Field.encode envelope).map some).mapError .crypto

/-- The text of a decrypted field. -/
def fieldText (plaintext : Bytes) : Except CryptoError String :=
  match Bytes.toText? plaintext with
  | some text => .ok text
  | none => .error (.field .plaintextNotText)

/-- The value of a field of a topic. -/
def decodeField (e : Engine m) (topic : String) :
    Option String → StateT Memory m (Except EngineError (Option String))
  | none => return .ok none
  | some value => do
    if Field.isMarked value then
      match Field.decode value with
      | .error err => return .error (.crypto err)
      | .ok envelope =>
        match ← e.decrypt topic envelope with
        | .error err => return .error err
        | .ok plaintext => return ((fieldText plaintext).map some).mapError .crypto
    else return .ok (some value)

end TopicCipher.Engine
