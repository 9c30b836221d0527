import TopicCipher.Secret
import TopicCipher.Topic.Rules

/-!
# Keys from the secret store

A secret store is something that can be connected to, after which secrets can be read at a path.
`StoreKeys` makes a source of keys out of a store and of rules that say where the keys lie.

The connection is opened by the first lookup that needs it and is kept from then on.  An attempt
that fails leaves nothing behind, so the next lookup tries again.
-/

namespace TopicCipher

/-- A secret store whose open connections are values of type `C`. -/
structure SecretStore (m : Type → Type) (C : Type) where
  connect : m (Except KeyError C)
  /-- Reads the secret at a path: the given version of it, or the newest. -/
  read (path : String) (version : Option Version) : StateT C m (Except KeyError Secret)

/-- Rules that say where keys lie, and the store that they lie in. -/
structure StoreKeys (m : Type → Type) (C : Type) where
  resolver : TopicResolver
  store : SecretStore m C

namespace StoreKeys

variable {m : Type → Type} [Monad m] {C : Type}

/-- The open connection, opened if need be. -/
def connection (k : StoreKeys m C) : StateT (Option C) m (Except KeyError C) := do
  match ← get with
  | some c => return .ok c
  | none =>
    match ← k.store.connect with
    | .error e => return .error e
    | .ok c =>
      set (some c)
      return .ok c

/-- Reads a secret over the open connection. -/
def read (k : StoreKeys m C) (path : String) (version : Option Version) :
    StateT (Option C) m (Except KeyError Secret) := do
  match ← k.connection with
  | .error e => return .error e
  | .ok c =>
    let (answer, c) ← k.store.read path version c
    set (some c)
    return answer

/-- The key that a topic is encrypted under now. -/
def encryptionKey (k : StoreKeys m C) (topic : String) :
    StateT (Option C) m (Except KeyError (Option KeyVersion)) := do
  if !k.resolver.isEncrypted topic then return .ok none
  match k.resolver.path topic with
  | .error fault => return .error (.configuration fault)
  | .ok path =>
    match ← k.read path none with
    | .error e => return .error e
    | .ok secret =>
      match secret.currentKey path (k.resolver.keyName topic) with
      | .error fault => return .error (.format fault)
      | .ok key => return .ok (some key)

/-- The material of an older key of a topic. -/
def decryptionKey (k : StoreKeys m C) (topic : String) (version : Version)
    (keyName : Option String) : StateT (Option C) m (Except KeyError String) := do
  match k.resolver.path topic with
  | .error fault => return .error (.configuration fault)
  | .ok path =>
    match ← k.read path (some version) with
    | .error e => return .error e
    | .ok secret =>
      match secret.pinnedKey path (keyName.getD (k.resolver.keyName topic)) version with
      | .error fault => return .error (.format fault)
      | .ok material => return .ok material

/-- The store as a source of keys. -/
def source (k : StoreKeys m C) : KeySource (StateT (Option C) m) where
  encryptionKey := k.encryptionKey
  decryptionKey := k.decryptionKey

end StoreKeys

end TopicCipher
