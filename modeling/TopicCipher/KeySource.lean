import TopicCipher.KeyError

/-!
# Sources of keys

A key source answers two questions: which key a topic is encrypted under now, and what the
material of a given older key is.  Sources stack: a cache is a source in front of another one.

A source works in some monad, which is where its connections, storage and clocks live.  Nothing
is assumed about its answers.
-/

namespace TopicCipher

/-- One generation of a topic's key, as the secret store hands it out.  The material is base64
text and may have blanks around it. -/
structure KeyVersion where
  version : Version
  keyName : Option String
  material : String
  deriving DecidableEq, Repr

/-- Something that can be asked for keys. -/
structure KeySource (m : Type → Type) where
  /-- The key that a topic is encrypted under now; none for a topic that is not encrypted. -/
  encryptionKey (topic : String) : m (Except KeyError (Option KeyVersion))
  /-- The material of the key of a topic with the given version.  Without a key name, the name
  configured for the topic counts. -/
  decryptionKey (topic : String) (version : Version) (keyName : Option String) :
    m (Except KeyError String)

/-- The same source in a larger monad. -/
def KeySource.lift {m n : Type → Type} [MonadLiftT m n] (source : KeySource m) : KeySource n where
  encryptionKey topic := liftM (source.encryptionKey topic)
  decryptionKey topic version keyName := liftM (source.decryptionKey topic version keyName)

end TopicCipher
