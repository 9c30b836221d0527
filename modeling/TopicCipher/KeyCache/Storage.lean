import TopicCipher.Bytes

/-!
# Storage of the key cache

A storage keeps one text.  Writing replaces it.  The cache lives without its storage if need be,
so a failure here is never a failure of a lookup.

* `CacheStorage.memory` keeps the text in memory.
* `CacheStorage.file` keeps it in a file.  Nothing there is as good as nothing stored; a file that
  is no text, or a directory in its place, cannot be read.
-/

namespace TopicCipher

/-- A failure of a storage. -/
inductive StorageError where
  | io
  | backend (reason : String)
  deriving DecidableEq, Repr

/-- The wording of a failure. -/
def StorageError.message : StorageError → String
  | .io => "Cache storage I/O error: the file cannot be read or written"
  | .backend reason => s!"Cache storage backend error: {reason}"

/-- A place for one text. -/
structure CacheStorage (m : Type → Type) where
  /-- The stored text; none when nothing was stored yet. -/
  read : m (Except StorageError (Option String))
  /-- Replaces the stored text. -/
  write (text : String) : m (Except StorageError Unit)

/-- The same storage in a larger monad. -/
def CacheStorage.lift {m n : Type → Type} [MonadLiftT m n] (s : CacheStorage m) :
    CacheStorage n where
  read := liftM s.read
  write text := liftM (s.write text)

/-- A storage in memory. -/
def CacheStorage.memory : CacheStorage (StateM (Option String)) where
  read := return .ok (← get)
  write text := do
    set (some text)
    return .ok ()

/-- What is found where a cache file belongs. -/
inductive FilePlace where
  /-- The directory of the file does not exist. -/
  | noDirectory
  /-- There is no file yet. -/
  | free
  | file (contents : Bytes)
  /-- A directory is in the way. -/
  | directory
  deriving DecidableEq, Repr

/-- A storage in a file. -/
def CacheStorage.file : CacheStorage (StateM FilePlace) where
  read := do
    match ← get with
    | .noDirectory => return .ok none
    | .free => return .ok none
    | .file contents =>
      match Bytes.toText? contents with
      | some text => return .ok (some text)
      | none => return .error .io
    | .directory => return .error .io
  write text := do
    match ← get with
    | .noDirectory => return .error .io
    | .directory => return .error .io
    | .free =>
      set (FilePlace.file (Bytes.ofText text))
      return .ok ()
    | .file _ =>
      set (FilePlace.file (Bytes.ofText text))
      return .ok ()

end TopicCipher
