import TopicCipher.Proofs.Results
import TopicCipher.Proofs.Watched
import TopicCipher.StoreKeys

/-!
# What a store of keys can do

A lookup in the secret store resolves a path, opens the connection if need be, reads a secret and
takes the key out of it.  This module lists the ways in which that can go.

* `currentKey_of_metadata_eq_none` and its like: what stands between a secret and its current key.
* `currentKey_eq_ok_iff`, `pinnedKey_eq_ok_iff`: when a secret yields a key.
* `reading_of_gives`: a read over a connection that may have to be opened first.
* `encryptionLookup_of_gives`, `decryptionLookup_of_gives`: the two lookups.
-/

namespace TopicCipher

namespace Secret

variable {s : Secret} {path keyName : String}

/-- A secret without metadata has no version. -/
theorem currentKey_of_metadata_eq_none (h : s.metadata = none) :
    s.currentKey path keyName = .error (.noVersion path) := by
  rw [currentKey, h]

/-- Version zero stands for none. -/
theorem currentKey_of_version_eq_zero {metadata : SecretMetadata} (h : s.metadata = some metadata)
    (hversion : metadata.version = 0) :
    s.currentKey path keyName = .error (.versionZero path) := by
  simp [currentKey, h, hversion, bind, Except.bind]

/-- With a positive version, only the key material is still open. -/
theorem currentKey_of_version_ne_zero {metadata : SecretMetadata} (h : s.metadata = some metadata)
    (hversion : metadata.version ≠ 0) :
    s.currentKey path keyName =
      (s.material path keyName).map (⟨metadata.version, some keyName, ·⟩) := by
  simp only [currentKey, h, hversion, if_false, bind, Except.bind]
  cases s.material path keyName <;> rfl

/-- A secret has a current key exactly if it has a positive version and the key is not blank. -/
theorem currentKey_eq_ok_iff {key : KeyVersion} :
    s.currentKey path keyName = .ok key ↔
      ∃ metadata material, s.metadata = some metadata ∧ metadata.version ≠ 0 ∧
        s.material path keyName = .ok material ∧
        key = ⟨metadata.version, some keyName, material⟩ := by
  rcases hmetadata : s.metadata with _ | metadata
  · simp [currentKey_of_metadata_eq_none hmetadata]
  · by_cases hversion : metadata.version = 0
    · simp [currentKey_of_version_eq_zero hmetadata hversion, hversion]
    · rw [currentKey_of_version_ne_zero hmetadata hversion, map_eq_ok_iff]
      simp [hversion, @eq_comm _ key]

/-- A secret has the key of a version exactly if it does not name another version and the key is
not blank. -/
theorem pinnedKey_eq_ok_iff {version : Version} {material : String} :
    s.pinnedKey path keyName version = .ok material ↔
      (∀ metadata, s.metadata = some metadata → metadata.version = version) ∧
        s.material path keyName = .ok material := by
  unfold pinnedKey
  rcases s.metadata with _ | metadata
  · simp
  · by_cases hversion : metadata.version = version
    · simp [hversion]
    · simp [hversion, bind, Except.bind]

end Secret

namespace StoreKeys

variable {m : Type → Type} [Monad m] {P C : Type} [Watched m P]

/-! ## Reads -/

/-- The ways in which a read can go. -/
inductive Reading (k : StoreKeys m C) (path : String) (version : Option Version) :
    Option C × P → Except KeyError Secret → Option C × P → Prop where
  /-- The connection cannot be opened. -/
  | refused {p q : P} {err : KeyError} (hconnect : Gives k.store.connect p (.error err) q) :
      Reading k path version (none, p) (.error err) (none, q)
  /-- The connection is opened and then read over. -/
  | opened {p q t : P} {c c' : C} {answer : Except KeyError Secret}
      (hconnect : Gives k.store.connect p (.ok c) q)
      (hread : Gives (k.store.read path version) (c, q) answer (c', t)) :
      Reading k path version (none, p) answer (some c', t)
  /-- The connection is open already. -/
  | reused {p t : P} {c c' : C} {answer : Except KeyError Secret}
      (hread : Gives (k.store.read path version) (c, p) answer (c', t)) :
      Reading k path version (some c, p) answer (some c', t)

/-- A read goes in one of the three ways. -/
theorem reading_of_gives {k : StoreKeys m C} {path : String} {version : Option Version}
    {s t : Option C × P} {r : Except KeyError Secret} (h : Gives (k.read path version) s r t) :
    Reading k path version s r t := by
  obtain ⟨held, p⟩ := s
  rcases held with _ | c
  · simp only [read, connection, gives_bind, gives_get] at h
    obtain ⟨found, u, ⟨_, _, ⟨rfl, rfl⟩, hfound⟩, h⟩ := h
    simp only [gives_bind, gives_lift] at hfound
    obtain ⟨opened, ⟨_, q⟩, ⟨rfl, hconnect⟩, hfound⟩ := hfound
    cases opened with
    | error err =>
      obtain ⟨rfl, rfl⟩ := gives_pure.mp hfound
      obtain ⟨rfl, rfl⟩ := gives_pure.mp h
      exact .refused hconnect
    | ok c =>
      simp only [gives_bind, gives_set, gives_pure] at hfound
      obtain ⟨_, _, rfl, rfl, rfl⟩ := hfound
      simp only [gives_bind, gives_lift, gives_set, gives_pure] at h
      obtain ⟨⟨answer, c'⟩, ⟨_, t'⟩, ⟨rfl, hread⟩, _, _, rfl, rfl, rfl⟩ := h
      exact .opened hconnect hread
  · simp only [read, connection, gives_bind, gives_get] at h
    obtain ⟨found, u, ⟨_, _, ⟨rfl, rfl⟩, hfound⟩, h⟩ := h
    obtain ⟨rfl, rfl⟩ := gives_pure.mp hfound
    simp only [gives_bind, gives_lift, gives_set, gives_pure] at h
    obtain ⟨⟨answer, c'⟩, ⟨_, t'⟩, ⟨rfl, hread⟩, _, _, rfl, rfl, rfl⟩ := h
    exact .reused hread

/-! ## Lookups -/

/-- The ways in which a lookup of the key to encrypt under can go. -/
inductive EncryptionLookup (k : StoreKeys m C) (topic : String) :
    Option C × P → Except KeyError (Option KeyVersion) → Option C × P → Prop where
  /-- The rules say that the topic is not encrypted. -/
  | unkeyed {s : Option C × P} (hrules : k.resolver.isEncrypted topic = false) :
      EncryptionLookup k topic s (.ok none) s
  /-- The rules do not say where the key lies. -/
  | pathless {s : Option C × P} {fault : ConfigurationFault}
      (hrules : k.resolver.isEncrypted topic = true)
      (hpath : k.resolver.path topic = .error fault) :
      EncryptionLookup k topic s (.error (.configuration fault)) s
  /-- The secret cannot be read. -/
  | refused {s t : Option C × P} {path : String} {err : KeyError}
      (hrules : k.resolver.isEncrypted topic = true)
      (hpath : k.resolver.path topic = .ok path)
      (hread : Gives (k.read path none) s (.error err) t) :
      EncryptionLookup k topic s (.error err) t
  /-- The secret holds no usable key. -/
  | unusable {s t : Option C × P} {path : String} {secret : Secret} {fault : AnswerFault}
      (hrules : k.resolver.isEncrypted topic = true)
      (hpath : k.resolver.path topic = .ok path)
      (hread : Gives (k.read path none) s (.ok secret) t)
      (hkey : secret.currentKey path (k.resolver.keyName topic) = .error fault) :
      EncryptionLookup k topic s (.error (.format fault)) t
  /-- The secret holds the key. -/
  | fetched {s t : Option C × P} {path : String} {secret : Secret} {key : KeyVersion}
      (hrules : k.resolver.isEncrypted topic = true)
      (hpath : k.resolver.path topic = .ok path)
      (hread : Gives (k.read path none) s (.ok secret) t)
      (hkey : secret.currentKey path (k.resolver.keyName topic) = .ok key) :
      EncryptionLookup k topic s (.ok (some key)) t

/-- A lookup of the key to encrypt under goes in one of the five ways. -/
theorem encryptionLookup_of_gives {k : StoreKeys m C} {topic : String} {s t : Option C × P}
    {r : Except KeyError (Option KeyVersion)} (h : Gives (k.encryptionKey topic) s r t) :
    EncryptionLookup k topic s r t := by
  rw [encryptionKey] at h
  by_cases hrules : k.resolver.isEncrypted topic = true
  · simp only [hrules, Bool.not_true, Bool.false_eq_true, if_false] at h
    cases hpath : k.resolver.path topic with
    | error fault =>
      simp only [hpath, gives_pure] at h
      obtain ⟨rfl, rfl⟩ := h
      exact .pathless hrules hpath
    | ok path =>
      simp only [hpath, gives_bind] at h
      obtain ⟨answer, u, hread, h⟩ := h
      cases answer with
      | error err =>
        obtain ⟨rfl, rfl⟩ := gives_pure.mp h
        exact .refused hrules hpath hread
      | ok secret =>
        cases hkey : secret.currentKey path (k.resolver.keyName topic) with
        | error fault =>
          simp only [hkey, gives_pure] at h
          obtain ⟨rfl, rfl⟩ := h
          exact .unusable hrules hpath hread hkey
        | ok key =>
          simp only [hkey, gives_pure] at h
          obtain ⟨rfl, rfl⟩ := h
          exact .fetched hrules hpath hread hkey
  · simp only [hrules, Bool.not_false, if_true, gives_pure] at h
    obtain ⟨rfl, rfl⟩ := h
    exact .unkeyed (by simpa using hrules)

/-- The ways in which a lookup of an old key can go. -/
inductive DecryptionLookup (k : StoreKeys m C) (topic : String) (version : Version)
    (keyName : Option String) :
    Option C × P → Except KeyError String → Option C × P → Prop where
  /-- The rules do not say where the key lies. -/
  | pathless {s : Option C × P} {fault : ConfigurationFault}
      (hpath : k.resolver.path topic = .error fault) :
      DecryptionLookup k topic version keyName s (.error (.configuration fault)) s
  /-- The secret cannot be read. -/
  | refused {s t : Option C × P} {path : String} {err : KeyError}
      (hpath : k.resolver.path topic = .ok path)
      (hread : Gives (k.read path (some version)) s (.error err) t) :
      DecryptionLookup k topic version keyName s (.error err) t
  /-- The secret holds no usable key of that version. -/
  | unusable {s t : Option C × P} {path : String} {secret : Secret} {fault : AnswerFault}
      (hpath : k.resolver.path topic = .ok path)
      (hread : Gives (k.read path (some version)) s (.ok secret) t)
      (hkey : secret.pinnedKey path (keyName.getD (k.resolver.keyName topic)) version =
        .error fault) :
      DecryptionLookup k topic version keyName s (.error (.format fault)) t
  /-- The secret holds the key. -/
  | fetched {s t : Option C × P} {path : String} {secret : Secret} {material : String}
      (hpath : k.resolver.path topic = .ok path)
      (hread : Gives (k.read path (some version)) s (.ok secret) t)
      (hkey : secret.pinnedKey path (keyName.getD (k.resolver.keyName topic)) version =
        .ok material) :
      DecryptionLookup k topic version keyName s (.ok material) t

/-- A lookup of an old key goes in one of the four ways. -/
theorem decryptionLookup_of_gives {k : StoreKeys m C} {topic : String} {version : Version}
    {keyName : Option String} {s t : Option C × P} {r : Except KeyError String}
    (h : Gives (k.decryptionKey topic version keyName) s r t) :
    DecryptionLookup k topic version keyName s r t := by
  rw [decryptionKey] at h
  cases hpath : k.resolver.path topic with
  | error fault =>
    simp only [hpath, gives_pure] at h
    obtain ⟨rfl, rfl⟩ := h
    exact .pathless hpath
  | ok path =>
    simp only [hpath, gives_bind] at h
    obtain ⟨answer, u, hread, h⟩ := h
    cases answer with
    | error err =>
      obtain ⟨rfl, rfl⟩ := gives_pure.mp h
      exact .refused hpath hread
    | ok secret =>
      cases hkey : secret.pinnedKey path (keyName.getD (k.resolver.keyName topic)) version with
      | error fault =>
        simp only [hkey, gives_pure] at h
        obtain ⟨rfl, rfl⟩ := h
        exact .unusable hpath hread hkey
      | ok material =>
        simp only [hkey, gives_pure] at h
        obtain ⟨rfl, rfl⟩ := h
        exact .fetched hpath hread hkey

end StoreKeys

end TopicCipher
