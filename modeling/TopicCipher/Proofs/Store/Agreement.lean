import Mathlib.Control.Monad.Basic
import TopicCipher.Proofs.Dialogue
import TopicCipher.Proofs.Store.Lookups

/-!
# What is encrypted can be looked up again

A message carries no more of its key than a version and perhaps a name.  Who decrypts it goes to the
store again, on a way of its own: the path is resolved a second time, the name is the one in the
message or the one in the rules, and the secret is read at the version.  If one of these three were
chosen differently from the first time, everything encrypted from then on would be lost.

They are not.  Path and name come out of the same rules, and the name in the message is the one that
the rules gave when the key was handed out.  The version is that of the secret, and only a secret
that does not name another version is accepted at it.  So as long as the store gives the same secret
for this version, both lookups take the same text out of it.

* `pinnedKey_of_currentKey`: a secret has its current key at its own version.
* `returns_decryptionKey`: a lookup of an old key gives what the secret holds, and nothing else.
* `lookups_agree`: both lookups together.
-/

namespace TopicCipher

variable {m : Type → Type} [Monad m] {P : Type} [Watched m P]

/-- The computation, begun at the place, gives the value, and no other one. -/
structure Returns {α : Type} (x : m α) (s : P) (a : α) : Prop where
  gives : ∃ t, Gives x s a t
  eq_of_gives {b : α} {t : P} : Gives x s b t → b = a

namespace Secret

variable {s : Secret} {path keyName : String}

/-- A key is not blank. -/
theorem isBlankText_of_material {material : String} (h : s.material path keyName = .ok material) :
    Text.isBlankText material = false := by
  rw [Secret.material] at h
  split at h
  next text hfound =>
    obtain rfl := Except.ok.inj h
    simpa using (Option.filter_eq_some_iff.mp hfound).2
  next => exact absurd h (by simp)

/-- **A secret has its current key at its own version**, under the name that comes with the key. -/
theorem pinnedKey_of_currentKey {key : KeyVersion} (h : s.currentKey path keyName = .ok key) :
    s.pinnedKey path keyName key.version = .ok key.material := by
  obtain ⟨metadata, material, hmetadata, -, hmaterial, rfl⟩ := currentKey_eq_ok_iff.mp h
  refine pinnedKey_eq_ok_iff.mpr ⟨fun other hother => ?_, hmaterial⟩
  obtain rfl := Option.some.inj (hmetadata.symm.trans hother)
  rfl

/-- A secret of another version is refused. -/
theorem pinnedKey_eq_otherVersion {metadata : SecretMetadata} {version : Version}
    (hmetadata : s.metadata = some metadata) (hversion : metadata.version ≠ version) :
    s.pinnedKey path keyName version = .error (.otherVersion version path metadata.version) := by
  simp [pinnedKey, hmetadata, hversion, bind, Except.bind]

end Secret

namespace StoreKeys

variable {C : Type} {k : StoreKeys m C}

/-! ## Open connections -/

/-- Over an open connection, what the store gives is what is read. -/
theorem returns_read {path : String} {version : Option Version} {c : C} {p : P}
    {r : Except KeyError Secret} (h : Returns (k.store.read path version) (c, p) r) :
    Returns (k.read path version) (some c, p) r where
  gives := by
    obtain ⟨⟨c', q⟩, hgives⟩ := h.gives
    refine ⟨(some c', q), ?_⟩
    simp only [read, connection, gives_bind, gives_get]
    refine ⟨.ok c, (some c, p), ⟨some c, (some c, p), ⟨rfl, rfl⟩, gives_pure.mpr ⟨rfl, rfl⟩⟩, ?_⟩
    simp only [gives_bind, gives_lift, gives_set, gives_pure]
    exact ⟨(r, c'), (some c, q), ⟨rfl, hgives⟩, .unit, (some c', q), rfl, rfl, rfl⟩
  eq_of_gives hread := by
    cases reading_of_gives hread with
    | reused hstore => exact h.eq_of_gives hstore

/-- A lookup that read a secret leaves the connection open. -/
theorem exists_connection_of_read {path : String} {version : Option Version} {s t : Option C × P}
    {secret : Secret} (h : Gives (k.read path version) s (.ok secret) t) : ∃ c, t.1 = some c := by
  cases reading_of_gives h with
  | opened => exact ⟨_, rfl⟩
  | reused => exact ⟨_, rfl⟩

/-- Where the store only ever gives one secret, no other one is read. -/
theorem secret_of_read {path : String} {version : Option Version} {s t : Option C × P}
    {secret other : Secret}
    (hstore : ∀ c p, Returns (k.store.read path version) (c, p) (.ok secret))
    (h : Gives (k.read path version) s (.ok other) t) : other = secret := by
  cases reading_of_gives h with
  | opened _ hread => exact Except.ok.inj ((hstore _ _).eq_of_gives hread)
  | reused hread => exact Except.ok.inj ((hstore _ _).eq_of_gives hread)

/-! ## Lookups of old keys -/

/-- **A lookup of an old key returns what the secret holds**, be it a key or not. -/
theorem returns_decryptionKey {topic path : String} {version : Version} {s : Option C × P}
    {secret : Secret} (keyName : Option String) (hpath : k.resolver.path topic = .ok path)
    (hread : Returns (k.read path (some version)) s (.ok secret)) :
    Returns (k.decryptionKey topic version keyName) s
      ((secret.pinnedKey path (keyName.getD (k.resolver.keyName topic)) version).mapError
        KeyError.format) where
  gives := by
    obtain ⟨t, hgives⟩ := hread.gives
    refine ⟨t, ?_⟩
    simp only [decryptionKey, hpath]
    refine gives_bind.mpr ⟨.ok secret, t, hgives, ?_⟩
    cases hkey : secret.pinnedKey path (keyName.getD (k.resolver.keyName topic)) version with
    | error fault =>
      simp only [hkey]
      exact gives_pure.mpr ⟨rfl, rfl⟩
    | ok material =>
      simp only [hkey]
      exact gives_pure.mpr ⟨rfl, rfl⟩
  eq_of_gives h := by
    cases decryptionLookup_of_gives h with
    | pathless hpath' => exact absurd (hpath.symm.trans hpath') (by simp)
    | refused hpath' hread' =>
      obtain rfl := Except.ok.inj (hpath.symm.trans hpath')
      exact absurd (hread.eq_of_gives hread') (by simp)
    | unusable hpath' hread' hkey =>
      obtain rfl := Except.ok.inj (hpath.symm.trans hpath')
      obtain rfl := Except.ok.inj (hread.eq_of_gives hread')
      rw [hkey]
      rfl
    | fetched hpath' hread' hkey =>
      obtain rfl := Except.ok.inj (hpath.symm.trans hpath')
      obtain rfl := Except.ok.inj (hread.eq_of_gives hread')
      rw [hkey]
      rfl

/-! ## Both lookups -/

/-- The key can be looked up again: wherever the store gives the secret at the version of the key, a
lookup with the name of the key and one without a name return its material. -/
def IsRedeemed (k : StoreKeys m C) (topic path : String) (secret : Secret)
    (key : KeyVersion) : Prop :=
  ∀ keyName, keyName = key.keyName ∨ keyName = none → ∀ c p,
    Returns (k.store.read path (some key.version)) (c, p) (.ok secret) →
      Returns (k.decryptionKey topic key.version keyName) (some c, p) (.ok key.material)

theorem isRedeemed_of_currentKey {topic path : String} {secret : Secret} {key : KeyVersion}
    (hpath : k.resolver.path topic = .ok path)
    (hkey : secret.currentKey path (k.resolver.keyName topic) = .ok key) :
    IsRedeemed k topic path secret key := by
  intro keyName hname c p hstore
  have hreturns := returns_decryptionKey keyName hpath (returns_read hstore)
  have hpinned := Secret.pinnedKey_of_currentKey hkey
  obtain ⟨metadata, material, -, -, -, rfl⟩ := Secret.currentKey_eq_ok_iff.mp hkey
  -- the name in the message is the one that the rules gave, and without one they give it again
  have hsame : keyName.getD (k.resolver.keyName topic) = k.resolver.keyName topic := by
    rcases hname with rfl | rfl <;> rfl
  rwa [hsame, hpinned] at hreturns

/-- **What is encrypted can be looked up again.**  A key that the lookup for encryption hands out is
from the secret that it read at the path of the topic.  Its version is that of the secret and
positive, its material is not blank, the connection is open, and wherever the store gives this
secret for this version, the key can be looked up again.

Whatever the store gives, the material that a lookup for decryption hands out is from a secret that
names no other version than the one asked for, and a secret that names another one is refused. -/
theorem lookups_agree (k : StoreKeys m C) (topic : String) :
    (∀ {s t : Option C × P} {key : KeyVersion}, Gives (k.encryptionKey topic) s (.ok (some key)) t →
      ∃ path secret metadata, k.resolver.path topic = .ok path ∧
        Gives (k.read path none) s (.ok secret) t ∧ secret.metadata = some metadata ∧
        key.version = metadata.version ∧ 0 < key.version ∧
        Text.isBlankText key.material = false ∧ (∃ c, t.1 = some c) ∧
        IsRedeemed k topic path secret key) ∧
    (∀ {version : Version} {keyName : Option String} {s t : Option C × P} {material : String},
      Gives (k.decryptionKey topic version keyName) s (.ok material) t →
        ∃ path secret, k.resolver.path topic = .ok path ∧
          Gives (k.read path (some version)) s (.ok secret) t ∧
          (∀ metadata, secret.metadata = some metadata → metadata.version = version) ∧
          secret.material path (keyName.getD (k.resolver.keyName topic)) = .ok material) ∧
    ∀ {path : String} {version : Version} {keyName : Option String} {secret : Secret}
      {metadata : SecretMetadata} {c : C} {p : P}, k.resolver.path topic = .ok path →
      secret.metadata = some metadata → metadata.version ≠ version →
      Returns (k.store.read path (some version)) (c, p) (.ok secret) →
        Returns (k.decryptionKey topic version keyName) (some c, p)
          (.error (.format (.otherVersion version path metadata.version))) := by
  refine ⟨?_, ?_, ?_⟩
  · intro s t key h
    cases encryptionLookup_of_gives h with
    | fetched _ hpath hread hkey =>
      have hredeemed := isRedeemed_of_currentKey hpath hkey
      obtain ⟨metadata, material, hmetadata, hzero, hmaterial, rfl⟩ :=
        Secret.currentKey_eq_ok_iff.mp hkey
      exact ⟨_, _, metadata, hpath, hread, hmetadata, rfl, UInt32.pos_iff_ne_zero.mpr hzero,
        Secret.isBlankText_of_material hmaterial, exists_connection_of_read hread, hredeemed⟩
  · intro version keyName s t material h
    cases decryptionLookup_of_gives h with
    | fetched hpath hread hkey =>
      obtain ⟨hversion, hmaterial⟩ := Secret.pinnedKey_eq_ok_iff.mp hkey
      exact ⟨_, _, hpath, hread, hversion, hmaterial⟩
  · intro path version keyName secret metadata c p hpath hmetadata hversion hread
    have hreturns := returns_decryptionKey keyName hpath (returns_read hread)
    rwa [Secret.pinnedKey_eq_otherVersion hmetadata hversion] at hreturns

/-! ## A store with one secret -/

/-- A secret with two keys, in its fourth version. -/
def twoKeys : Secret where
  attributes := [("value", "b2xk"), ("spare", " bmV3\n")]
  metadata := some ⟨4, Instant.ofUnixNanos 0⟩

/-- Rules by which the second one is the key, in a store that gives the secret everywhere. -/
def spareKeys : StoreKeys (Dialogue Unit fun _ => Unit) Unit where
  resolver := .multi
    [{ TopicRule.fallback with template := some "kv/%TOPICNAME%", keyName := some "spare" }]
  store :=
    { connect := pure (.ok ())
      read := fun _ _ => pure (.ok twoKeys) }

/-- The key that is handed out can be looked up again, and not as another version. -/
theorem lookups_agree_spareKeys :
    Gives (spareKeys.encryptionKey "orders") (none, []) (.ok (some ⟨4, some "spare", " bmV3\n"⟩))
      (some (), []) ∧
    Returns (spareKeys.decryptionKey "orders" 4 (some "spare")) (some (), []) (.ok " bmV3\n") ∧
    Returns (spareKeys.decryptionKey "orders" 4 none) (some (), []) (.ok " bmV3\n") ∧
    Returns (spareKeys.decryptionKey "orders" 3 none) (some (), [])
      (.error (.format (.otherVersion 3 "kv/orders" 4))) := by
  have hpath : spareKeys.resolver.path "orders" = .ok "kv/orders" := by decide
  have hstore (version : Option Version) (c : Unit) (p : List (Exchange Unit fun _ => Unit)) :
      Returns (spareKeys.store.read "kv/orders" version) (c, p) (.ok twoKeys) :=
    ⟨⟨(c, p), gives_pure.mpr ⟨rfl, rfl⟩⟩, fun h => (gives_pure.mp h).1⟩
  have hgives : Gives (spareKeys.encryptionKey "orders") (none, [])
      (.ok (some ⟨4, some "spare", " bmV3\n"⟩)) (some (), []) :=
    (Dialogue.execution fun _ : Unit => ()).layer.gives_run
      (spareKeys.encryptionKey "orders") (none, [])
  obtain ⟨hkey, -, hrefused⟩ :=
    lookups_agree (P := List (Exchange Unit fun _ => Unit)) spareKeys "orders"
  obtain ⟨path, secret, -, hpath', hread, -, -, -, -, -, hredeemed⟩ := hkey hgives
  obtain rfl := Except.ok.inj (hpath.symm.trans hpath')
  obtain rfl := secret_of_read (hstore none) hread
  exact ⟨hgives, hredeemed _ (.inl rfl) () [] (hstore _ () []),
    hredeemed _ (.inr rfl) () [] (hstore _ () []),
    hrefused hpath rfl (by decide) (hstore _ () [])⟩

end StoreKeys

end TopicCipher
