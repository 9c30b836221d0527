import Mathlib.Data.List.Forall2
import TopicCipher.Proofs.Json.Records
import TopicCipher.Proofs.Results
import TopicCipher.Proofs.Store.Lookups
import TopicCipher.Vault.Answers

/-!
# What the bodies of answers tell

The store answers a login with a grant and a read with a secret, both in JSON.  This module says
without the readers which bodies are answers and what they tell.  A body is a record with one part,
and the part is a record again; fields that nobody asks for do not matter, and some may be missing
or null.  An attribute may have any value that can be kept, but only a text can be a key, and where
a name is repeated its last value counts.

* `LoginTells`: the grant of a login, or what is wrong with its answer, with `exists_loginTells`.
* `ReadTells`: the key of a secret, or what is wrong with the answer to a read, with
  `readTells_iff_of_ok` and `readTells_iff_of_error`.
-/

namespace TopicCipher.Vault

open Json (Fields Says SaysOr IsLast)

variable {body : String}

/-! ## Parts -/

/-- The body has one part, which has this name, and it is read so. -/
def HasPart {α : Type} (name : String) (reads : Json → α → Prop) (body : String) (a : α) : Prop :=
  ∃ document inner, Json.ofText? body = some document ∧ Fields [name] 0 document [some inner] ∧
    reads inner a

theorem part_eq_some_iff {α : Type} {name : String} {read : Json → Option α}
    {reads : Json → α → Prop} (hread : ∀ value a, read value = some a ↔ reads value a) {a : α} :
    (do
      let j ← Json.ofText? body
      let [inner] ← j.record? [name] 0 | none
      Json.required read inner : Option α) = some a ↔ HasPart name reads body a := by
  constructor
  · intro h
    obtain ⟨document, hdocument, h⟩ := Option.bind_eq_some_iff.mp h
    obtain ⟨values, hvalues, h⟩ := Option.bind_eq_some_iff.mp h
    split at h
    next inner =>
      obtain ⟨inner, rfl, hinner⟩ := Json.required_eq_some_iff.mp h
      exact ⟨document, inner, hdocument, Json.record?_eq_some_iff.mp hvalues,
        (hread inner a).mp hinner⟩
    next => exact absurd h (by simp)
  · rintro ⟨document, inner, hdocument, hfields, hinner⟩
    have hinner := (hread inner a).mpr hinner
    simp [hdocument, Json.record?_eq_some_iff.mpr hfields, Json.required, hinner]

theorem HasPart.unique {α : Type} {name : String} {read : Json → Option α}
    {reads : Json → α → Prop} {a a' : α} (h : HasPart name reads body a)
    (hread : ∀ value a, read value = some a ↔ reads value a) (h' : HasPart name reads body a') :
    a = a' :=
  Option.some.inj (((part_eq_some_iff hread).mpr h).symm.trans ((part_eq_some_iff hread).mpr h'))

/-! ## Grants -/

/-- The value is a grant: a token, the seconds that it lasts and whether it can be renewed. -/
def IsGrant (j : Json) (grant : Grant) : Prop :=
  ∃ token lease renewable seconds,
    Fields ["client_token", "lease_duration", "renewable"] 0 j [some token, lease, renewable] ∧
      token.IsText grant.token ∧ SaysOr 0 Json.IsLong lease seconds ∧
      SaysOr false Json.IsTruth renewable grant.renewable ∧ grant.lease = .ofSeconds seconds

theorem readGrantData?_eq_some_iff {j : Json} {grant : Grant} :
    readGrantData? j = some grant ↔ IsGrant j grant := by
  constructor
  · intro h
    rw [readGrantData?] at h
    split at h
    next token lease renewable hvalues =>
      simp only [Option.bind_eq_bind, Option.bind_eq_some_iff, Option.some.injEq] at h
      obtain ⟨text, htext, seconds, hseconds, truth, htruth, rfl⟩ := h
      obtain ⟨token, rfl, htext⟩ := Json.required_eq_some_iff.mp htext
      exact ⟨token, lease, renewable, seconds, Json.record?_eq_some_iff.mp hvalues,
        Json.text?_eq_some_iff.mp htext,
        (Json.withDefault_eq_some_iff fun _ _ => Json.word64?_eq_some_iff).mp hseconds,
        (Json.withDefault_eq_some_iff fun _ _ => Json.bool?_eq_some_iff).mp htruth, rfl⟩
    next => exact absurd h (by simp)
  · rintro ⟨token, lease, renewable, seconds, hfields, htext, hseconds, htruth, hlease⟩
    rw [readGrantData?, Json.record?_eq_some_iff.mpr hfields]
    have htext := Json.text?_eq_some_iff.mpr htext
    have hseconds := (Json.withDefault_eq_some_iff fun _ _ => Json.word64?_eq_some_iff).mpr hseconds
    have htruth := (Json.withDefault_eq_some_iff fun _ _ => Json.bool?_eq_some_iff).mpr htruth
    simp [Json.required, htext, hseconds, htruth, ← hlease]

/-- What the body of an answer to a login tells: a grant, whose token is not empty, or what is wrong
with it. -/
inductive LoginTells (body : String) : Except AnswerFault Grant → Prop where
  | granted {grant : Grant} (h : HasPart "auth" IsGrant body grant) (htoken : grant.token ≠ "") :
      LoginTells body (.ok grant)
  | emptyToken {grant : Grant} (h : HasPart "auth" IsGrant body grant)
      (htoken : grant.token = "") : LoginTells body (.error .emptyToken)
  | senseless (h : ∀ grant, ¬ HasPart "auth" IsGrant body grant) :
      LoginTells body (.error .loginBody)

theorem LoginTells.unique {r r' : Except AnswerFault Grant} (h : LoginTells body r)
    (h' : LoginTells body r') : r = r' := by
  have hsame {grant grant' : Grant} (hgrant : HasPart "auth" IsGrant body grant)
      (hgrant' : HasPart "auth" IsGrant body grant') : grant = grant' :=
    hgrant.unique (fun _ _ => readGrantData?_eq_some_iff) hgrant'
  cases h with
  | granted h htoken =>
    cases h' with
    | granted h' _ => rw [hsame h h']
    | emptyToken h' htoken' => exact absurd (hsame h h' ▸ htoken') htoken
    | senseless h' => exact absurd h (h' _)
  | emptyToken h htoken =>
    cases h' with
    | granted h' htoken' => exact absurd (hsame h h' ▸ htoken) htoken'
    | emptyToken h' _ => rfl
    | senseless h' => exact absurd h (h' _)
  | senseless h =>
    cases h' with
    | granted h' _ => exact absurd h' (h _)
    | emptyToken h' _ => exact absurd h' (h _)
    | senseless _ => rfl

/-- **A login is answered what the body tells.** -/
theorem exists_loginTells (body : String) :
    ∃ r, LoginTells body r ∧ readGrant body = r.mapError .malformed := by
  rw [readGrant]
  split
  next grant hgrant =>
    have htells := (part_eq_some_iff fun _ _ => readGrantData?_eq_some_iff).mp hgrant
    by_cases htoken : grant.token = ""
    · exact ⟨_, .emptyToken htells htoken, if_pos (String.isEmpty_iff.mpr htoken)⟩
    · exact ⟨_, .granted htells htoken, if_neg fun hempty => htoken (String.isEmpty_iff.mp hempty)⟩
  next hnone =>
    refine ⟨_, .senseless fun grant htells => ?_, rfl⟩
    have hgrant := (part_eq_some_iff fun _ _ => readGrantData?_eq_some_iff).mpr htells
    exact absurd (hnone.symm.trans hgrant) (by simp)

/-! ## Secrets -/

/-- The value is the metadata of a secret. -/
def IsMetadata (j : Json) (metadata : SecretMetadata) : Prop :=
  ∃ version created text, Fields ["version", "created_time"] 0 j [some version, some created] ∧
    version.IsWord metadata.version ∧ created.IsText text ∧
    Timestamp.readRelaxed? text.toList = some metadata.created

theorem readMetadata?_eq_some_iff {j : Json} {metadata : SecretMetadata} :
    readMetadata? j = some metadata ↔ IsMetadata j metadata := by
  constructor
  · intro h
    rw [readMetadata?] at h
    split at h
    next version created hvalues =>
      simp only [Option.bind_eq_bind, Option.bind_eq_some_iff, Option.some.injEq] at h
      obtain ⟨word, hword, text, htext, instant, hinstant, rfl⟩ := h
      obtain ⟨version, rfl, hword⟩ := Json.required_eq_some_iff.mp hword
      obtain ⟨created, rfl, htext⟩ := Json.required_eq_some_iff.mp htext
      exact ⟨version, created, text, Json.record?_eq_some_iff.mp hvalues,
        Json.word32?_eq_some_iff.mp hword, Json.text?_eq_some_iff.mp htext, hinstant⟩
    next => exact absurd h (by simp)
  · rintro ⟨version, created, text, hfields, hword, htext, hinstant⟩
    rw [readMetadata?, Json.record?_eq_some_iff.mpr hfields]
    have hword := Json.word32?_eq_some_iff.mpr hword
    have htext := Json.text?_eq_some_iff.mpr htext
    simp [Json.required, hword, htext, hinstant]

/-- The value is an object with these attributes, all of which can be kept. -/
def IsAttributes (j : Json) (attributes : List (String × Json)) : Prop :=
  j = .object (attributes.map fun (name, value) => (some name, value)) ∧
    ∀ pair ∈ attributes, pair.2.isData 124 = true

theorem map?_readAttribute?_eq_some_iff {j : Json} {map : List (String × Json)} :
    Json.map? readAttribute? j = some map ↔
      ∃ attributes, IsAttributes j attributes ∧ Json.lastOfEach attributes = map := by
  have hfield (field : Option String × Json) (pair : String × Json) :
      Json.readField readAttribute? field = some pair ↔
        field.2.isData 124 = true ∧ field = (some pair.1, pair.2) := by
    obtain ⟨own, value⟩ := field
    obtain ⟨name, kept⟩ := pair
    rw [Json.readField_eq_some_iff, readAttribute?, Option.ite_none_right_eq_some]
    simp [attributeDepth, and_left_comm]
  have hfields (fields : List (Option String × Json)) (pairs : List (String × Json)) :
      fields.mapM (Json.readField readAttribute?) = some pairs ↔
        IsAttributes (.object fields) pairs := by
    have hsame : List.Forall₂ (fun field (pair : String × Json) => field = (some pair.1, pair.2))
        fields pairs ↔ fields = pairs.map fun (name, value) => (some name, value) := by
      rw [← List.forall₂_eq_eq_eq, List.forall₂_map_right_iff]
    simp only [Json.mapM_eq_some_iff, hfield, List.forall₂_and_left, IsAttributes, hsame,
      Json.object.injEq]
    constructor
    · rintro ⟨hall, rfl⟩
      exact ⟨rfl, List.forall_mem_map.mp hall⟩
    · rintro ⟨rfl, hall⟩
      exact ⟨List.forall_mem_map.mpr hall, rfl⟩
  constructor
  · intro h
    cases j with
    | object fields =>
      obtain ⟨pairs, hpairs, hlast⟩ := Json.map?_object_eq_some_iff.mp h
      exact ⟨pairs, (hfields _ _).mp hpairs, hlast⟩
    | _ => exact absurd h (by simp [Json.map?])
  · rintro ⟨attributes, hattributes, hlast⟩
    obtain ⟨rfl, -⟩ := id hattributes
    exact Json.map?_object_eq_some_iff.mpr ⟨attributes, (hfields _ _).mpr hattributes, hlast⟩

/-- A secret as it is written: its attributes in their order, and its metadata, if there are any. -/
structure WrittenSecret where
  attributes : List (String × Json)
  metadata : Option SecretMetadata

/-- The value is written like this secret.  Attributes and metadata may be missing or null. -/
def IsSecret (j : Json) (w : WrittenSecret) : Prop :=
  ∃ inner outer attributes, Fields ["data", "metadata"] 0 j [inner, outer] ∧
    Says IsAttributes inner attributes ∧ Says IsMetadata outer w.metadata ∧
    w.attributes = attributes.getD []

namespace WrittenSecret

variable {w : WrittenSecret} {path keyName : String} {r r' : Except AnswerFault KeyVersion}

/-- The secret that is read. -/
def secret (w : WrittenSecret) : Secret :=
  ⟨textAttributes (Json.lastOfEach w.attributes), w.metadata⟩

/-- The key that a secret tells of, or what it lacks. -/
inductive Tells (w : WrittenSecret) (path keyName : String) :
    Except AnswerFault KeyVersion → Prop where
  | noVersion (h : w.metadata = none) : Tells w path keyName (.error (.noVersion path))
  | versionZero {metadata : SecretMetadata} (h : w.metadata = some metadata)
      (hversion : metadata.version = 0) : Tells w path keyName (.error (.versionZero path))
  | noKey {metadata : SecretMetadata} (h : w.metadata = some metadata)
      (hversion : metadata.version ≠ 0)
      (hblank : ∀ text, IsLast w.attributes keyName (.string (some text)) →
        Text.isBlankText text = true) :
      Tells w path keyName (.error (.noKey path keyName))
  | key {metadata : SecretMetadata} {material : String} (h : w.metadata = some metadata)
      (hversion : metadata.version ≠ 0)
      (hlast : IsLast w.attributes keyName (.string (some material)))
      (hblank : Text.isBlankText material = false) :
      Tells w path keyName (.ok ⟨metadata.version, some keyName, material⟩)

/-- The texts of a secret are those that stand last with their name. -/
theorem lookup_attributes_eq_some_iff {text : String} :
    w.secret.attributes.lookup keyName = some text ↔
      IsLast w.attributes keyName (.string (some text)) := by
  refine (Json.lookup_filterMap_eq_some_iff (Json.pairwise_lastOfEach w.attributes)).trans ?_
  simp only [Json.mem_lastOfEach_iff, Json.text?_eq_some_iff, Json.IsText, exists_eq_right]

/-- A secret has key material, or all texts of the name are blank. -/
theorem material_cases (w : WrittenSecret) (path keyName : String) :
    (∃ material, w.secret.material path keyName = .ok material ∧
        IsLast w.attributes keyName (.string (some material)) ∧
        Text.isBlankText material = false) ∨
      w.secret.material path keyName = .error (.noKey path keyName) ∧
        ∀ text, IsLast w.attributes keyName (.string (some text)) →
          Text.isBlankText text = true := by
  rw [Secret.material]
  split
  next text htext =>
    obtain ⟨hlookup, hblank⟩ := Option.filter_eq_some_iff.mp htext
    exact .inl ⟨text, rfl, lookup_attributes_eq_some_iff.mp hlookup, by simpa using hblank⟩
  next hnone =>
    refine .inr ⟨rfl, fun text hlast => ?_⟩
    rw [lookup_attributes_eq_some_iff.mpr hlast, Option.filter_eq_none_iff] at hnone
    simpa using hnone

/-- **The key of a secret is the one that it tells of.** -/
theorem tells_iff : w.Tells path keyName r ↔ w.secret.currentKey path keyName = r := by
  constructor
  · intro h
    cases h with
    | noVersion h => exact Secret.currentKey_of_metadata_eq_none h
    | versionZero h hversion => exact Secret.currentKey_of_version_eq_zero h hversion
    | noKey h hversion hblank =>
      rw [Secret.currentKey_of_version_ne_zero h hversion]
      rcases w.material_cases path keyName with ⟨material, -, hlast, hother⟩ | ⟨hmaterial, -⟩
      · exact absurd ((hblank material hlast).symm.trans hother) (by simp)
      · rw [hmaterial]
        rfl
    | key h hversion hlast hblank =>
      rw [Secret.currentKey_of_version_ne_zero h hversion]
      rcases w.material_cases path keyName with ⟨other, hmaterial, hother, -⟩ | ⟨-, hnot⟩
      · have hlookup := lookup_attributes_eq_some_iff.mpr hother
        obtain rfl := Option.some.inj
          (hlookup.symm.trans (lookup_attributes_eq_some_iff.mpr hlast))
        rw [hmaterial]
        rfl
      · exact absurd ((hnot _ hlast).symm.trans hblank) (by simp)
  · rintro rfl
    rcases hmetadata : w.metadata with _ | metadata
    · rw [Secret.currentKey_of_metadata_eq_none hmetadata]
      exact .noVersion hmetadata
    · by_cases hversion : metadata.version = 0
      · rw [Secret.currentKey_of_version_eq_zero hmetadata hversion]
        exact .versionZero hmetadata hversion
      · rw [Secret.currentKey_of_version_ne_zero hmetadata hversion]
        rcases w.material_cases path keyName with ⟨material, hmaterial, hlast, hblank⟩ |
          ⟨hmaterial, hblank⟩
        · exact hmaterial ▸ .key hmetadata hversion hlast hblank
        · exact hmaterial ▸ .noKey hmetadata hversion hblank

end WrittenSecret

theorem readSecretData?_eq_some_iff {j : Json} {secret : Secret} :
    readSecretData? j = some secret ↔ ∃ w, IsSecret j w ∧ w.secret = secret := by
  constructor
  · intro h
    rw [readSecretData?] at h
    split at h
    next inner outer hvalues =>
      simp only [Option.bind_eq_bind, Option.bind_eq_some_iff, Option.some.injEq] at h
      obtain ⟨map, hmap, metadata, hmetadata, rfl⟩ := h
      obtain ⟨attributes, hattributes, rfl⟩ := Json.says_map_iff.mp
        ((Json.optional_eq_some_iff (fun _ _ => map?_readAttribute?_eq_some_iff) rfl).mp hmap)
      have hmetadata :=
        (Json.optional_eq_some_iff (fun _ _ => readMetadata?_eq_some_iff) rfl).mp hmetadata
      refine ⟨⟨attributes.getD [], metadata⟩, ⟨inner, outer, attributes,
        Json.record?_eq_some_iff.mp hvalues, hattributes, hmetadata, rfl⟩, ?_⟩
      cases attributes <;> rfl
    next => exact absurd h (by simp)
  · rintro ⟨⟨_, metadata⟩, ⟨inner, outer, attributes, hfields, hattributes, hmetadata, rfl⟩, rfl⟩
    rw [readSecretData?, Json.record?_eq_some_iff.mpr hfields]
    have hmap := (Json.optional_eq_some_iff (fun _ _ => map?_readAttribute?_eq_some_iff) rfl).mpr
      (Json.says_map_iff.mpr ⟨attributes, hattributes, rfl⟩)
    have hmetadata :=
      (Json.optional_eq_some_iff (fun _ _ => readMetadata?_eq_some_iff) rfl).mpr hmetadata
    simp only [hmap, hmetadata, Option.bind_eq_bind, Option.bind_some]
    cases attributes <;> rfl

/-- A read is answered with the secret that the body tells of. -/
theorem readSecret_eq_ok_iff {secret : Secret} :
    readSecret body = .ok secret ↔ ∃ w, HasPart "data" IsSecret body w ∧ w.secret = secret := by
  have hread : ∀ value secret, readSecretData? value = some secret ↔
      ∃ w, IsSecret value w ∧ w.secret = secret := fun _ _ => readSecretData?_eq_some_iff
  have hpart : HasPart "data" (fun j secret => ∃ w, IsSecret j w ∧ w.secret = secret) body secret ↔
      ∃ w, HasPart "data" IsSecret body w ∧ w.secret = secret := by
    constructor
    · rintro ⟨document, inner, hdocument, hfields, w, hw, rfl⟩
      exact ⟨w, ⟨document, inner, hdocument, hfields, hw⟩, rfl⟩
    · rintro ⟨w, ⟨document, inner, hdocument, hfields, hw⟩, rfl⟩
      exact ⟨document, inner, hdocument, hfields, w, hw, rfl⟩
  refine Iff.trans ?_ ((part_eq_some_iff hread).trans hpart)
  rw [readSecret]
  split
  next own hown =>
    exact ⟨fun h => Except.ok.inj h ▸ hown,
      fun h => congrArg Except.ok (Option.some.inj (hown.symm.trans h))⟩
  next hnone =>
    exact ⟨fun h => absurd h (by simp), fun h => absurd (hnone.symm.trans h) (by simp)⟩

theorem eq_of_readSecret_eq_error {e : VaultError} (h : readSecret body = .error e) :
    e = .malformed .readBody := by
  rw [readSecret] at h
  split at h
  · exact absurd h (by simp)
  · exact (Except.error.inj h).symm

/-- What the body of an answer to a read tells: the key of a secret, or what is wrong with it. -/
inductive ReadTells (path keyName body : String) : Except AnswerFault KeyVersion → Prop where
  | told {w : WrittenSecret} {r : Except AnswerFault KeyVersion}
      (h : HasPart "data" IsSecret body w) (htells : w.Tells path keyName r) :
      ReadTells path keyName body r
  | senseless (h : ∀ w, ¬ HasPart "data" IsSecret body w) :
      ReadTells path keyName body (.error .readBody)

variable {path keyName : String} {r r' : Except AnswerFault KeyVersion}

/-- **A read is answered with the key that its body tells of.** -/
theorem readTells_iff_of_ok {secret : Secret} (h : readSecret body = .ok secret) :
    ReadTells path keyName body r ↔ secret.currentKey path keyName = r := by
  constructor
  · intro htells
    cases htells with
    | told hw htells =>
      obtain rfl := Except.ok.inj ((readSecret_eq_ok_iff.mpr ⟨_, hw, rfl⟩).symm.trans h)
      exact WrittenSecret.tells_iff.mp htells
    | senseless hnone =>
      obtain ⟨w, hw, -⟩ := readSecret_eq_ok_iff.mp h
      exact absurd hw (hnone w)
  · intro hkey
    obtain ⟨w, hw, rfl⟩ := readSecret_eq_ok_iff.mp h
    exact .told hw (WrittenSecret.tells_iff.mpr hkey)

/-- A body that is no answer to a read tells just that. -/
theorem readTells_iff_of_error {e : VaultError} (h : readSecret body = .error e) :
    ReadTells path keyName body r ↔ r = .error .readBody := by
  have hnone (w : WrittenSecret) : ¬ HasPart "data" IsSecret body w := fun hw =>
    absurd ((readSecret_eq_ok_iff.mpr ⟨w, hw, rfl⟩).symm.trans h) (by simp)
  constructor
  · intro htells
    cases htells with
    | told hw _ => exact absurd hw (hnone _)
    | senseless _ => rfl
  · rintro rfl
    exact .senseless hnone

theorem ReadTells.unique (h : ReadTells path keyName body r)
    (h' : ReadTells path keyName body r') : r = r' := by
  cases hread : readSecret body with
  | ok secret =>
    rw [readTells_iff_of_ok hread] at h h'
    exact h.symm.trans h'
  | error e =>
    rw [readTells_iff_of_error hread] at h h'
    exact h.trans h'.symm

end TopicCipher.Vault
