import TopicCipher.Proofs.Envelope.Headers
import TopicCipher.Proofs.Json.Records
import TopicCipher.Proofs.Version

/-!
# Two layouts, one envelope

A message says the version and the name of its key in headers of their own or in a descriptor, which
is JSON written by somebody else.  This module compares the two.

What has to be said first is what a descriptor is, without the reader: a list of one object with one
key, whose value is a record with a version and perhaps a name (`Describes`).  JSON leaves some
freedom in how to write that.  The record may be an object or an array, a field may be missing or
null, the version may be a number or a text with blanks around it, and the one key of the object may
be repeated.  The reader accepts all of these and nothing else, so every other value is refused.

From there on both layouts are the same: they say a vector, a version and a name.

* `ofJson?_eq_some_iff`, `readDescriptor_eq_ok_iff`: what a descriptor is, in two steps.
* `toEnvelope_described_eq_ok_iff`: the envelopes from a descriptor.
* `layouts_agree`: the comparison.
-/

namespace TopicCipher.Headers

/-! ## Records -/

/-- The fields of a descriptor as they are written, each with its value if it is there. -/
inductive Descriptor.Written : Json → (version versionText name : Option Json) → Prop where
  /-- An object may have other fields too, but none of these twice. -/
  | object {fields : List (Option String × Json)} {version versionText name : Option Json}
      (hnames : ∀ field ∈ fields, field.1 ≠ none)
      (hversion : Json.Once fields "cipherVersion" version)
      (hversionText : Json.Once fields "cipherVersionString" versionText)
      (hname : Json.Once fields "cipherName" name) :
      Written (.object fields) version versionText name
  /-- An array has just the three, in this order. -/
  | array (version versionText name : Json) :
      Written (.array [version, versionText, name]) (some version) (some versionText) (some name)

/-- The JSON value is written like this descriptor. -/
def Descriptor.IsRead (j : Json) (d : Descriptor) : Prop :=
  ∃ version versionText name, Written j version versionText name ∧
    Json.Says Json.IsWord version d.version ∧ Json.Says Json.IsText versionText d.versionText ∧
    Json.Says Json.IsText name d.name

/-- The reader of records with the fields of a descriptor. -/
def Descriptor.fields? (j : Json) : Option (List (Option Json)) :=
  j.record? ["cipherVersion", "cipherVersionString", "cipherName"] 3

theorem Descriptor.fields?_eq_some_iff {j : Json} {values : List (Option Json)} :
    fields? j = some values ↔
      ∃ version versionText name, Written j version versionText name ∧
        values = [version, versionText, name] := by
  rw [fields?, Json.record?_eq_some_iff]
  constructor
  · intro h
    cases h with
    | object hnames hvalues =>
      obtain _ | ⟨hversion, _ | ⟨hversionText, _ | ⟨hname, _ | _⟩⟩⟩ := hvalues
      exact ⟨_, _, _, .object hnames hversion hversionText hname, rfl⟩
    | @array items missing hminimum hlength =>
      have hthree : items.length = 3 ∧ missing = 0 := by
        simp only [List.length_cons, List.length_nil] at hlength
        omega
      obtain ⟨version, versionText, name, rfl⟩ := List.length_eq_three.mp hthree.1
      obtain rfl := hthree.2
      exact ⟨_, _, _, .array version versionText name, rfl⟩
  · rintro ⟨version, versionText, name, hwritten, rfl⟩
    cases hwritten with
    | object hnames hversion hversionText hname =>
      exact .object hnames (.cons hversion (.cons hversionText (.cons hname .nil)))
    | array version versionText name =>
      exact Json.fields_array le_rfl rfl

/-- **What a descriptor is.** -/
theorem Descriptor.ofJson?_eq_some_iff {j : Json} {d : Descriptor} :
    ofJson? j = some d ↔ IsRead j d := by
  have hfields : ofJson? j = some d ↔ ∃ version versionText name,
      fields? j = some [version, versionText, name] ∧
      Json.optional Json.word32? version = some d.version ∧
      Json.optional Json.text? versionText = some d.versionText ∧
      Json.optional Json.text? name = some d.name := by
    rw [ofJson?, ← fields?]
    rcases hvalues : fields? j with _ | values
    · simp
    · obtain ⟨version, versionText, name, -, rfl⟩ := fields?_eq_some_iff.mp hvalues
      obtain ⟨ownVersion, ownText, ownName⟩ := d
      simp [Option.bind_eq_some_iff]
  rw [hfields, IsRead]
  simp only [fields?_eq_some_iff, Json.optional_word32?_eq_some_iff,
    Json.optional_text?_eq_some_iff]
  constructor
  · rintro ⟨version, versionText, name, ⟨_, _, _, hwritten, hsame⟩, hsays⟩
    obtain ⟨rfl, rfl, rfl⟩ : version = _ ∧ versionText = _ ∧ name = _ := by simpa using hsame
    exact ⟨version, versionText, name, hwritten, hsays⟩
  · rintro ⟨version, versionText, name, hwritten, hsays⟩
    exact ⟨version, versionText, name, ⟨_, _, _, hwritten, rfl⟩, hsays⟩

/-! ## Descriptors -/

/-- The document is a list of one object with one key, whose value is this descriptor.  The key may
be repeated.  Then its last value counts, and the others have to be descriptors too. -/
def IsOnly (document : Json) (d : Descriptor) : Prop :=
  ∃ above key value, document = .array [.object (above ++ [(some key, value)])] ∧
    (∀ field ∈ above, field.1 = some key ∧ ∃ other, Descriptor.IsRead field.2 other) ∧
    Descriptor.IsRead value d

theorem descriptors?_eq_some_iff {value : Bytes} {d : Descriptor} :
    (∃ key, descriptors? value = some [[(key, d)]]) ↔
      ∃ document, Json.ofBytes? value = some document ∧ IsOnly document d := by
  simp only [descriptors?, Option.bind_eq_some_iff, Json.items?_eq_singleton_iff,
    Json.map?_eq_singleton_iff, Descriptor.ofJson?_eq_some_iff, IsOnly]
  constructor
  · rintro ⟨key, document, hdocument, _, rfl, above, last, rfl, habove, hlast⟩
    exact ⟨_, hdocument, above, key, last, rfl, habove, hlast⟩
  · rintro ⟨_, hdocument, above, key, last, rfl, habove, hlast⟩
    exact ⟨key, _, hdocument, _, rfl, above, last, rfl, habove, hlast⟩

/-- A header's value is read as a descriptor exactly if it holds a single one. -/
theorem readDescriptor_eq_ok_iff {value : Bytes} {d : Descriptor} :
    readDescriptor value = .ok d ↔
      ∃ document, Json.ofBytes? value = some document ∧ IsOnly document d := by
  rw [← descriptors?_eq_some_iff, readDescriptor]
  rcases descriptors? value with _ |
    ⟨_ | ⟨_ | ⟨⟨key, own⟩, _ | ⟨next, fields⟩⟩, _ | ⟨other, list⟩⟩⟩ <;> simp [eq_comm]

/-- The descriptor has the version: as a number, or as a text with blanks around it and no
number. -/
def Descriptor.HasVersion (d : Descriptor) (v : Version) : Prop :=
  d.version = some v ∨ d.version = none ∧
    ∃ text, d.versionText = some text ∧ Version.Spells (Text.trimChars text.toList) v

theorem Descriptor.keyVersion_eq_ok_iff {d : Descriptor} {v : Version} :
    d.keyVersion = .ok v ↔ d.HasVersion v := by
  obtain ⟨version, versionText, name⟩ := d
  simp only [keyVersion, HasVersion, ← Version.read?_eq_some_iff]
  rcases version with _ | own
  · rcases versionText with _ | text
    · simp
    · cases hread : Version.read? (Text.trimChars text.toList) <;> simp [hread]
  · simp

/-- **The header's value describes a version and a name**: it holds a single descriptor, which has
them. -/
def Describes (value : Bytes) (v : Version) (name : Option String) : Prop :=
  ∃ document d, Json.ofBytes? value = some document ∧ IsOnly document d ∧
    d.HasVersion v ∧ d.name = name

theorem describes_iff {value : Bytes} {v : Version} {name : Option String} :
    Describes value v name ↔
      ∃ d, readDescriptor value = .ok d ∧ d.keyVersion = .ok v ∧ d.name = name := by
  simp only [Describes, readDescriptor_eq_ok_iff, Descriptor.keyVersion_eq_ok_iff]
  constructor
  · rintro ⟨document, d, hdocument, honly, hversion, hname⟩
    exact ⟨d, ⟨document, hdocument, honly⟩, hversion, hname⟩
  · rintro ⟨d, ⟨document, hdocument, honly⟩, hversion, hname⟩
    exact ⟨document, d, hdocument, honly, hversion, hname⟩

/-! ## Two layouts -/

/-- The headers of the descriptor layout, with a name in a header of its own or without. -/
def described (iv value : Bytes) (name : Option String) : List (String × Bytes) :=
  (ivHeader, iv) :: (descriptorHeader, value) :: nameHeaders name

theorem isReadable_of_mem_described {iv value : Bytes} {name : Option String}
    {header : String × Bytes} (h : header ∈ described iv value name) : IsReadable header := by
  rcases List.mem_cons.mp h with rfl | h
  · exact isReadable_of_ne (show ivHeader ≠ versionHeader by decide)
      (show ivHeader ≠ keyNameHeader by decide)
  rcases List.mem_cons.mp h with rfl | h
  · exact isReadable_of_ne (show descriptorHeader ≠ versionHeader by decide)
      (show descriptorHeader ≠ keyNameHeader by decide)
  · exact isReadable_of_mem_nameHeaders h

/-- No header is there twice. -/
theorem nodup_described (iv value : Bytes) (name : Option String) :
    ((described iv value name).map (·.1)).Nodup := by
  cases name <;> simp [described, nameHeaders, ivHeader, descriptorHeader, keyNameHeader]

theorem said_described (iv value : Bytes) (name : Option String) :
    said (described iv value name) = ⟨some iv, none, name, some value⟩ := by
  cases name <;>
    simp [said, described, nameHeaders, last?, ivHeader, versionHeader, keyNameHeader,
      descriptorHeader, toOption_readText_ofText]

/-- Where a vector and a descriptor were found, but no version, the descriptor decides. -/
theorem Found.envelope_described_eq_ok_iff {payload iv value : Bytes} {name : Option String}
    {e : Envelope} :
    Found.envelope ⟨some iv, none, name, some value⟩ payload = .ok e ↔
      ∃ v own, Describes value v own ∧ e = ⟨payload, some iv, v, name.or own⟩ := by
  simp only [Found.envelope_eq_ok_iff, Found.key, describes_iff, bind_eq_ok_iff]
  constructor
  · rintro (⟨-, hiv, -⟩ | ⟨v, keyName, _, ⟨d, hd, v', hv, hkey⟩, hiv, rfl⟩)
    · exact absurd hiv (Option.some_ne_none iv)
    · simp only [Except.ok.injEq, Option.some.injEq, Prod.mk.injEq] at hkey
      obtain ⟨rfl, rfl⟩ := hkey
      obtain rfl := Option.some.inj hiv
      exact ⟨v', d.name, ⟨d, hd, hv, rfl⟩, rfl⟩
  · rintro ⟨v, _, ⟨d, hd, hv, rfl⟩, rfl⟩
    exact .inr ⟨v, name.or d.name, iv, ⟨d, hd, v, hv, rfl⟩, rfl, rfl⟩

/-- **The envelopes from a descriptor** have what it describes, and a name in a header of its own
goes before. -/
theorem toEnvelope_described_eq_ok_iff {payload iv value : Bytes} {name : Option String}
    {headers : List (String × Bytes)} {e : Envelope}
    (hperm : headers.Perm (described iv value name)) :
    toEnvelope payload headers = .ok e ↔
      ∃ v own, Describes value v own ∧ e = ⟨payload, some iv, v, name.or own⟩ := by
  have hreadable : ∀ header ∈ headers, IsReadable header := fun header hmem =>
    isReadable_of_mem_described (hperm.mem_iff.mp hmem)
  rw [toEnvelope_eq_ok_iff, said_of_perm_of_nodup hperm (nodup_described iv value name),
    said_described, Found.envelope_described_eq_ok_iff]
  exact and_iff_right hreadable

/-- The envelope from the discrete layout, also from an empty vector or version zero. -/
theorem toEnvelope_discrete (payload : Bytes) {iv : Bytes} {v : Version} {name : Option String}
    {headers : List (String × Bytes)} (hperm : headers.Perm (discrete iv v name)) :
    toEnvelope payload headers = .ok ⟨payload, some iv, v, name⟩ := by
  refine toEnvelope_eq_ok_iff.mpr ⟨fun header hmem => ?_, ?_⟩
  · exact isReadable_of_mem_discrete (hperm.mem_iff.mp hmem)
  · rw [said_of_perm_of_nodup hperm (nodup_discrete iv v name), said_discrete]
    exact Found.envelope_eq_ok_iff.mpr (.inr ⟨v, name, iv, rfl, rfl, rfl⟩)

/-- A name that is no text is refused, wherever it stands and whatever else is said. -/
theorem toEnvelope_ne_ok_of_toText?_eq_none {payload raw : Bytes} {headers : List (String × Bytes)}
    (hmem : (keyNameHeader, raw) ∈ headers) (hraw : Bytes.toText? raw = none) (e : Envelope) :
    toEnvelope payload headers ≠ .ok e := by
  intro h
  obtain ⟨text, htext⟩ := isOk_iff.mp (((toEnvelope_eq_ok_iff.mp h).1 _ hmem).2 rfl)
  rw [readText, hraw] at htext
  exact absurd htext (by simp)

/-- **The two layouts agree.**  Where the value of a header describes a version and a name, it makes
the same envelope as the two in headers of their own.  A name in a header beside the value goes
before the one in it.  A value that describes nothing makes no envelope, and the headers are
malformed; so they are when the name beside it is no text. -/
theorem layouts_agree (payload iv value : Bytes) :
    (∀ v name, Describes value v name → ∀ one other : List (String × Bytes),
      one.Perm (described iv value none) → other.Perm (discrete iv v name) →
        toEnvelope payload one = .ok ⟨payload, some iv, v, name⟩ ∧
          toEnvelope payload other = .ok ⟨payload, some iv, v, name⟩) ∧
    (∀ v name own, Describes value v name → ∀ one : List (String × Bytes),
      one.Perm (described iv value (some own)) →
        toEnvelope payload one = .ok ⟨payload, some iv, v, some own⟩) ∧
    ((∀ v name, ¬ Describes value v name) → ∀ one : List (String × Bytes),
      one.Perm (described iv value none) →
        ∃ fault, toEnvelope payload one = .error (.headers fault)) ∧
    ∀ raw, Bytes.toText? raw = none → ∀ one : List (String × Bytes),
      one.Perm ((keyNameHeader, raw) :: described iv value none) →
        ∃ fault, toEnvelope payload one = .error (.headers fault) := by
  refine ⟨fun v name hvalue one other hone hother => ⟨?_, toEnvelope_discrete payload hother⟩,
    fun v name own hvalue one hone => ?_, fun hvalue one hone => ?_, fun raw hraw one hone => ?_⟩
  · exact (toEnvelope_described_eq_ok_iff hone).mpr ⟨v, name, hvalue, rfl⟩
  · exact (toEnvelope_described_eq_ok_iff hone).mpr ⟨v, name, hvalue, rfl⟩
  · refine exists_mapError_eq_error fun e he => ?_
    obtain ⟨v, name, hdescribes, -⟩ := (toEnvelope_described_eq_ok_iff hone).mp he
    exact hvalue v name hdescribes
  · exact exists_mapError_eq_error fun e =>
      toEnvelope_ne_ok_of_toText?_eq_none (hone.mem_iff.mpr List.mem_cons_self) hraw e

/-- A descriptor that is written with every freedom: its key is repeated, and the value that counts
is an array with the version as a text, with a sign and blanks. -/
def looseValue : Bytes :=
  Bytes.ofText "[\x7b\"k\":\x7b\"cipherVersion\":5\x7d,\"k\":[null,\" +07 \",\"primary\"]\x7d]"

/-- Two descriptors, each with a key of its own. -/
def doubleValue : Bytes :=
  Bytes.ofText "[\x7b\"k\":\x7b\"cipherVersion\":5\x7d,\"m\":\x7b\"cipherVersion\":5\x7d\x7d]"

/-- The first is read as version seven, in any order of the headers, and the second is refused. -/
theorem layouts_agree_looseValue :
    toEnvelope [9] [(descriptorHeader, looseValue), (ivHeader, [1])] =
      .ok ⟨[9], some [1], 7, some "primary"⟩ ∧
    toEnvelope [9] [(keyNameHeader, []), (ivHeader, [1]), (descriptorHeader, looseValue)] =
      .ok ⟨[9], some [1], 7, some ""⟩ ∧
    (∃ fault, toEnvelope [9] (described [1] doubleValue none) = .error (.headers fault)) ∧
    ∃ fault, toEnvelope [9] ((keyNameHeader, [0xFF]) :: described [1] looseValue none) =
      .error (.headers fault) := by
  have hloose : Describes looseValue 7 (some "primary") :=
    describes_iff.mpr ⟨⟨none, some " +07 ", some "primary"⟩, by decide +kernel,
      by decide +kernel, rfl⟩
  have hdouble : ∀ v name, ¬ Describes doubleValue v name := fun v name h => by
    obtain ⟨d, hd, -, -⟩ := describes_iff.mp h
    have hfault : readDescriptor doubleValue = .error (.descriptorKeys descriptorHeader) := by
      decide +kernel
    exact absurd (hfault.symm.trans hd) (by simp)
  obtain ⟨hsame, hname, -, hraw⟩ := layouts_agree [9] [1] looseValue
  obtain ⟨-, -, hrefused, -⟩ := layouts_agree [9] [1] doubleValue
  exact ⟨(hsame 7 _ hloose _ _ (by decide +kernel) (.refl _)).1,
    hname 7 _ "" hloose _ (by decide +kernel), hrefused hdouble _ (.refl _),
    hraw [0xFF] (by decide +kernel) _ (.refl _)⟩

end TopicCipher.Headers
