import Mathlib.Data.List.Nodup
import TopicCipher.Envelope.Headers
import TopicCipher.Proofs.Blank
import TopicCipher.Proofs.Results

/-!
# What headers say together

The reader of headers goes through them once and keeps what it found.  What it has found in the end
does not depend on how the headers are mixed: of each name it is the last value (`last?`).  It gets
to the end exactly if every discrete version and every discrete attribute can be read, also those
that a later header replaces.

* `foldlM_add_eq_ok_iff`: the loop of the reader, in closed form.
* `Found.envelope_eq_ok_iff`: the two shapes of an envelope from headers.
* `exists_parts_of_toEnvelope`: headers that are there are not forgotten.
* `last?_of_perm`: the last value of a name that is there once does not depend on the order.
* `toEnvelope_of_perm`: what is written in headers reads back, in any order and in any company.
-/

namespace TopicCipher.Headers

/-- The value of the last header with a name. -/
def last? (name : String) (headers : List (String × Bytes)) : Option Bytes :=
  (headers.filter (·.1 = name)).getLast?.map (·.2)

theorem last?_concat (name : String) (headers : List (String × Bytes)) (header : String × Bytes) :
    last? name (headers ++ [header]) =
      if header.1 = name then some header.2 else last? name headers := by
  rw [last?, List.filter_append]
  by_cases h : header.1 = name <;> simp [h, last?]

theorem isSome_last?_iff {name : String} {headers : List (String × Bytes)} :
    (last? name headers).isSome = true ↔ ∃ header ∈ headers, header.1 = name := by
  rw [last?, Option.isSome_map, List.getLast?_isSome]
  simp [List.filter_eq_nil_iff]

theorem mem_of_last? {name : String} {headers : List (String × Bytes)} {value : Bytes}
    (h : last? name headers = some value) : (name, value) ∈ headers := by
  obtain ⟨⟨name', value⟩, hlast, rfl⟩ := Option.map_eq_some_iff.mp h
  obtain ⟨hmem, hname⟩ := List.mem_filter.mp (List.mem_of_getLast? hlast)
  obtain rfl : name' = name := by simpa using hname
  exact hmem

/-! ## The loop -/

/-- The header is no discrete version or attribute, or it is one that can be read. -/
def IsReadable (header : String × Bytes) : Prop :=
  (header.1 = versionHeader → (readVersion header.2).isOk = true) ∧
    (header.1 = keyNameHeader → (readText keyNameHeader header.2).isOk = true)

/-- What one more readable header says. -/
def Found.take (found : Found) (header : String × Bytes) : Found where
  iv := if header.1 = ivHeader then some header.2 else found.iv
  version := if header.1 = versionHeader then (readVersion header.2).toOption else found.version
  keyName :=
    if header.1 = keyNameHeader then (readText keyNameHeader header.2).toOption else found.keyName
  descriptor := if header.1 = descriptorHeader then some header.2 else found.descriptor

/-- What headers say when all of them are readable. -/
def said (headers : List (String × Bytes)) : Found where
  iv := last? ivHeader headers
  version := (last? versionHeader headers).bind fun value => (readVersion value).toOption
  keyName := (last? keyNameHeader headers).bind fun value =>
    (readText keyNameHeader value).toOption
  descriptor := last? descriptorHeader headers

theorem said_concat (headers : List (String × Bytes)) (header : String × Bytes) :
    said (headers ++ [header]) = (said headers).take header := by
  simp only [said, Found.take, last?_concat, Found.mk.injEq, true_and, and_true]
  constructor <;> split <;> rfl

/-- One step of the loop. -/
theorem Found.add_eq_ok_iff {found found' : Found} {header : String × Bytes} :
    found.add header = .ok found' ↔ IsReadable header ∧ found' = found.take header := by
  obtain ⟨name, value⟩ := header
  unfold add IsReadable take
  by_cases hiv : name = ivHeader
  · subst hiv
    simp [show ivHeader ≠ versionHeader by decide, show ivHeader ≠ keyNameHeader by decide,
      show ivHeader ≠ descriptorHeader by decide, @eq_comm _ found']
  by_cases hversion : name = versionHeader
  · subst hversion
    cases readVersion value <;>
      simp [hiv, show versionHeader ≠ keyNameHeader by decide,
        show versionHeader ≠ descriptorHeader by decide, isOk_iff, Except.toOption,
        @eq_comm _ found']
  by_cases hname : name = keyNameHeader
  · subst hname
    cases readText keyNameHeader value <;>
      simp [hiv, hversion, show keyNameHeader ≠ descriptorHeader by decide, isOk_iff,
        Except.toOption, @eq_comm _ found']
  by_cases hdescriptor : name = descriptorHeader
  · subst hdescriptor
    simp [hiv, hversion, hname, @eq_comm _ found']
  · simp [hiv, hversion, hname, hdescriptor, @eq_comm _ found']

/-- **The loop of the reader in closed form**: it ends exactly if all headers are readable, and
then has found the last value of each name. -/
theorem foldlM_add_eq_ok_iff {headers : List (String × Bytes)} {found : Found} :
    headers.foldlM Found.add .nothing = .ok found ↔
      (∀ header ∈ headers, IsReadable header) ∧ found = said headers := by
  induction headers using List.reverseRecOn generalizing found with
  | nil =>
    show Except.ok Found.nothing = .ok found ↔ _
    simp [said, last?, Found.nothing, eq_comm]
  | append_singleton headers header ih =>
    have hstep : (headers ++ [header]).foldlM Found.add .nothing = .ok found ↔
        ∃ before, headers.foldlM Found.add .nothing = .ok before ∧
          before.add header = .ok found := by
      rw [List.foldlM_append, bind_eq_ok_iff]
      simp only [List.foldlM_cons, List.foldlM_nil, bind_pure]
    rw [hstep, said_concat, List.forall_mem_append, List.forall_mem_singleton]
    constructor
    · rintro ⟨before, hbefore, hadd⟩
      obtain ⟨hreadable, rfl⟩ := ih.mp hbefore
      obtain ⟨hlast, rfl⟩ := Found.add_eq_ok_iff.mp hadd
      exact ⟨⟨hreadable, hlast⟩, rfl⟩
    · rintro ⟨⟨hreadable, hlast⟩, rfl⟩
      exact ⟨said headers, ih.mpr ⟨hreadable, rfl⟩, Found.add_eq_ok_iff.mpr ⟨hlast, rfl⟩⟩

/-! ## The envelope -/

/-- No header names a version exactly if neither the discrete one nor a descriptor is there. -/
theorem Found.key_eq_ok_none_iff {found : Found} :
    found.key = .ok none ↔ found.version = none ∧ found.descriptor = none := by
  unfold Found.key
  rcases found.version with _ | v
  · rcases found.descriptor with _ | value
    · simp
    · simp
  · simp

/-- An envelope from headers is plaintext because the headers name neither version nor vector, or
it has both. -/
theorem Found.envelope_eq_ok_iff {found : Found} {payload : Bytes} {envelope : Envelope} :
    found.envelope payload = .ok envelope ↔
      (found.key = .ok none ∧ found.iv = none ∧ envelope = .plaintext payload) ∨
      ∃ v keyName iv, found.key = .ok (some (v, keyName)) ∧ found.iv = some iv ∧
        envelope = ⟨payload, some iv, v, keyName⟩ := by
  unfold Found.envelope
  rcases found.key with fault | _ | ⟨v, keyName⟩ <;> rcases found.iv with _ | iv <;>
    simp [@eq_comm _ _ envelope]

theorem toEnvelope_eq_ok_iff {payload : Bytes} {headers : List (String × Bytes)}
    {envelope : Envelope} :
    toEnvelope payload headers = .ok envelope ↔
      (∀ header ∈ headers, IsReadable header) ∧
        (said headers).envelope payload = .ok envelope := by
  rw [toEnvelope, mapError_eq_ok_iff, bind_eq_ok_iff]
  constructor
  · rintro ⟨found, hfold, henvelope⟩
    obtain ⟨hreadable, rfl⟩ := foldlM_add_eq_ok_iff.mp hfold
    exact ⟨hreadable, henvelope⟩
  · rintro ⟨hreadable, henvelope⟩
    exact ⟨said headers, foldlM_add_eq_ok_iff.mpr ⟨hreadable, rfl⟩, henvelope⟩

/-- Holds of header lists with a vector, a discrete version or a descriptor. -/
def Carries (headers : List (String × Bytes)) : Prop :=
  ∃ header ∈ headers,
    header.1 = ivHeader ∨ header.1 = versionHeader ∨ header.1 = descriptorHeader

/-- Where crypto headers are and all headers are readable, something was found. -/
theorem said_ne_nothing {headers : List (String × Bytes)} (hcarries : Carries headers)
    (hreadable : ∀ header ∈ headers, IsReadable header) :
    (said headers).iv ≠ none ∨ (said headers).key ≠ .ok none := by
  obtain ⟨header, hmem, hname⟩ := hcarries
  have hlast {name : String} (h : header.1 = name) : last? name headers ≠ none :=
    Option.isSome_iff_ne_none.mp (isSome_last?_iff.mpr ⟨header, hmem, h⟩)
  rcases hname with hiv | hversion | hdescriptor
  · exact .inl (hlast hiv)
  · refine .inr fun hkey => ?_
    obtain ⟨hnone, -⟩ := Found.key_eq_ok_none_iff.mp hkey
    obtain ⟨value, hvalue⟩ := Option.ne_none_iff_exists'.mp (hlast hversion)
    obtain ⟨v, hv⟩ := isOk_iff.mp ((hreadable _ (mem_of_last? hvalue)).1 rfl)
    simp only [said, hvalue, Option.bind_some, hv, Except.toOption] at hnone
    exact absurd hnone (Option.some_ne_none v)
  · refine .inr fun hkey => ?_
    obtain ⟨-, hnone⟩ := Found.key_eq_ok_none_iff.mp hkey
    exact hlast hdescriptor hnone

/-- **Headers that are there are not forgotten**: an envelope from headers that carry anything has
the last vector and the version that the headers name. -/
theorem exists_parts_of_toEnvelope {payload : Bytes} {headers : List (String × Bytes)}
    {envelope : Envelope} (hcarries : Carries headers)
    (h : toEnvelope payload headers = .ok envelope) :
    ∃ v keyName iv, (said headers).key = .ok (some (v, keyName)) ∧
      last? ivHeader headers = some iv ∧ envelope = ⟨payload, some iv, v, keyName⟩ := by
  obtain ⟨hreadable, henvelope⟩ := toEnvelope_eq_ok_iff.mp h
  rcases Found.envelope_eq_ok_iff.mp henvelope with ⟨hkey, hiv, -⟩ | hparts
  · rcases said_ne_nothing hcarries hreadable with hne | hne
    · exact absurd hiv hne
    · exact absurd hkey hne
  · exact hparts

/-! ## Writing -/

theorem readText_ofText (header text : String) :
    readText header (Bytes.ofText text) = .ok text := by
  rw [readText, Bytes.toText?_ofText]

theorem toOption_readText_ofText (header text : String) :
    (readText header (Bytes.ofText text)).toOption = some text := by
  rw [readText_ofText]
  rfl

theorem readVersion_ofText (v : Version) : readVersion (Bytes.ofText v.text) = .ok v := by
  have htrim : Text.trimChars v.text.toList = v.digits := by
    have hnot : ∀ c ∈ v.digits, Text.isBlank c = false := fun c hc =>
      Text.isBlank_of_isDigit (Version.isDigit_of_mem_digits hc)
    rw [Version.text, String.toList_ofList, Text.trimChars, List.dropWhile_eq_self_iff.mpr
      (fun hne => by simp [hnot _ (List.getElem_mem hne)]), Text.dropEndWhile_eq_self hnot]
  refine bind_eq_ok_iff.mpr ⟨v.text, readText_ofText _ _, ?_⟩
  rw [htrim, Version.read?_digits]

/-- The header of a key name, if there is one. -/
def nameHeaders (name : Option String) : List (String × Bytes) :=
  (name.map fun text => (keyNameHeader, Bytes.ofText text)).toList

/-- The headers of the discrete layout. -/
def discrete (iv : Bytes) (v : Version) (name : Option String) : List (String × Bytes) :=
  (ivHeader, iv) :: (versionHeader, Bytes.ofText v.text) :: nameHeaders name

/-- What is written is the discrete layout. -/
theorem ofEnvelope_eq_discrete {e : Envelope} {iv : Bytes} (h : e.cipherIv? = some iv) :
    ofEnvelope e = discrete iv e.version e.keyName := by
  rw [ofEnvelope, h]
  rfl

/-- A header that is neither a version nor a name need not be readable. -/
theorem isReadable_of_ne {header : String × Bytes} (hversion : header.1 ≠ versionHeader)
    (hname : header.1 ≠ keyNameHeader) : IsReadable header :=
  ⟨fun h => absurd h hversion, fun h => absurd h hname⟩

theorem isReadable_of_mem_nameHeaders {name : Option String} {header : String × Bytes}
    (h : header ∈ nameHeaders name) : IsReadable header := by
  obtain ⟨text, -, rfl⟩ := Option.map_eq_some_iff.mp (Option.mem_toList.mp h)
  exact ⟨fun hname => absurd hname (show keyNameHeader ≠ versionHeader by decide),
    fun _ => isOk_iff.mpr ⟨text, readText_ofText _ _⟩⟩

theorem isReadable_of_mem_discrete {iv : Bytes} {v : Version} {name : Option String}
    {header : String × Bytes} (h : header ∈ discrete iv v name) : IsReadable header := by
  rcases List.mem_cons.mp h with rfl | h
  · exact isReadable_of_ne (show ivHeader ≠ versionHeader by decide)
      (show ivHeader ≠ keyNameHeader by decide)
  rcases List.mem_cons.mp h with rfl | h
  · exact ⟨fun _ => isOk_iff.mpr ⟨v, readVersion_ofText _⟩,
      fun hname => absurd hname (show versionHeader ≠ keyNameHeader by decide)⟩
  · exact isReadable_of_mem_nameHeaders h

/-- What is written in headers can be read. -/
theorem isReadable_of_mem_ofEnvelope {e : Envelope} {header : String × Bytes}
    (h : header ∈ ofEnvelope e) : IsReadable header := by
  cases hiv : e.cipherIv? with
  | none => exact absurd h (by simp [ofEnvelope, hiv])
  | some iv =>
    rw [ofEnvelope_eq_discrete hiv] at h
    exact isReadable_of_mem_discrete h

/-- No header is there twice. -/
theorem nodup_discrete (iv : Bytes) (v : Version) (name : Option String) :
    ((discrete iv v name).map (·.1)).Nodup := by
  cases name <;> simp [discrete, nameHeaders, ivHeader, versionHeader, keyNameHeader]

theorem said_discrete (iv : Bytes) (v : Version) (name : Option String) :
    said (discrete iv v name) = ⟨some iv, some v, name, none⟩ := by
  have hversion : (readVersion (Bytes.ofText v.text)).toOption = some v := by
    rw [readVersion_ofText]
    rfl
  cases name <;>
    simp [said, discrete, nameHeaders, last?, ivHeader, versionHeader, keyNameHeader,
      descriptorHeader, hversion, toOption_readText_ofText]

/-- The headers of an encrypted envelope say its vector, its version and its key name. -/
theorem said_ofEnvelope {e : Envelope} {iv : Bytes} (h : e.cipherIv? = some iv) :
    said (ofEnvelope e) = ⟨some iv, some e.version, e.keyName, none⟩ := by
  rw [ofEnvelope_eq_discrete h, said_discrete]

/-! ## Company -/

/-- Where no header has a name, none is the last one. -/
theorem last?_eq_none {name : String} {headers : List (String × Bytes)}
    (h : ∀ header ∈ headers, header.1 ≠ name) : last? name headers = none := by
  rw [← Option.not_isSome_iff_eq_none, isSome_last?_iff]
  rintro ⟨header, hmem, hname⟩
  exact h header hmem hname

/-- A header that is there once is the last one of its name, wherever it stands and whatever stands
beside it. -/
theorem last?_of_perm {name : String} {headers own others : List (String × Bytes)}
    (hperm : headers.Perm (own ++ others)) (hothers : ∀ header ∈ others, header.1 ≠ name)
    (honce : (own.filter (·.1 = name)).length ≤ 1) : last? name headers = last? name own := by
  have hforeign : others.filter (·.1 = name) = [] :=
    List.filter_eq_nil_iff.mpr fun header hmem => by simpa using hothers header hmem
  have hnamed := hperm.filter (·.1 = name)
  rw [List.filter_append, hforeign, List.append_nil] at hnamed
  have hsame : headers.filter (·.1 = name) = own.filter (·.1 = name) := by
    generalize own.filter (·.1 = name) = named at hnamed honce
    rcases named with _ | ⟨header, _ | ⟨next, rest⟩⟩
    · exact List.perm_nil.mp hnamed
    · exact List.perm_singleton.mp hnamed
    · exact absurd honce (by simp)
  rw [last?, hsame, last?]

/-- Where no name is there twice, each is there at most once. -/
theorem length_filter_le_of_nodup {headers : List (String × Bytes)}
    (hnodup : (headers.map (·.1)).Nodup) (name : String) :
    (headers.filter (·.1 = name)).length ≤ 1 := by
  have honce := List.nodup_iff_count_le_one.mp hnodup name
  rw [List.count, List.countP_map] at honce
  rw [← List.countP_eq_length_filter]
  exact honce

/-- Where no name is there twice, the order of headers does not matter. -/
theorem said_of_perm_of_nodup {headers own : List (String × Bytes)} (hperm : headers.Perm own)
    (hnodup : (own.map (·.1)).Nodup) : said headers = said own := by
  have hown : headers.Perm (own ++ []) := by rwa [List.append_nil]
  have hlast (name : String) : last? name headers = last? name own :=
    last?_of_perm hown (fun _ hmem => absurd hmem List.not_mem_nil)
      (length_filter_le_of_nodup hnodup name)
  simp only [said, hlast]

/-- The header is no part of the discrete layout. -/
def IsForeign (header : String × Bytes) : Prop :=
  header.1 ≠ ivHeader ∧ header.1 ≠ versionHeader ∧ header.1 ≠ keyNameHeader

/-- An envelope has no two headers of one name. -/
theorem length_filter_ofEnvelope_le (e : Envelope) (name : String) :
    ((ofEnvelope e).filter (·.1 = name)).length ≤ 1 := by
  cases hiv : e.cipherIv? with
  | none => simp [ofEnvelope, hiv]
  | some iv =>
    rw [ofEnvelope_eq_discrete hiv]
    exact length_filter_le_of_nodup (nodup_discrete _ _ _) name

/-- What headers say is what the headers of an envelope among them say, and perhaps a descriptor. -/
theorem said_of_perm {e : Envelope} {iv : Bytes} {headers others : List (String × Bytes)}
    (hiv : e.cipherIv? = some iv) (hothers : ∀ header ∈ others, IsForeign header)
    (hperm : headers.Perm (ofEnvelope e ++ others)) :
    said headers = ⟨some iv, some e.version, e.keyName, last? descriptorHeader headers⟩ := by
  have hown := said_ofEnvelope hiv
  simp only [said, Found.mk.injEq] at hown ⊢
  rw [last?_of_perm hperm (fun header hmem => (hothers header hmem).1)
    (length_filter_ofEnvelope_le e _),
    last?_of_perm hperm (fun header hmem => (hothers header hmem).2.1)
      (length_filter_ofEnvelope_le e _),
    last?_of_perm hperm (fun header hmem => (hothers header hmem).2.2)
      (length_filter_ofEnvelope_le e _)]
  exact ⟨hown.1, hown.2.1, hown.2.2.1, trivial⟩

/-- **What is written in headers reads back** from an encrypted envelope, in any order and in any
company. -/
theorem toEnvelope_of_perm {e : Envelope} {headers others : List (String × Bytes)}
    (hencrypted : e.isEncrypted = true) (hothers : ∀ header ∈ others, IsForeign header)
    (hperm : headers.Perm (ofEnvelope e ++ others)) : toEnvelope e.payload headers = .ok e := by
  obtain ⟨iv, hcipher⟩ := Option.isSome_iff_exists.mp hencrypted
  obtain ⟨hiv, -, -⟩ := Envelope.cipherIv?_eq_some_iff.mp hcipher
  refine toEnvelope_eq_ok_iff.mpr ⟨fun header hmem => ?_, ?_⟩
  · rcases List.mem_append.mp (hperm.mem_iff.mp hmem) with hown | hother
    · exact isReadable_of_mem_ofEnvelope hown
    · obtain ⟨-, hversion, hname⟩ := hothers header hother
      exact ⟨fun h => absurd h hversion, fun h => absurd h hname⟩
  · rw [said_of_perm hcipher hothers hperm]
    refine Found.envelope_eq_ok_iff.mpr (.inr ⟨e.version, e.keyName, iv, rfl, rfl, ?_⟩)
    rw [← hiv]

/-- From an encrypted envelope, what is written in headers reads back. -/
theorem toEnvelope_ofEnvelope {e : Envelope} (h : e.isEncrypted = true) :
    toEnvelope e.payload (ofEnvelope e) = .ok e :=
  toEnvelope_of_perm h (List.forall_mem_nil _) (.of_eq (List.append_nil _).symm)

/-- A payload without crypto headers is plaintext, if a name of a key that is there is text. -/
theorem toEnvelope_eq_plaintext {payload : Bytes} {headers : List (String × Bytes)}
    (hcarries : ¬ Carries headers)
    (hnames : ∀ header ∈ headers, header.1 = keyNameHeader → ∃ text, header.2 = Bytes.ofText text) :
    toEnvelope payload headers = .ok (.plaintext payload) := by
  have hnone {name : String}
      (hname : name = ivHeader ∨ name = versionHeader ∨ name = descriptorHeader) :
      last? name headers = none :=
    last?_eq_none fun header hmem h => hcarries ⟨header, hmem, by rwa [h]⟩
  refine toEnvelope_eq_ok_iff.mpr ⟨fun header hmem => ⟨fun hversion => ?_, fun hname => ?_⟩, ?_⟩
  · exact absurd ⟨header, hmem, .inr (.inl hversion)⟩ hcarries
  · obtain ⟨text, htext⟩ := hnames header hmem hname
    rw [htext, readText_ofText]
    rfl
  · refine Found.envelope_eq_ok_iff.mpr (.inl ⟨Found.key_eq_ok_none_iff.mpr ⟨?_, ?_⟩, ?_, rfl⟩)
    · rw [said, hnone (.inr (.inl rfl))]
      rfl
    · exact hnone (.inr (.inr rfl))
    · exact hnone (.inl rfl)

/-- Plaintext has no headers, and without headers there is plaintext. -/
theorem toEnvelope_ofEnvelope_plaintext (payload : Bytes) :
    toEnvelope payload (ofEnvelope (.plaintext payload)) = .ok (.plaintext payload) := rfl

/-- **The company of a header does not matter.**  An encrypted envelope reads back from its headers
in any order, among any others, be they descriptors that make no sense.  Without a vector, a version
and a descriptor there is plaintext. -/
theorem toEnvelope_in_any_company :
    (∀ (e : Envelope) (headers others : List (String × Bytes)), e.isEncrypted = true →
      (∀ header ∈ others, IsForeign header) → headers.Perm (ofEnvelope e ++ others) →
        toEnvelope e.payload headers = .ok e) ∧
    ∀ (payload : Bytes) (headers : List (String × Bytes)), ¬ Carries headers →
      (∀ header ∈ headers, header.1 = keyNameHeader → ∃ text, header.2 = Bytes.ofText text) →
        toEnvelope payload headers = .ok (.plaintext payload) :=
  ⟨fun _ _ _ => toEnvelope_of_perm, fun _ _ => toEnvelope_eq_plaintext⟩

/-- An envelope whose key has an empty name. -/
def nameless : Envelope := ⟨[9, 9, 9], some (List.replicate 12 1), 7, some ""⟩

/-- Headers that do not belong to it: one of another layout, which cannot be read, and one of
none. -/
def strangers : List (String × Bytes) :=
  [(descriptorHeader, Bytes.ofText "no JSON"), ("content-type", Bytes.ofText "json")]

/-- Its headers, in disorder and among the others. -/
def mingled : List (String × Bytes) :=
  [(descriptorHeader, Bytes.ofText "no JSON"), (keyNameHeader, []),
    (versionHeader, Bytes.ofText "7"),
    ("content-type", Bytes.ofText "json"), (ivHeader, List.replicate 12 1)]

/-- The envelope is read from there, and a message that only names a key is plaintext. -/
theorem toEnvelope_mingled :
    toEnvelope nameless.payload mingled = .ok nameless ∧
      toEnvelope [9, 9, 9] [(keyNameHeader, Bytes.ofText "primary")] = .ok
        (.plaintext [9, 9, 9]) := by
  obtain ⟨hencrypted, hplain⟩ := toEnvelope_in_any_company
  refine ⟨hencrypted nameless mingled strangers (by decide) ?_ (by decide +kernel),
    hplain _ _ ?_ ?_⟩
  · simp [strangers, IsForeign, descriptorHeader, ivHeader, versionHeader, keyNameHeader]
  · simp [Carries, descriptorHeader, ivHeader, versionHeader, keyNameHeader]
  · simp only [List.forall_mem_singleton]
    exact fun _ => ⟨"primary", rfl⟩

end TopicCipher.Headers
