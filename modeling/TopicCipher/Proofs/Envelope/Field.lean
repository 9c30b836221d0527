import TopicCipher.Envelope.Field
import TopicCipher.Proofs.Base64
import TopicCipher.Proofs.Results
import TopicCipher.Proofs.Version

/-!
# What a marked field says

A marked text says a version, an initialization vector and a ciphertext (`Says`), or it is no field
at all.  The reader accepts exactly the texts that say something, and what the writer writes says
just what was in the envelope.

`Says` goes by the parts of the reader.  The grammar of fields does not: `form` puts a text together
from a spelling of the version and from base64.  Both come to the same, because no part of a field
has a dot in it, and because base64 and versions are read exactly as their own grammars say.  Texts
that were stored have to stay readable whatever becomes of the reader, and the grammar is what can
be relied on.

* `decode_eq_ok_iff`: what the reader accepts.
* `Says.length_lt`: a text is longer than its ciphertext.
* `says_form`, `exists_form_of_says`: saying something is having the form of a field.
* `says_of_encode`: what is written says what was in the envelope, without the key name.
* `reads_by_form`: the grammar, the round trip, and in what the texts of an envelope differ.
-/

namespace TopicCipher.Field

/-- The four segments of the text say a version, an initialization vector and a ciphertext. -/
def Says (text : String) (version : Version) (iv ciphertext : Bytes) : Prop :=
  ∃ first second third fourth, text.toList.splitOn '.' = [first, second, third, fourth] ∧
    Version.read? second = some version ∧ version ≠ 0 ∧
    Base64.standard.decodeChars? third = some iv ∧
    Base64.standard.decodeChars? fourth = some ciphertext

theorem Says.version_ne_zero {text : String} {version : Version} {iv ciphertext : Bytes}
    (h : Says text version iv ciphertext) : version ≠ 0 := by
  obtain ⟨-, -, -, -, -, -, hzero, -⟩ := h
  exact hzero

/-- A text says one thing at most. -/
theorem Says.unique {text : String} {version version' : Version}
    {iv iv' ciphertext ciphertext' : Bytes}
    (h : Says text version iv ciphertext) (h' : Says text version' iv' ciphertext') :
    version = version' ∧ iv = iv' ∧ ciphertext = ciphertext' := by
  obtain ⟨_, _, _, _, hsplit, hversion, -, hiv, hciphertext⟩ := h
  obtain ⟨_, _, _, _, hsplit', hversion', -, hiv', hciphertext'⟩ := h'
  rw [hsplit] at hsplit'
  obtain ⟨-, rfl, rfl, rfl, -⟩ := by simpa using hsplit'
  exact ⟨Option.some.inj (hversion.symm.trans hversion'), Option.some.inj (hiv.symm.trans hiv'),
    Option.some.inj (hciphertext.symm.trans hciphertext')⟩

/-- A text has more characters than the ciphertext that it says has bytes. -/
theorem Says.length_lt {text : String} {version : Version} {iv ciphertext : Bytes}
    (h : Says text version iv ciphertext) : ciphertext.length < text.toList.length := by
  obtain ⟨first, second, third, fourth, hsplit, -, -, -, hciphertext⟩ := h
  have htext : ['.'].intercalate [first, second, third, fourth] = text.toList := by
    rw [← hsplit, List.intercalate_splitOn]
  have hsaid := Base64.length_of_decodeChars? hciphertext
  rw [← htext, List.intercalate_cons_cons, List.intercalate_cons_cons, List.intercalate_cons_cons,
    List.intercalate_singleton]
  simp only [List.length_append, List.length_singleton]
  omega

theorem ofSegments_eq_ok_iff {second third fourth : List Char} {envelope : Envelope} :
    ofSegments second third fourth = .ok envelope ↔
      ∃ version iv ciphertext, Version.read? second = some version ∧ version ≠ 0 ∧
        Base64.standard.decodeChars? third = some iv ∧
        Base64.standard.decodeChars? fourth = some ciphertext ∧
        envelope = ⟨ciphertext, some iv, version, none⟩ := by
  unfold ofSegments
  rcases Version.read? second with _ | version
  · simp
  by_cases hzero : version = 0
  · simp [hzero, bind, Except.bind]
  rcases Base64.standard.decodeChars? third with _ | iv
  · simp [hzero]
  rcases Base64.standard.decodeChars? fourth with _ | ciphertext <;> simp [hzero, eq_comm]

/-- **A marked text is read exactly if it says something**, and then as an envelope of that. -/
theorem decode_eq_ok_iff {text : String} (hmarked : isMarked text = true) {envelope : Envelope} :
    decode text = .ok envelope ↔
      ∃ version iv ciphertext, Says text version iv ciphertext ∧
        envelope = ⟨ciphertext, some iv, version, none⟩ := by
  rw [decode, if_pos hmarked]
  constructor
  · intro h
    split at h
    next first second third fourth hsplit =>
      obtain ⟨version, iv, ciphertext, hversion, hzero, hiv, hciphertext, rfl⟩ :=
        ofSegments_eq_ok_iff.mp (mapError_eq_ok_iff.mp h)
      exact ⟨version, iv, ciphertext,
        ⟨first, second, third, fourth, hsplit, hversion, hzero, hiv, hciphertext⟩, rfl⟩
    next => exact absurd h (by simp)
  · rintro ⟨version, iv, ciphertext,
      ⟨first, second, third, fourth, hsplit, hversion, hzero, hiv, hciphertext⟩, rfl⟩
    rw [hsplit]
    exact mapError_eq_ok_iff.mpr (ofSegments_eq_ok_iff.mpr
      ⟨version, iv, ciphertext, hversion, hzero, hiv, hciphertext, rfl⟩)

/-! ## The form of a field -/

/-- The text of a field with the given spelling of its version. -/
def form (spelling : String) (iv ciphertext : Bytes) : String :=
  mark ++ "." ++ spelling ++ "." ++ Base64.standard.encode iv ++ "." ++
    Base64.standard.encode ciphertext

theorem toList_form (spelling : String) (iv ciphertext : Bytes) :
    (form spelling iv ciphertext).toList =
      ['.'].intercalate [mark.toList, spelling.toList, Base64.standard.encodeChars iv,
        Base64.standard.encodeChars ciphertext] := by
  have hdot : ".".toList = ['.'] := rfl
  simp only [form, Base64.encode, String.toList_append, String.toList_ofList, hdot,
    List.intercalate_cons_cons, List.intercalate_singleton, List.append_assoc]

theorem dot_notMem_mark : '.' ∉ mark.toList := by decide

/-- No segment of a field has a dot. -/
theorem dot_notMem_segments {spelling : List Char} {version : Version}
    (hspells : Version.Spells spelling version) (iv ciphertext : Bytes) :
    ∀ segment ∈ [mark.toList, spelling, Base64.standard.encodeChars iv,
      Base64.standard.encodeChars ciphertext], '.' ∉ segment := by
  have hbase64 (bytes : Bytes) : '.' ∉ Base64.standard.encodeChars bytes :=
    Base64.notMem_encodeChars (by decide) (by decide) bytes
  simp only [List.forall_mem_cons]
  exact ⟨dot_notMem_mark, hspells.notMem (by decide) (by decide), hbase64 iv, hbase64 ciphertext,
    List.forall_mem_nil _⟩

/-- A field is marked and says what it was formed from. -/
theorem says_form {spelling : String} {version : Version}
    (hspells : Version.Spells spelling.toList version) (hzero : version ≠ 0)
    (iv ciphertext : Bytes) :
    isMarked (form spelling iv ciphertext) = true ∧
      Says (form spelling iv ciphertext) version iv ciphertext := by
  constructor
  · rw [isMarked, toList_form, List.isPrefixOf_iff_prefix, List.intercalate_cons_cons]
    exact List.prefix_append _ _
  · refine ⟨mark.toList, spelling.toList, _, _, ?_, Version.read?_eq_some_iff.mpr hspells, hzero,
      Base64.decodeChars?_encodeChars _ iv, Base64.decodeChars?_encodeChars _ ciphertext⟩
    rw [toList_form]
    exact List.splitOn_intercalate '.' (dot_notMem_segments hspells iv ciphertext) (by simp)

/-- The first segment of a marked text is the mark. -/
theorem splitOn_of_isMarked {text : String} (h : isMarked text = true) :
    ∃ segments, text.toList.splitOn '.' = mark.toList :: segments := by
  rw [isMarked, List.isPrefixOf_iff_prefix] at h
  obtain ⟨rest, hrest⟩ := h
  refine ⟨rest.splitOn '.', ?_⟩
  have hmark : ∀ c ∈ mark.toList, (c == '.') = false := fun c hmem =>
    beq_eq_false_iff_ne.mpr fun hdot => dot_notMem_mark (hdot ▸ hmem)
  rw [← hrest, List.append_assoc, List.singleton_append]
  exact List.splitOnP_append_cons_of_forall_mem hmark '.' (beq_self_eq_true '.') rest

/-- A marked text that says something has the form of a field. -/
theorem exists_form_of_says {text : String} {version : Version} {iv ciphertext : Bytes}
    (hmarked : isMarked text = true) (h : Says text version iv ciphertext) :
    ∃ spelling : String, Version.Spells spelling.toList version ∧
      text = form spelling iv ciphertext := by
  obtain ⟨first, second, third, fourth, hsplit, hversion, -, hiv, hciphertext⟩ := h
  obtain ⟨segments, hmark⟩ := splitOn_of_isMarked hmarked
  obtain rfl : first = mark.toList := (List.cons.inj (hsplit.symm.trans hmark)).1
  obtain rfl := Base64.eq_encodeChars_of_decodeChars? hiv
  obtain rfl := Base64.eq_encodeChars_of_decodeChars? hciphertext
  refine ⟨String.ofList second, ?_, String.toList_inj.mp ?_⟩
  · rw [String.toList_ofList]
    exact Version.read?_eq_some_iff.mp hversion
  · rw [toList_form, String.toList_ofList, ← hsplit, List.intercalate_splitOn]

/-- **A text is marked and read exactly if it has the form of a field**, with any spelling of a
version that is not zero. -/
theorem marked_and_decode_eq_ok_iff {text : String} {envelope : Envelope} :
    isMarked text = true ∧ decode text = .ok envelope ↔
      ∃ spelling version iv ciphertext, 0 < version ∧ Version.Spells spelling.toList version ∧
        text = form spelling iv ciphertext ∧ envelope = ⟨ciphertext, some iv, version, none⟩ := by
  constructor
  · rintro ⟨hmarked, hdecode⟩
    obtain ⟨version, iv, ciphertext, hsaid, rfl⟩ := (decode_eq_ok_iff hmarked).mp hdecode
    obtain ⟨spelling, hspells, htext⟩ := exists_form_of_says hmarked hsaid
    exact ⟨spelling, version, iv, ciphertext, UInt32.pos_iff_ne_zero.mpr hsaid.version_ne_zero,
      hspells, htext, rfl⟩
  · rintro ⟨spelling, version, iv, ciphertext, hpos, hspells, rfl, rfl⟩
    obtain ⟨hmarked, hsaid⟩ :=
      says_form hspells (UInt32.pos_iff_ne_zero.mp hpos) iv ciphertext
    exact ⟨hmarked, (decode_eq_ok_iff hmarked).mpr ⟨version, iv, ciphertext, hsaid, rfl⟩⟩

/-! ## Writing -/

/-- The writer spells a version without a sign and without zeros in front. -/
theorem encode_eq_form {envelope : Envelope} {iv : Bytes} (h : envelope.cipherIv? = some iv) :
    encode envelope = .ok (form envelope.version.text iv envelope.payload) := by
  rw [encode, h]
  refine congrArg Except.ok (String.toList_inj.mp ?_)
  rw [toList_form, String.toList_ofList, Version.text, String.toList_ofList]

/-- **What is written is marked and says what was in the envelope.**  Only the key name is lost. -/
theorem says_of_encode {payload iv : Bytes} {version : Version} {keyName : Option String}
    {text : String} (hiv : iv ≠ []) (hversion : 0 < version)
    (h : encode ⟨payload, some iv, version, keyName⟩ = .ok text) :
    isMarked text = true ∧ Says text version iv payload := by
  have hcipher : Envelope.cipherIv? ⟨payload, some iv, version, keyName⟩ = some iv :=
    Envelope.cipherIv?_eq_some_iff.mpr ⟨rfl, hiv, hversion⟩
  obtain rfl := Except.ok.inj ((encode_eq_form hcipher).symm.trans h)
  exact says_form version.spells_text (UInt32.pos_iff_ne_zero.mp hversion) iv payload

/-- An encrypted envelope reads back, without its key name. -/
theorem exists_text_of_isEncrypted {envelope : Envelope} (h : envelope.isEncrypted = true) :
    ∃ text, encode envelope = .ok text ∧ isMarked text = true ∧
      decode text = .ok { envelope with keyName := none } := by
  obtain ⟨iv, hcipher⟩ := Option.isSome_iff_exists.mp h
  obtain ⟨hiv, -, hpos⟩ := Envelope.cipherIv?_eq_some_iff.mp hcipher
  obtain ⟨hmarked, hdecode⟩ := marked_and_decode_eq_ok_iff.mpr
    ⟨_, _, iv, envelope.payload, hpos, envelope.version.spells_text, rfl, rfl⟩
  exact ⟨_, encode_eq_form hcipher, hmarked, by rw [hdecode, ← hiv]⟩

/-! ## The format as a whole -/

/-- **The format is its grammar.**  Marked texts are read exactly if they have the form of a field;
what is written reads back; and of an envelope there are no two texts but those that spell its
version in different ways. -/
theorem reads_by_form :
    (∀ (text : String) (envelope : Envelope), isMarked text = true ∧ decode text = .ok envelope ↔
      ∃ spelling version iv ciphertext, 0 < version ∧ Version.Spells spelling.toList version ∧
        text = form spelling iv ciphertext ∧ envelope = ⟨ciphertext, some iv, version, none⟩) ∧
    (∀ envelope : Envelope, envelope.isEncrypted = true →
      ∃ text, encode envelope = .ok text ∧ isMarked text = true ∧
        decode text = .ok { envelope with keyName := none }) ∧
    ∀ (text text' : String) (envelope : Envelope), isMarked text = true → isMarked text' = true →
      decode text = .ok envelope → decode text' = .ok envelope →
        ∃ spelling spelling' iv ciphertext, Version.Spells spelling.toList envelope.version ∧
          Version.Spells spelling'.toList envelope.version ∧
            text = form spelling iv ciphertext ∧ text' = form spelling' iv ciphertext := by
  refine ⟨fun _ _ => marked_and_decode_eq_ok_iff, fun _ => exists_text_of_isEncrypted, ?_⟩
  intro text text' envelope hmarked hmarked' hdecode hdecode'
  obtain ⟨spelling, version, iv, ciphertext, -, hspells, htext, rfl⟩ :=
    marked_and_decode_eq_ok_iff.mp ⟨hmarked, hdecode⟩
  obtain ⟨spelling', _, _, _, -, hspells', htext', henvelope⟩ :=
    marked_and_decode_eq_ok_iff.mp ⟨hmarked', hdecode'⟩
  obtain ⟨rfl, hiv, rfl, -⟩ := Envelope.mk.inj henvelope
  obtain rfl := Option.some.inj hiv
  exact ⟨spelling, spelling', iv, ciphertext, hspells, hspells', htext, htext'⟩

/-- An envelope of which three texts are read here. -/
def seventh : Envelope := ⟨[4, 5], some [1, 2, 3], 7, some "value"⟩

/-- The version may be spelled with a sign and zeros; it is written without. -/
theorem reads_by_form_seventh :
    (∃ text, encode seventh = .ok text ∧ isMarked text = true ∧
      decode text = .ok { seventh with keyName := none }) ∧
    decode "encAesV1.007.AQID.BAU=" = .ok { seventh with keyName := none } ∧
    decode "encAesV1.+7.AQID.BAU=" = .ok { seventh with keyName := none } ∧
    ∃ spelling spelling' iv ciphertext, Version.Spells spelling.toList 7 ∧
      Version.Spells spelling'.toList 7 ∧
        "encAesV1.007.AQID.BAU=" = form spelling iv ciphertext ∧
          "encAesV1.+7.AQID.BAU=" = form spelling' iv ciphertext := by
  have hzeros : decode "encAesV1.007.AQID.BAU=" = .ok { seventh with keyName := none } := by
    decide +kernel
  have hplus : decode "encAesV1.+7.AQID.BAU=" = .ok { seventh with keyName := none } := by
    decide +kernel
  exact ⟨reads_by_form.2.1 seventh (by decide), hzeros, hplus,
    reads_by_form.2.2 _ _ _ (by decide +kernel) (by decide +kernel) hzeros hplus⟩

end TopicCipher.Field
