import Mathlib
import TopicCipher.Proofs.Shared.Laws

/-!
# How transparent a cache is for old keys

A cache hands out an old key if it stored one for just the topic, version and key name that it is
asked for.  So whatever it hands out should be what the source behind once answered to the same
question, and if the source never changes its mind, the stored keys should never contradict each
other.

Both are true but for one key name.  A line has no way to say an empty key name: it reads as none.
A key that was asked for with an empty name is found again by those who ask without a name, and the
key without a name is asked for again and stored beside it.  The two questions are different ones
for the source, so its answers may differ.

Material goes through the cache without the blanks around it, and is compared without them.

* `Answered`: what a source once answered.
* `decryptionKey_transparent`: which question the material that is handed out is the answer to, and
  where contradictions come from.
* `not_forall_decryptionKey_answered`: the empty key name.
-/

namespace TopicCipher.Shared

open KeyCache

variable {ι : Type} {s t : Place ι}

/-- Some source answered a question for an old key with the material, up to blanks. -/
def Answered (history : History ι) (topic : String) (version : Version) (keyName : Option String)
    (material : String) : Prop :=
  ∃ i original, ⟨.decryptionKey i topic version keyName, .ok original⟩ ∈ history ∧
    Text.trim original = Text.trim material

/-- Some source answered with the material, perhaps when it was asked with an empty key name. -/
def Known (history : History ι) (topic : String) (version : Version) (keyName : Option String)
    (material : String) : Prop :=
  ∃ asked, MayReadAs asked keyName ∧ Answered history topic version asked material

theorem Answered.later {history later : History ι} (hlater : history <+: later) {topic : String}
    {version : Version} {keyName : Option String} {material : String}
    (h : Answered history topic version keyName material) :
    Answered later topic version keyName material := by
  obtain ⟨i, original, hmem, horiginal⟩ := h
  exact ⟨i, original, hlater.subset hmem, horiginal⟩

theorem Known.later {history later : History ι} (hlater : history <+: later) {topic : String}
    {version : Version} {keyName : Option String} {material : String}
    (h : Known history topic version keyName material) :
    Known later topic version keyName material := by
  obtain ⟨asked, hasked, hanswered⟩ := h
  exact ⟨asked, hasked, hanswered.later hlater⟩

theorem Known.trim {history : History ι} {topic : String} {version : Version}
    {keyName : Option String} {material : String}
    (h : Known history topic version keyName material) :
    Known history topic version keyName (Text.trim material) := by
  obtain ⟨asked, hasked, i, original, hmem, horiginal⟩ := h
  exact ⟨asked, hasked, i, original, hmem, by rw [Text.trim_trim, horiginal]⟩

/-! ## The law of the answers -/

/-- The answers about old keys are known ones. -/
def knownLaw (s : Place ι) : AnswerLaw where
  encryption _ _ := True
  decryption := Known s.2

/-- An entry of an old key holds a known answer, without blanks. -/
def IsKnown (s : Place ι) (e : CacheEntry) : Prop :=
  e.isEncryption = false → Text.trim e.key.material = e.key.material ∧
    Known s.2 e.topic e.key.version e.key.keyName e.key.material

theorem IsKnown.later (hlater : s.2 <+: t.2) {e : CacheEntry} (h : IsKnown s e) : IsKnown t e :=
  fun henc => ⟨(h henc).1, (h henc).2.later hlater⟩

/-- Reading may take an empty key name away, and that is all that `MayReadAs` allows. -/
theorem IsKnown.reread {e e' : CacheEntry} (h : IsKnown s e) (hreread : reread? e = some e') :
    IsKnown s e' := by
  obtain ⟨-, -, htopic, hkey⟩ := reread?_eq_some_iff.mp hreread
  intro henc
  rw [isEncryption_of_reread? hreread] at henc
  obtain ⟨htrim, asked, hasked, hanswered⟩ := h henc
  rw [htopic, hkey]
  exact ⟨htrim, asked, hasked.filter, hanswered⟩

theorem entryLaw_knownLaw (s : Place ι) : EntryLaw (IsKnown s) (knownLaw s) where
  served _ _ := trivial
  servedOld hknown henc := (hknown henc).2
  stored _ _ := fun henc =>
    absurd henc (by simp [CacheEntry.forEncryption, CacheEntry.isEncryption])
  storedOld hlaw := fun _ => ⟨Text.trim_trim _, hlaw.trim⟩
  longer _ _ _ := fun henc => absurd henc (by simp [CacheEntry.isEncryption])

/-- **Known answers are a law of shared caches.** -/
theorem founded_knownLaw : Founded (knownLaw (ι := ι)) IsKnown where
  lasts := ⟨fun _ _ => trivial, fun hlater h => h.later hlater⟩
  later hlater h := h.later hlater
  reread := IsKnown.reread
  entries := entryLaw_knownLaw
  encryption _ := trivial
  decryption hmem := ⟨_, .inl rfl, _, _, hmem, rfl⟩

/-! ## Contradictions -/

/-- The sources never change their minds about an old key. -/
def NeverChanges (history : History ι) : Prop :=
  ∀ topic version keyName material other, Answered history topic version keyName material →
    Answered history topic version keyName other → Text.trim material = Text.trim other

theorem NeverChanges.earlier {history later : History ι} (hlater : history <+: later)
    (h : NeverChanges later) : NeverChanges history :=
  fun topic version keyName material other hmaterial hother =>
    h topic version keyName material other (hmaterial.later hlater) (hother.later hlater)

/-- An ambiguity is found between two entries of one old key with different material. -/
theorem exists_ne_of_findDecryption {entries : List CacheEntry} {topic : String} {version : Version}
    {keyName : Option String} {candidates : Nat}
    (h : findDecryption entries topic version keyName = .ambiguous candidates) :
    ∃ material other, material ≠ other ∧
      (⟨topic, ⟨version, keyName, material⟩, none⟩ : CacheEntry) ∈ entries ∧
      (⟨topic, ⟨version, keyName, other⟩, none⟩ : CacheEntry) ∈ entries := by
  by_contra hagree
  push Not at hagree
  obtain ⟨material, hall⟩ : ∃ material, ∀ other,
      (⟨topic, ⟨version, keyName, other⟩, none⟩ : CacheEntry) ∈ entries → other = material := by
    by_cases hany : ∃ material, (⟨topic, ⟨version, keyName, material⟩, none⟩ : CacheEntry) ∈ entries
    · obtain ⟨material, hmem⟩ := hany
      exact ⟨material, fun other hother => by_contra fun hne =>
        hagree other material hne hother hmem⟩
    · exact ⟨"", fun other hother => absurd ⟨other, hother⟩ hany⟩
  have hsame : ∀ e ∈ entries, e.isEncryption = false → e.topic = topic → e.key.version = version →
      e.key.keyName = keyName → e.key.material = material := by
    rintro ⟨_, ⟨_, _, other⟩, expiresAt⟩ he henc rfl rfl rfl
    obtain rfl := Option.isNone_iff_eq_none.mp (Option.isSome_eq_false_iff.mp henc)
    exact hall other he
  exact findDecryption_ne_ambiguous hsame candidates h

/-- Stored keys contradict each other only if the sources change their minds, or if they answered
with and without an empty key name. -/
theorem answered_of_ambiguity (hs : ∀ e ∈ entriesOf s.1, IsKnown s e) (hnever : NeverChanges s.2)
    {failure : Option StorageError} {topic : String} {version : Version} {keyName : Option String}
    {candidates : Nat}
    (h : findDecryption (loaded s.1 failure) topic version keyName = .ambiguous candidates) :
    keyName = none ∧ ∃ material other, Text.trim material ≠ Text.trim other ∧
      Answered s.2 topic version none material ∧ Answered s.2 topic version (some "") other := by
  obtain ⟨material, other, hne, hmaterial, hother⟩ := exists_ne_of_findDecryption h
  have hloaded := loaded_sublist s.1 failure
  obtain ⟨htrim, asked, hasked, hanswered⟩ := hs _ (hloaded.mem hmaterial) rfl
  obtain ⟨htrim', asked', hasked', hanswered'⟩ := hs _ (hloaded.mem hother) rfl
  have hchanged : Text.trim material ≠ Text.trim other := by
    rw [htrim, htrim']
    exact hne
  have hnames : asked ≠ asked' := by
    rintro rfl
    exact hchanged (hnever _ _ _ _ _ hanswered hanswered')
  -- Two different names that may read as one are no name and the empty name.
  rcases hasked with rfl | ⟨rfl, rfl⟩ <;> rcases hasked' with rfl | ⟨rfl, hnone⟩
  · exact absurd rfl hnames
  · subst hnone
    exact ⟨rfl, material, other, hchanged, hanswered, hanswered'⟩
  · exact ⟨rfl, other, material, hchanged.symm, hanswered', hanswered⟩
  · exact absurd rfl hnames

/-! ## Lookups -/

/-- **How transparent caches are for old keys.**  Caches share a text that was empty at first.  The
material that a lookup hands out is, up to blanks, what a source answered to the same question in
this run, or, if the lookup is made without a key name, to the question with an empty one.  And if
the sources never change their minds, a lookup only reports contradictions that the source behind
reports, or those between the answers without a key name and with an empty one. -/
theorem decryptionKey_transparent {options : ι → CachingOptions}
    (hrun : Reaches (perform options) fresh s) {i : ι} {topic : String} {version : Version}
    {keyName : Option String} {r : Except KeyError String}
    (h : Gives ((cache (options i) i).decryptionKey topic version keyName) s r t) :
    (∀ material, r = .ok material → Known t.2 topic version keyName material) ∧
      (NeverChanges t.2 → ∀ ambiguous candidates, r = .error (.ambiguity ambiguous candidates) →
        Said s t ⟨.decryptionKey i topic version keyName,
          .error (.ambiguity ambiguous candidates)⟩ ∨
        keyName = none ∧ ∃ material other, Text.trim material ≠ Text.trim other ∧
          Answered t.2 topic version none material ∧
          Answered t.2 topic version (some "") other) := by
  have hs := founded_knownLaw.of_reaches hrun
  refine ⟨((founded_knownLaw.grounded (options i) i).decryptionKey hs h).2, ?_⟩
  rintro hnever ambiguous candidates rfl
  obtain ⟨text, history⟩ := s
  cases decryptionTurn_of_gives h with
  | @ambiguous failure candidates hfind =>
    have hlater : history <+: history ++ [⟨.readText, failure⟩] := List.prefix_append _ _
    obtain ⟨hname, material, other, hne, hmaterial, hother⟩ :=
      answered_of_ambiguity hs (hnever.earlier hlater) hfind
    exact .inr ⟨hname, material, other, hne, hmaterial.later hlater, hother.later hlater⟩
  | failed hfind => exact .inl ⟨_, rfl, .tail _ (.head _)⟩

/-! ## The empty key name -/

/-- The outside when nothing fails, and the source has a key without a name and one with an empty
name. -/
def twoKeys : (q : Question Unit) → Answer q
  | .readText => none
  | .writeText _ => (true, .ok ())
  | .time _ => .ofSecond 0
  | .jitter _ _ => .zero
  | .encryptionKey _ _ => .ok none
  | .decryptionKey _ _ _ keyName => .ok (if keyName = none then "u" else "v")
  | .vector _ => .ok []

/-- Carries computations out in this outside. -/
def withTwoKeys : Execution (Outside Unit) := (Dialogue.execution twoKeys).layer

theorem obeys_follow (options : Unit → CachingOptions) (calls : List (Call Unit)) :
    Dialogue.Obeys twoKeys (withTwoKeys.follow (perform options) fresh calls).2.2 :=
  withTwoKeys.invariant_foldl (I := fun s => Dialogue.Obeys twoKeys s.2)
    (fun _ _ hs => hs.under _) calls fun _ h => absurd h List.not_mem_nil

/-- A source that always answers alike never changes its mind. -/
theorem neverChanges_of_obeys {history : History Unit} (h : Dialogue.Obeys twoKeys history) :
    NeverChanges history := by
  have hanswered : ∀ topic version keyName material,
      Answered history topic version keyName material →
      Text.trim material = Text.trim (if keyName = none then "u" else "v") := by
    rintro topic version keyName material ⟨i, original, hmem, hmaterial⟩
    obtain rfl : original = if keyName = none then "u" else "v" := by
      simpa [twoKeys] using h _ hmem
    exact hmaterial.symm
  intro topic version keyName material other hmaterial hother
  rw [hanswered _ _ _ _ hmaterial, hanswered _ _ _ _ hother]

/-- The source always answers alike, and still the answers without a name and with an empty one end
up as two entries of one old key. -/
theorem ambiguity_of_empty_keyName :
    ∃ s t, Reaches (perform fun _ : Unit => .standard) fresh s ∧
      Gives ((cache .standard ()).decryptionKey "t" 1 none) s (.error (.ambiguity "t" 2)) t ∧
      NeverChanges t.2 ∧ ∃ material other, Text.trim material ≠ Text.trim other ∧
        Answered t.2 "t" 1 none material ∧ Answered t.2 "t" 1 (some "") other := by
  let run := withTwoKeys.follow (perform fun _ => .standard) fresh
    [.lookUp () (.decryption "t" 1 none), .lookUp () (.decryption "t" 1 (some ""))]
  let outcome := withTwoKeys.run ((cache .standard ()).decryptionKey "t" 1 none) run.2
  have hrun : Reaches (perform fun _ => .standard) fresh run.2 :=
    (withTwoKeys.run_follow _ _ _).reaches
  have hgives : Gives ((cache .standard ()).decryptionKey "t" 1 none) run.2 outcome.1 outcome.2 :=
    withTwoKeys.gives_run _ _
  -- The equations that `cbv` unfolds runs with are spread over the library, hence all of it above.
  have hambiguous : outcome.1 = .error (.ambiguity "t" 2) := by cbv
  have hobeys : Dialogue.Obeys twoKeys outcome.2.2 := (obeys_follow _ _).under _
  have hnever : NeverChanges outcome.2.2 := neverChanges_of_obeys hobeys
  refine ⟨run.2, outcome.2, hrun, hambiguous ▸ hgives, hnever, ?_⟩
  rcases (decryptionKey_transparent hrun hgives).2 hnever "t" 2 hambiguous with
    ⟨said, hsaid, hmem⟩ | ⟨-, hanswers⟩
  · have hanswer := hobeys _ (hsaid ▸ List.mem_append_right _ hmem)
    simp [twoKeys] at hanswer
  · exact hanswers

/-- It is not the answer to just the same question that a cache hands out: whoever asks without a
key name gets the answer to the question with an empty one. -/
theorem not_forall_decryptionKey_answered :
    ¬ ∀ (options : Unit → CachingOptions) (s t : Place Unit) (topic : String) (version : Version)
      (keyName : Option String) (material : String), Reaches (perform options) fresh s →
      Gives ((cache (options ()) ()).decryptionKey topic version keyName) s (.ok material) t →
      Answered t.2 topic version keyName material := by
  intro h
  let run := withTwoKeys.follow (perform fun _ => .standard) fresh
    [.lookUp () (.decryption "t" 1 (some ""))]
  let outcome := withTwoKeys.run ((cache .standard ()).decryptionKey "t" 1 none) run.2
  have hrun : Reaches (perform fun _ => .standard) fresh run.2 :=
    (withTwoKeys.run_follow _ _ _).reaches
  have hgives : Gives ((cache .standard ()).decryptionKey "t" 1 none) run.2 outcome.1 outcome.2 :=
    withTwoKeys.gives_run _ _
  have hserved : outcome.1 = .ok "v" := by decide +kernel
  have hobeys : Dialogue.Obeys twoKeys outcome.2.2 := (obeys_follow _ _).under _
  obtain ⟨i, original, hmem, hmaterial⟩ :=
    h (fun _ => .standard) _ _ _ _ _ _ hrun (hserved ▸ hgives)
  obtain rfl : original = "u" := by simpa [twoKeys] using hobeys _ hmem
  exact absurd hmaterial (by decide)

end TopicCipher.Shared
