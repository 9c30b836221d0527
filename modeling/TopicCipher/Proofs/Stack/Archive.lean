import TopicCipher.Proofs.Blank
import TopicCipher.Proofs.Dialogue
import TopicCipher.Proofs.KeyCache.FaultyStorage
import TopicCipher.Proofs.Stack.Runs

/-!
# A stack over a store that forgets nothing

An archive is a secret store that keeps every published version forever.  What a version holds never
changes; which version is the newest is up to the outside, and so is when the store and the storage
fail, whether a text that was not acknowledged was stored, what the clocks say, and what is drawn at
random.  All of these are questions, so a statement about all histories is a statement about all
rotations, outages and clocks.

The archive keeps a list of the versions that it has handed out as the newest.  Such a version can
be read again at any time, except during an outage.  A version that nobody has seen yet can be
refused for any reason.

* `Archive.law`: keys to encrypt under are of published versions, and all material is that of the
  archive up to blanks.
* `Archive.grounded`: the whole stack is grounded on this law.
-/

namespace TopicCipher

/-- What all versions of all secrets hold.  No attribute has an empty name. -/
structure Archive where
  attributes : String → Version → List (String × String)
  created : String → Version → Instant
  named {path : String} {version : Version} {pair : String × String} :
    pair ∈ attributes path version → pair.1 ≠ ""

namespace Archive

/-- A version of a secret. -/
def secret (a : Archive) (path : String) (version : Version) : Secret :=
  ⟨a.attributes path version, some ⟨version, a.created path version⟩⟩

/-! ## The outside -/

/-- What the outside is asked. -/
inductive Question where
  | connect
  /-- Which version of a secret is the newest? -/
  | newest (path : String)
  /-- Can a published version be read now? -/
  | recall (path : String) (version : Version)
  /-- Can a version be read that nobody has seen yet? -/
  | guess (path : String) (version : Version)
  | readText
  | writeText (text : String)
  | cacheTime
  | cacheJitter (bound : Span)
  | engineTime
  | engineJitter (bound : Span)
  | vector

/-- How the outside may answer.  Opening the connection and reading what was published can only
fail for an outage, with a reason. -/
abbrev Answer : Question → Type
  | .connect => Option String
  | .newest _ => Except KeyError { version : Version // version ≠ 0 }
  | .recall _ _ => Option String
  | .guess _ _ => Option KeyError
  | .readText => Option StorageError
  /- Whether the text was stored, and what the storage says about it. -/
  | .writeText _ => Bool × Except StorageError Unit
  | .cacheTime => Instant
  | .cacheJitter _ => Span
  | .engineTime => Instant
  | .engineJitter _ => Span
  | .vector => Except String Bytes

/-- All that was asked so far, with the answers. -/
abbrev History := List (Exchange Question Answer)

/-- The stored text, and the versions that were handed out as the newest. -/
structure World where
  text : Option String
  published : List (String × Version)

/-- Nothing is stored, and nothing was handed out. -/
def World.fresh : World := ⟨none, []⟩

/-- Computations that ask the outside. -/
abbrev Outside := StateT World (Dialogue Question Answer)

/-- Reads the newest version of a secret. -/
def readNewest (a : Archive) (path : String) : Outside (Except KeyError Secret) := do
  match ← ask (Question.newest path) with
  | .error err => return .error err
  | .ok version =>
    modify fun w => { w with published := (path, version.1) :: w.published }
    return .ok (a.secret path version)

/-- Reads the given version of a secret. -/
def readVersion (a : Archive) (path : String) (version : Version) :
    Outside (Except KeyError Secret) := do
  if (path, version) ∈ (← get).published then
    match ← ask (Question.recall path version) with
    | some reason => return .error (.store reason)
    | none => return .ok (a.secret path version)
  else
    match ← ask (Question.guess path version) with
    | some err => return .error err
    | none => return .ok (a.secret path version)

/-- Opens the connection to the archive. -/
def connect : Outside (Except KeyError Unit) := do
  match ← ask Question.connect with
  | some reason => return .error (.store reason)
  | none => return .ok ()

/-- The archive as a secret store. -/
def store (a : Archive) : SecretStore Outside Unit where
  connect := connect
  read path
    | none => liftM (a.readNewest path)
    | some version => liftM (a.readVersion path version)

/-- The storage of the cache. -/
def storage : FaultyStorage World (Dialogue Question Answer) where
  failure := .question Question.readText
  attempt text := .question (Question.writeText text)
  kept := World.text
  keep text w := { w with text := some text }

/-- The clock and the jitter of the cache. -/
def cacheTiming : Timing Outside where
  now := ask Question.cacheTime
  jitter bound := ask (Question.cacheJitter bound)

/-- The clock and the jitter of the engine. -/
def engineTiming : Timing Outside where
  now := ask Question.engineTime
  jitter bound := ask (Question.engineJitter bound)

/-- The full stack over an archive. -/
def stack (a : Archive) (resolver : TopicResolver) (cacheOptions : CachingOptions)
    (engineOptions : EngineOptions) : Stack Outside Unit where
  keys := ⟨resolver, a.store⟩
  storage := storage.storage
  cacheTiming := cacheTiming
  cacheOptions := cacheOptions
  engineTiming := engineTiming
  freshIv := ask Question.vector
  engineOptions := engineOptions

/-! ## Histories -/

/-- A version of a secret was handed out as the newest. -/
def Published (history : History) (path : String) (version : Version) : Prop :=
  ∃ h : version ≠ 0, (⟨.newest path, .ok ⟨version, h⟩⟩ : Exchange Question Answer) ∈ history

theorem Published.later {before after : History} {path : String} {version : Version}
    (h : Published before path version) (hlater : before <+: after) :
    Published after path version := by
  obtain ⟨hzero, hmem⟩ := h
  exact ⟨hzero, hlater.subset hmem⟩

/-- In an exchange, the store shows an outage. -/
def Refuses : Exchange Question Answer → String → Prop
  | ⟨.connect, answer⟩, reason => answer = some reason
  | ⟨.newest _, answer⟩, reason => answer = .error (.store reason)
  | ⟨.recall _ _, answer⟩, reason => answer = some reason
  | ⟨.guess _ _, answer⟩, reason => answer = some (.store reason)
  | _, _ => False

/-- Between two histories, the store shows an outage. -/
def RefusesBetween (before after : History) (reason : String) : Prop :=
  ∃ said, after = before ++ said ∧ ∃ exchange ∈ said, Refuses exchange reason

theorem RefusesBetween.earlier {first before after : History} {reason : String}
    (h : RefusesBetween before after reason) (hearlier : first <+: before) :
    RefusesBetween first after reason := by
  obtain ⟨said, rfl, exchange, hmem, hrefuses⟩ := h
  obtain ⟨rest, rfl⟩ := hearlier
  exact ⟨rest ++ said, List.append_assoc .., exchange, List.mem_append_right rest hmem, hrefuses⟩

theorem refusesBetween_concat {history : History} {exchange : Exchange Question Answer}
    {reason : String} (h : Refuses exchange reason) :
    RefusesBetween history (history ++ [exchange]) reason :=
  ⟨[exchange], rfl, exchange, List.mem_singleton_self exchange, h⟩

/-! ## The law -/

variable (a : Archive) (resolver : TopicResolver)

/-- Up to blanks, the material is that of a version of the key of a topic. -/
def Holds (topic : String) (version : Version) (keyName : Option String) (material : String) :
    Prop :=
  ∃ path original, resolver.path topic = .ok path ∧
    (a.secret path version).material path (keyName.getD (resolver.keyName topic)) = .ok original ∧
    Text.trim material = Text.trim original

/-- The material is that of a published version of the key of a topic. -/
def IsCurrent (history : History) (topic : String) (version : Version) (material : String) :
    Prop :=
  (∃ path, resolver.path topic = .ok path ∧ Published history path version) ∧
    a.Holds resolver topic version none material

/-- Topics that the rules encrypt are encrypted under published keys, and all material is that of
the archive up to blanks. -/
def law (s : World × History) : AnswerLaw where
  encryption topic answer := resolver.isEncrypted topic = true →
    ∃ key, answer = some key ∧ a.IsCurrent resolver s.2 topic key.version key.material
  decryption := a.Holds resolver

/-- An entry says what the law allows, and its material has no blanks around it. -/
structure Agrees (s : World × History) (e : CacheEntry) : Prop where
  encryption : e.isEncryption = true → (a.law resolver s).encryption e.topic (some e.key)
  decryption : e.isEncryption = false →
    a.Holds resolver e.topic e.key.version e.key.keyName e.key.material
  trimmed : Text.trim e.key.material = e.key.material

/-- The world knows what was published, and stores only entries that say what the law allows. -/
structure Sound (s : World × History) : Prop where
  published {path : String} {version : Version} :
    Published s.2 path version → (path, version) ∈ s.1.published
  text {text : String} : s.1.text = some text → ∀ e ∈ KeyCache.parse text, a.Agrees resolver s e

variable {a resolver}

theorem sound_fresh : a.Sound resolver (World.fresh, []) where
  published h := absurd h.2 List.not_mem_nil
  text h := absurd h (by simp [World.fresh])

theorem Holds.trim {topic : String} {version : Version} {keyName : Option String}
    {material : String} (h : a.Holds resolver topic version keyName material) :
    a.Holds resolver topic version keyName (Text.trim material) := by
  obtain ⟨path, original, hpath, hmaterial, htrim⟩ := h
  exact ⟨path, original, hpath, hmaterial, by rw [Text.trim_trim, htrim]⟩

/-- There is one material of a version up to blanks. -/
theorem Holds.unique {topic : String} {version : Version} {keyName : Option String}
    {material material' : String} (h : a.Holds resolver topic version keyName material)
    (h' : a.Holds resolver topic version keyName material') :
    Text.trim material = Text.trim material' := by
  obtain ⟨path, original, hpath, hmaterial, htrim⟩ := h
  obtain ⟨path', original', hpath', hmaterial', htrim'⟩ := h'
  obtain rfl := Except.ok.inj (hpath.symm.trans hpath')
  obtain rfl := Except.ok.inj (hmaterial.symm.trans hmaterial')
  rw [htrim, htrim']

/-- No material has an empty name. -/
theorem Holds.keyName_ne {topic : String} {version : Version} {keyName : Option String}
    {material : String} (h : a.Holds resolver topic version keyName material) :
    keyName ≠ some "" := by
  rintro rfl
  obtain ⟨path, original, -, hmaterial, -⟩ := h
  rw [Option.getD_some, Secret.material] at hmaterial
  split at hmaterial
  next text hlookup =>
    obtain ⟨hfound, -⟩ := Option.filter_eq_some_iff.mp hlookup
    obtain ⟨before, after, hsplit, -⟩ := List.lookup_eq_some_iff.mp hfound
    have hmem : ("", text) ∈ a.attributes path version := by
      rw [show a.attributes path version = before ++ ("", text) :: after from hsplit]
      exact List.mem_append_right before List.mem_cons_self
    exact a.named hmem rfl
  next => exact absurd hmaterial (by simp)

theorem IsCurrent.version_pos {history : History} {topic : String} {version : Version}
    {material : String} (h : a.IsCurrent resolver history topic version material) :
    0 < version := by
  obtain ⟨⟨path, -, hzero, -⟩, -⟩ := h
  exact UInt32.pos_iff_ne_zero.mpr hzero

theorem IsCurrent.later {before after : History} {topic : String} {version : Version}
    {material : String} (h : a.IsCurrent resolver before topic version material)
    (hlater : before <+: after) : a.IsCurrent resolver after topic version material := by
  obtain ⟨⟨path, hpath, hpublished⟩, hholds⟩ := h
  exact ⟨⟨path, hpath, hpublished.later hlater⟩, hholds⟩

/-- The law lasts, because a history only grows. -/
theorem lasts_law : AnswerLaw.Lasts Outside (a.law resolver) where
  encryption hlater h hrules := by
    obtain ⟨key, hkey, hcurrent⟩ := h hrules
    exact ⟨key, hkey, hcurrent.later hlater⟩
  decryption _ h := h

theorem Agrees.later {s t : World × History} {e : CacheEntry} (h : a.Agrees resolver s e)
    (hlater : s.2 <+: t.2) : a.Agrees resolver t e where
  encryption henc := lasts_law.encryption hlater (h.encryption henc)
  decryption := h.decryption
  trimmed := h.trimmed

theorem entryLaw (s : World × History) :
    EntryLaw (a.Agrees resolver s) (a.law resolver s) where
  served hV henc := hV.encryption henc
  servedOld hV henc := hV.decryption henc
  stored {topic key} expiresAt hlaw :=
    { encryption := fun _ hrules => by
        obtain ⟨_, hkey, hpublished, hholds⟩ := hlaw hrules
        obtain rfl := Option.some.inj hkey
        exact ⟨_, rfl, hpublished, hholds.trim⟩
      decryption := fun henc => absurd henc Bool.true_eq_false.mp
      trimmed := Text.trim_trim key.material }
  storedOld hlaw :=
    { encryption := fun henc => absurd henc Bool.false_ne_true
      decryption := fun _ => hlaw.trim
      trimmed := Text.trim_trim _ }
  longer expiresAt hV henc :=
    { encryption := fun _ => hV.encryption henc
      decryption := fun hdec => absurd hdec (by simp [CacheEntry.isEncryption])
      trimmed := hV.trimmed }

/-- What is left of an entry in a text still says what the law allows. -/
theorem Agrees.reread {s : World × History} {e e' : CacheEntry} (h : a.Agrees resolver s e)
    (hreread : KeyCache.reread? e = some e') : a.Agrees resolver s e' := by
  obtain ⟨-, -, htopic, hkey⟩ := KeyCache.reread?_eq_some_iff.mp hreread
  have hsame := KeyCache.isEncryption_of_reread? hreread
  refine ⟨fun henc hrules => ?_, fun hdec => ?_, ?_⟩
  · rw [htopic] at hrules ⊢
    obtain ⟨_, hsome, hcurrent⟩ := h.encryption (hsame ▸ henc) hrules
    obtain rfl := Option.some.inj hsome
    exact ⟨_, rfl, by rw [hkey]; exact hcurrent⟩
  · have hholds := h.decryption (hsame ▸ hdec)
    have hname : e.key.keyName.filter (· ≠ "") = e.key.keyName := by
      rcases hkeyName : e.key.keyName with _ | name
      · rfl
      · rw [hkeyName] at hholds
        have hne : name ≠ "" := fun hempty => hholds.keyName_ne (by rw [hempty])
        simp [Option.filter, hne]
    rw [htopic, hkey, hname]
    exact hholds
  · rw [hkey]
    exact h.trimmed

/-! ## What the archive does -/

/-- An exchange that hands out no version as the newest changes nothing that is published. -/
theorem Sound.concat {s : World × History} (h : a.Sound resolver s)
    {exchange : Exchange Question Answer}
    (hexchange : ∀ path version hzero, exchange ≠ ⟨.newest path, .ok ⟨version, hzero⟩⟩) :
    a.Sound resolver (s.1, s.2 ++ [exchange]) where
  published := by
    rintro path version ⟨hzero, hmem⟩
    rcases List.mem_append.mp hmem with hmem | hmem
    · exact h.published ⟨hzero, hmem⟩
    · exact absurd (List.mem_singleton.mp hmem).symm (hexchange path version hzero)
  text htext e he := (h.text htext e he).later (List.prefix_append _ _)

/-- Only a question for the newest version publishes anything. -/
theorem Sound.ask {s t : World × History} (h : a.Sound resolver s) {q : Question}
    (hq : ∀ path, q ≠ .newest path) {answer : Answer q}
    (hgives : Gives (TopicCipher.ask q : Outside _) s answer t) : a.Sound resolver t := by
  rw [gives_ask] at hgives
  rw [hgives]
  exact h.concat fun path _ _ hsame => hq path (congrArg Exchange.question hsame)

/-- Handing out a version as the newest publishes it. -/
theorem Sound.publish {s : World × History} (h : a.Sound resolver s) {path : String}
    (version : { version : Version // version ≠ 0 }) :
    a.Sound resolver ({ s.1 with published := (path, version.1) :: s.1.published },
      s.2 ++ [⟨.newest path, .ok version⟩]) where
  published := by
    rintro path' version' ⟨hzero, hmem⟩
    rcases List.mem_append.mp hmem with hmem | hmem
    · exact List.mem_cons_of_mem _ (h.published ⟨hzero, hmem⟩)
    · cases List.mem_singleton.mp hmem
      exact List.mem_cons_self
  text htext e he := (h.text htext e he).later (List.prefix_append _ _)

/-- What is read as the newest version is a published version. -/
theorem Sound.readNewest {s t : World × History} (h : a.Sound resolver s) {path : String}
    {r : Except KeyError Secret} (hgives : Gives (a.readNewest path) s r t) :
    a.Sound resolver t ∧ ∀ secret, r = .ok secret →
      ∃ version, secret = a.secret path version ∧ Published t.2 path version := by
  obtain ⟨answer, u, hask, hgives⟩ := gives_bind.mp hgives
  rw [gives_ask] at hask
  subst hask
  cases answer with
  | error err =>
    obtain ⟨rfl, rfl⟩ := gives_pure.mp hgives
    refine ⟨h.concat ?_, fun secret hsecret => absurd hsecret (by simp)⟩
    intro path' version hzero hsame
    cases hsame
  | ok version =>
    simp only [gives_bind, gives_modify, gives_pure] at hgives
    obtain ⟨_, _, rfl, rfl, rfl⟩ := hgives
    refine ⟨h.publish version, fun secret hsecret => ?_⟩
    obtain rfl := Except.ok.inj hsecret
    exact ⟨version, rfl, version.2, List.mem_append_right _ (List.mem_singleton_self _)⟩

/-- A version is read as what it is, and a published one can always be read except during an
outage. -/
theorem Sound.readVersion {s t : World × History} (h : a.Sound resolver s) {path : String}
    {version : Version} {r : Except KeyError Secret}
    (hgives : Gives (a.readVersion path version) s r t) :
    a.Sound resolver t ∧ (∀ secret, r = .ok secret → secret = a.secret path version) ∧
      ∀ err, r = .error err → Published s.2 path version →
        ∃ reason, err = .store reason ∧ RefusesBetween s.2 t.2 reason := by
  simp only [Archive.readVersion, gives_bind, gives_get] at hgives
  obtain ⟨_, _, ⟨rfl, rfl⟩, hgives⟩ := hgives
  split at hgives
  · obtain ⟨answer, u, hask, hgives⟩ := gives_bind.mp hgives
    have hu := h.ask (by simp) hask
    rw [gives_ask] at hask
    subst hask
    cases answer with
    | none =>
      obtain ⟨rfl, rfl⟩ := gives_pure.mp hgives
      exact ⟨hu, fun secret hsecret => (Except.ok.inj hsecret).symm,
        fun err herr => absurd herr (by simp)⟩
    | some reason =>
      obtain ⟨rfl, rfl⟩ := gives_pure.mp hgives
      refine ⟨hu, fun secret hsecret => absurd hsecret (by simp), fun err herr _ => ?_⟩
      obtain rfl := Except.error.inj herr
      exact ⟨reason, rfl, refusesBetween_concat rfl⟩
  next hunpublished =>
    obtain ⟨answer, u, hask, hgives⟩ := gives_bind.mp hgives
    have hu := h.ask (by simp) hask
    cases answer with
    | none =>
      obtain ⟨rfl, rfl⟩ := gives_pure.mp hgives
      exact ⟨hu, fun secret hsecret => (Except.ok.inj hsecret).symm,
        fun err herr => absurd herr (by simp)⟩
    | some err =>
      obtain ⟨rfl, rfl⟩ := gives_pure.mp hgives
      exact ⟨hu, fun secret hsecret => absurd hsecret (by simp),
        fun err herr hpublished => absurd (h.published hpublished) hunpublished⟩

/-- The connection can always be opened except during an outage. -/
theorem Sound.connect {s t : World × History} (h : a.Sound resolver s) {r : Except KeyError Unit}
    (hgives : Gives connect s r t) :
    a.Sound resolver t ∧ ∀ err, r = .error err →
      ∃ reason, err = .store reason ∧ RefusesBetween s.2 t.2 reason := by
  obtain ⟨answer, u, hask, hgives⟩ := gives_bind.mp hgives
  have hu := h.ask (by simp) hask
  rw [gives_ask] at hask
  subst hask
  cases answer with
  | none =>
    obtain ⟨rfl, rfl⟩ := gives_pure.mp hgives
    exact ⟨hu, fun err herr => absurd herr (by simp)⟩
  | some reason =>
    obtain ⟨rfl, rfl⟩ := gives_pure.mp hgives
    refine ⟨hu, fun err herr => ?_⟩
    obtain rfl := Except.error.inj herr
    exact ⟨reason, rfl, refusesBetween_concat rfl⟩

/-! ## The stack on an archive -/

/-- The archive as a store of keys. -/
abbrev keys (a : Archive) (resolver : TopicResolver) : StoreKeys Outside Unit := ⟨resolver, a.store⟩

/-- What is read as the newest version is a published version, also over a connection that has to
be opened first. -/
theorem Sound.read_none {s t : Option Unit × World × History} (h : a.Sound resolver s.2)
    {path : String} {r : Except KeyError Secret}
    (hgives : Gives ((a.keys resolver).read path none) s r t) :
    a.Sound resolver t.2 ∧ ∀ secret, r = .ok secret →
      ∃ version, secret = a.secret path version ∧ Published t.2.2 path version := by
  cases StoreKeys.reading_of_gives hgives with
  | refused hconnect =>
    exact ⟨(h.connect hconnect).1, fun secret hsecret => absurd hsecret (by simp)⟩
  | opened hconnect hread => exact (h.connect hconnect).1.readNewest (gives_lift.mp hread).2
  | reused hread => exact h.readNewest (gives_lift.mp hread).2

/-- A version is read as what it is, and a published one can always be read except during an
outage, also over a connection that has to be opened first. -/
theorem Sound.read_some {s t : Option Unit × World × History} (h : a.Sound resolver s.2)
    {path : String} {version : Version} {r : Except KeyError Secret}
    (hgives : Gives ((a.keys resolver).read path (some version)) s r t) :
    a.Sound resolver t.2 ∧ (∀ secret, r = .ok secret → secret = a.secret path version) ∧
      ∀ err, r = .error err → Published s.2.2 path version →
        ∃ reason, err = .store reason ∧ RefusesBetween s.2.2 t.2.2 reason := by
  cases StoreKeys.reading_of_gives hgives with
  | refused hconnect =>
    obtain ⟨hq, hrefuses⟩ := h.connect hconnect
    exact ⟨hq, fun secret hsecret => absurd hsecret (by simp),
      fun err herr _ => hrefuses err (by rw [Except.error.inj herr])⟩
  | opened hconnect hread =>
    have hlater : _ <+: _ := gives_later hconnect
    obtain ⟨ht, hsecret, hrefuses⟩ := (h.connect hconnect).1.readVersion (gives_lift.mp hread).2
    refine ⟨ht, hsecret, fun err herr hpublished => ?_⟩
    obtain ⟨reason, hreason, hbetween⟩ := hrefuses err herr (hpublished.later hlater)
    exact ⟨reason, hreason, hbetween.earlier hlater⟩
  | reused hread => exact h.readVersion (gives_lift.mp hread).2

/-- **An archive upholds the law.** -/
theorem upholds_law : (a.keys resolver).source.Upholds
    (fun s : Option Unit × World × History => a.law resolver s.2)
    fun s => a.Sound resolver s.2 where
  encryptionKey {topic s t r} hs hgives := by
    cases StoreKeys.encryptionLookup_of_gives hgives with
    | unkeyed hrules =>
      refine ⟨hs, fun answer hanswer htopic => ?_⟩
      exact absurd (hrules.symm.trans htopic) Bool.false_ne_true
    | pathless _ _ => exact ⟨hs, fun answer hanswer => absurd hanswer (by simp)⟩
    | refused _ _ hread =>
      exact ⟨(hs.read_none hread).1, fun answer hanswer => absurd hanswer (by simp)⟩
    | unusable _ _ hread _ =>
      exact ⟨(hs.read_none hread).1, fun answer hanswer => absurd hanswer (by simp)⟩
    | fetched _ hpath hread hkey =>
      obtain ⟨ht, hsecret⟩ := hs.read_none hread
      refine ⟨ht, fun answer hanswer _ => ?_⟩
      obtain rfl := Except.ok.inj hanswer
      obtain ⟨version, rfl, hpublished⟩ := hsecret _ rfl
      obtain ⟨metadata, material, hmetadata, -, hmaterial, rfl⟩ :=
        Secret.currentKey_eq_ok_iff.mp hkey
      obtain rfl := Option.some.inj hmetadata
      exact ⟨_, rfl, ⟨_, hpath, hpublished⟩, _, _, hpath, hmaterial, rfl⟩
  decryptionKey {topic version keyName s t r} hs hgives := by
    cases StoreKeys.decryptionLookup_of_gives hgives with
    | pathless _ => exact ⟨hs, fun material hmaterial => absurd hmaterial (by simp)⟩
    | refused _ hread =>
      exact ⟨(hs.read_some hread).1, fun material hmaterial => absurd hmaterial (by simp)⟩
    | unusable _ hread _ =>
      exact ⟨(hs.read_some hread).1, fun material hmaterial => absurd hmaterial (by simp)⟩
    | fetched hpath hread hkey =>
      obtain ⟨ht, hsecret, -⟩ := hs.read_some hread
      refine ⟨ht, fun material hmaterial => ?_⟩
      obtain rfl := Except.ok.inj hmaterial
      obtain rfl := hsecret _ rfl
      exact ⟨_, _, hpath, (Secret.pinnedKey_eq_ok_iff.mp hkey).2, rfl⟩

/-- The storage gives what is stored, or fails. -/
theorem Sound.storage_read {s t : World × History} (h : a.Sound resolver s)
    {r : Except StorageError (Option String)} (hgives : Gives storage.storage.read s r t) :
    a.Sound resolver t ∧
      ∀ text, r = .ok (some text) → ∀ e ∈ KeyCache.parse text, a.Agrees resolver t e := by
  obtain ⟨failure, hasked, hsame, rfl⟩ := FaultyStorage.gives_read.mp hgives
  have ht : a.Sound resolver t := h.ask (by simp) (gives_lift.mpr ⟨hsame, hasked⟩)
  refine ⟨ht, fun text htext => ht.text ?_⟩
  rcases failure with _ | err
  · rw [hsame]
    exact Except.ok.inj htext
  · exact absurd htext (by simp)

/-- Whether or not a text is stored, what is stored still agrees with the law. -/
theorem Sound.storage_write {s t : World × History} (h : a.Sound resolver s) {text : String}
    (htext : ∀ e ∈ KeyCache.parse text, a.Agrees resolver s e) {r : Except StorageError Unit}
    (hgives : Gives (storage.storage.write text) s r t) : a.Sound resolver t := by
  obtain ⟨answer, hasked, hkept, -⟩ := FaultyStorage.gives_write.mp hgives
  have hu : a.Sound resolver (s.1, t.2) := h.ask (by simp) (gives_lift_of s.1 hasked)
  obtain ⟨world, history⟩ := t
  dsimp only at hkept
  subst hkept
  split
  · refine ⟨hu.published, fun hstored e he => ?_⟩
    obtain rfl := Option.some.inj hstored
    exact (htext e he).later (gives_later hasked)
  · exact hu

/-- A question for anything but the newest version leaves the world as it is. -/
theorem keeps_ask {q : Question} (hq : ∀ path, q ≠ .newest path) :
    Keeps (TopicCipher.ask q : Outside _) (a.Sound resolver) :=
  fun _ _ _ hs hgives => hs.ask hq hgives

/-- **The stack on an archive is grounded on the law.** -/
theorem grounded (a : Archive) (resolver : TopicResolver) (cacheOptions : CachingOptions)
    (engineOptions : EngineOptions) :
    (a.stack resolver cacheOptions engineOptions).Grounded (a.law resolver) (a.Agrees resolver)
      (a.Sound resolver) where
  lasts := lasts_law
  later hlater h := h.later hlater
  keys := upholds_law
  entries := entryLaw
  reread h := h.reread
  read hs := hs.storage_read
  write hs htext hgives := hs.storage_write htext hgives
  cacheTiming := ⟨keeps_ask (by simp), fun _ => keeps_ask (by simp)⟩
  engineTiming := ⟨keeps_ask (by simp), fun _ => keeps_ask (by simp)⟩
  freshIv := keeps_ask (by simp)

end Archive

end TopicCipher
