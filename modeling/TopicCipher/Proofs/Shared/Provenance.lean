import TopicCipher.Proofs.Shared.Laws

/-!
# Where keys to encrypt under come from

A topic is encrypted under the key that a cache hands out, so a key of another topic, or an old key
that somebody only wanted to decrypt with, must never be handed out as the key to encrypt under.
Nothing in the text guards against that but its lines: an entry belongs to the topic of the topic
line above it, and it is one to encrypt under if its second part is not empty.  Topics, key names
and material are written into these lines, and any of them may hold tabs, line breaks or what looks
like a topic line.

Still no entry ever moves to another topic, and none changes its direction, its version or its
material.  An entry is written only if nothing in it breaks the line, and then it is read as it was
written, but for an empty key name.  So every key to encrypt under is one that a source answered
with, when it was asked for the key to encrypt this very topic under.

* `Fetched`: what a source answered about the key of a topic.
* `fetched_of_encryptionKey`: nothing else is handed out.
-/

namespace TopicCipher.Shared

open KeyCache

variable {ι : Type} {s t : Place ι}

/-- Some source answered with the key, when it was asked for the key to encrypt the topic under; an
empty key name may be gone, and the blanks around the material. -/
def Fetched (history : History ι) (topic : String) (key : KeyVersion) : Prop :=
  ∃ i original, ⟨.encryptionKey i topic, .ok (some original)⟩ ∈ history ∧
    original.version = key.version ∧ MayReadAs original.keyName key.keyName ∧
    Text.trim original.material = Text.trim key.material

theorem Fetched.later {history later : History ι} (hlater : history <+: later) {topic : String}
    {key : KeyVersion} (h : Fetched history topic key) : Fetched later topic key := by
  obtain ⟨i, original, hmem, hkey⟩ := h
  exact ⟨i, original, hlater.subset hmem, hkey⟩

/-- The answers about keys to encrypt under are fetched ones. -/
def fetchedLaw (s : Place ι) : AnswerLaw where
  encryption topic answer := ∀ key, answer = some key → Fetched s.2 topic key
  decryption _ _ _ _ := True

/-- An entry to encrypt under holds a fetched key. -/
def IsFetched (s : Place ι) (e : CacheEntry) : Prop :=
  e.isEncryption = true → Text.trim e.key.material = e.key.material ∧ Fetched s.2 e.topic e.key

/-- Reading changes no more of a key than its empty name. -/
theorem IsFetched.reread {e e' : CacheEntry} (h : IsFetched s e) (hreread : reread? e = some e') :
    IsFetched s e' := by
  obtain ⟨-, -, htopic, hkey⟩ := reread?_eq_some_iff.mp hreread
  intro henc
  rw [isEncryption_of_reread? hreread] at henc
  obtain ⟨htrim, i, original, hmem, hversion, hname, hmaterial⟩ := h henc
  rw [htopic, hkey]
  exact ⟨htrim, i, original, hmem, hversion, hname.filter, hmaterial⟩

theorem entryLaw_fetchedLaw (s : Place ι) : EntryLaw (IsFetched s) (fetchedLaw s) where
  served := by
    intro e hfetched henc key hkey
    obtain rfl := Option.some.inj hkey
    exact (hfetched henc).2
  servedOld _ _ := trivial
  stored := by
    intro topic key expiresAt hlaw _
    obtain ⟨i, original, hmem, hversion, hname, hmaterial⟩ := hlaw key rfl
    refine ⟨Text.trim_trim _, i, original, hmem, hversion, hname, ?_⟩
    rw [CacheEntry.forEncryption, Text.trim_trim, hmaterial]
  storedOld _ := fun henc =>
    absurd henc (by simp [CacheEntry.forDecryption, CacheEntry.isEncryption])
  longer _ hfetched henc := fun _ => hfetched henc

/-- **Fetched keys are a law of shared caches.** -/
theorem founded_fetchedLaw : Founded (fetchedLaw (ι := ι)) IsFetched where
  lasts := ⟨fun hlater h key hkey => (h key hkey).later hlater, fun _ _ => trivial⟩
  later hlater h henc := ⟨(h henc).1, (h henc).2.later hlater⟩
  reread := IsFetched.reread
  entries := entryLaw_fetchedLaw
  encryption := by
    rintro s i topic _ hmem key rfl
    exact ⟨i, key, hmem, rfl, .inl rfl, rfl⟩
  decryption _ := trivial

/-- **Only fetched keys are handed out to encrypt under.**  Any number of caches share a text that
was empty at first, whatever their clocks say and whatever they fail to read or write.  A key to
encrypt a topic under is one that a source answered with in this run, when it was asked for the key
to encrypt just this topic under: it has the version and, up to blanks, the material of that answer,
and its name, unless that was empty and has become none. -/
theorem fetched_of_encryptionKey {options : ι → CachingOptions}
    (hrun : Reaches (perform options) fresh s) {i : ι} {topic : String} {key : KeyVersion}
    (h : Gives ((cache (options i) i).encryptionKey topic) s (.ok (some key)) t) :
    Fetched t.2 topic key :=
  ((founded_fetchedLaw.grounded (options i) i).encryptionKey
    (founded_fetchedLaw.of_reaches hrun) h).2 _ rfl key rfl

/-! ## A topic that looks like a line -/

/-- The outside when nothing fails, and keys have an empty name and blanks around them. -/
def padded : (q : Question Bool) → Answer q
  | .readText => none
  | .writeText _ => (true, .ok ())
  | .time _ => .ofSecond 0
  | .jitter _ _ => .zero
  | .encryptionKey _ _ => .ok (some ⟨3, some "", " k "⟩)
  | .decryptionKey _ _ _ _ => .ok "old"
  | .vector _ => .ok []

/-- One cache fetches the key of a topic that is named like a topic line, and the other one hands it
out. -/
theorem fetched_of_padded :
    ∃ s t, Reaches (perform fun _ : Bool => .standard) fresh s ∧
      Gives ((cache .standard true).encryptionKey " topic ") s (.ok (some ⟨3, none, "k"⟩)) t ∧
      Fetched t.2 " topic " ⟨3, none, "k"⟩ := by
  let execution : Execution (Outside Bool) := (Dialogue.execution padded).layer
  let run := execution.follow (perform fun _ => .standard) fresh
    [.lookUp false (.decryption " topic\ttopic" 1 none), .lookUp false (.encryption " topic ")]
  let outcome := execution.run ((cache .standard true).encryptionKey " topic ") run.2
  have hrun : Reaches (perform fun _ => .standard) fresh run.2 :=
    (execution.run_follow _ _ _).reaches
  have hgives : Gives ((cache .standard true).encryptionKey " topic ") run.2 outcome.1 outcome.2 :=
    execution.gives_run _ _
  have hserved : outcome.1 = .ok (some ⟨3, none, "k"⟩) := by decide +kernel
  rw [hserved] at hgives
  exact ⟨run.2, outcome.2, hrun, hgives, fetched_of_encryptionKey hrun hgives⟩

end TopicCipher.Shared
