import TopicCipher.Proofs.Cipher.Sealing
import TopicCipher.Proofs.Shared.Fading
import TopicCipher.Proofs.Stack.Runs

/-!
# How soon every message is under a new key

An engine over a cache keeps keys as well, so a replaced key can be used for the lifetime of the
cache and then for that of the engine: at the last moment before its entry expires in the cache, it
may still get into the memory of the engine.  After both lifetimes it is out of use, whatever was
kept before, whatever failed, and however often a key had to bridge an outage.

Engine and cache have one clock.  The engine reads it before it asks the cache, so what it keeps has
an expiry that is counted from before the reading by which the cache found the key.

Instants are compared with `Instant.later`, which counts a leap second as over; between instants
outside of leap seconds this is the sum (`Instant.add_eq_later`).

* `Settles`: what holds of the stored text and of the memory at every place of a run.
* `encrypt_under_new_key`: both lifetimes after a rotation, every message is under the new key.
-/

namespace TopicCipher

/-- The longest time that an engine keeps a key to encrypt under, in nanoseconds. -/
def EngineOptions.lifetime (o : EngineOptions) : Nat := o.ttl.nanos + o.maxJitter.nanos

namespace Shared

open KeyCache

variable {ι : Type} {caching : CachingOptions} {options : EngineOptions} {i : ι} {topic : String}
  {key : KeyVersion} {since : Instant}

/-- An engine over a cache, with the same clock. -/
def engine (caching : CachingOptions) (options : EngineOptions) (i : ι) : Engine (Outside ι) where
  keys := (cache caching i).source
  timing := timing i
  freshIv := ask (Question.vector i)
  options := options

/-- Makes a call of the engine or, past it, of the cache, and leaves its answer alone. -/
def performOver (caching : CachingOptions) (options : EngineOptions) (i : ι) :
    Stack.Call → StateT Engine.Memory (Outside ι) Unit
  | .encrypt topic plaintext => do let _ ← (engine caching options i).encrypt topic plaintext
  | .decrypt topic envelope => do let _ ← (engine caching options i).decrypt topic envelope
  | .encodeField topic value => do let _ ← (engine caching options i).encodeField topic value
  | .decodeField topic value => do let _ ← (engine caching options i).decodeField topic value
  | .encryptionKey topic => do let _ ← (cache caching i).encryptionKey topic
  | .decryptionKey topic version keyName => do
    let _ ← (cache caching i).decryptionKey topic version keyName
  | .invalidate => Engine.invalidate
  | .clear => (cache caching i).clear

/-! ## The memory of the engine -/

/-- What the engine found is the key, ready for use. -/
def MadeOf (key : KeyVersion) (found : Option Engine.ActiveKey) : Prop :=
  ∃ active, found = some active ∧ active.version = key.version ∧
    TopicKey.ofText key.material = .ok active.key

theorem madeOf_of_sameAs {found : KeyVersion} {made : Option Engine.ActiveKey}
    (hsame : found.SameAs key) (hmade : Engine.ActiveKey.ofAnswer (some found) = .ok made) :
    MadeOf key made := by
  obtain ⟨active, htext, rfl⟩ := Engine.ActiveKey.ofAnswer_some_eq_ok_iff.mp hmade
  exact ⟨_, rfl, hsame.1, (TopicKey.ofText_congr hsame.2).symm.trans htext⟩

/-- What the engine keeps for the topic is the key, or it is not kept beyond the limit. -/
def SlotFades (topic : String) (key : KeyVersion) (limit : Int) (memory : Engine.Memory) : Prop :=
  ∀ kept, memory.encryption.get? topic = some kept →
    MadeOf key kept.value ∨ kept.expiresAt.place ≤ limit

/-- Where a key is at the latest that got into the memory of the engine before the cache lost it. -/
def slotLimit (caching : CachingOptions) (options : EngineOptions) (since : Instant) : Int :=
  fadeLimit caching since + options.lifetime

/-- If the key has been replaced, what is stored and what is kept fades. -/
def Settles (caching : CachingOptions) (options : EngineOptions) (i : ι) (topic : String)
    (key : KeyVersion) (since : Instant) (s : Engine.Memory × Place ι) : Prop :=
  Rotated i topic key since s.2.2 →
    AllFade topic key (fadeLimit caching since) s.2.1 ∧
      SlotFades topic key (slotLimit caching options since) s.1

/-- What the cache answers after the engine has read the clock: the new key, or something that it
still had then. -/
theorem sameAs_or_lt_of_gives {p t : Place ι} {now : Instant} {answer : Option KeyVersion}
    (htext : AllFade topic key (fadeLimit caching since) p.1)
    (hrotated : Rotated i topic key since t.2)
    (h : Gives ((cache caching i).encryptionKey topic) (p.1, p.2 ++ [⟨.time i, now⟩])
      (.ok answer) t) :
    (∃ found, answer = some found ∧ found.SameAs key) ∨
      ∃ bound, now < bound ∧ bound.place ≤ fadeLimit caching since := by
  refine ((encryptionTurn_of_gives h).sameAs_or_lt htext hrotated).imp_right ?_
  rintro ⟨reading, bound, ⟨said, hlater, hmem⟩, hlt, hbound⟩
  have hforward := hrotated.forward
  rw [hlater, readings, List.filterMap_append] at hforward
  have hle : now ≤ reading := by
    refine (List.pairwise_append.mp hforward).2.2 now ?_ reading ?_
    · exact List.mem_filterMap.mpr ⟨_, List.mem_append_right _ (.head _), rfl⟩
    · exact List.mem_filterMap.mpr ⟨_, hmem, rfl⟩
  exact ⟨bound, Instant.lt_of_le_of_lt hle hlt, hbound⟩

/-- What the engine puts into the slot of the topic fades. -/
theorem place_le_slotLimit {history : History ι} (h : Rotated i topic key since history)
    {now bound : Instant} {extra : Span} (hnow : ⟨.time i, now⟩ ∈ history)
    (hextra : ⟨.jitter i options.maxJitter, extra⟩ ∈ history) (hlt : now < bound)
    (hbound : bound.place ≤ fadeLimit caching since) :
    (expiryAfter now options.ttl extra).place ≤ slotLimit caching options since := by
  have hplace := Instant.place_mono (Instant.le_of_lt hlt)
  have hlifetime := place_expiryAfter_le (h.isTold hnow) options.ttl extra
  have hjitter := h.bounded _ _ hextra
  rw [slotLimit, EngineOptions.lifetime]
  omega

/-! ## Calls -/

variable {s t : Engine.Memory × Place ι}

/-- A question leaves text and memory alone. -/
theorem Settles.asked {memory : Engine.Memory} {p : Place ι}
    (hs : Settles caching options i topic key since (memory, p))
    (exchange : Exchange (Question ι) Answer) :
    Settles caching options i topic key since (memory, p.1, p.2 ++ [exchange]) :=
  fun hrotated => hs (hrotated.earlier (List.prefix_append _ _))

theorem Settles.cache_encryptionKey {asked : String} {r : Except KeyError (Option KeyVersion)}
    (hs : Settles caching options i topic key since s) (hmemory : t.1 = s.1)
    (h : Gives ((cache caching i).encryptionKey asked) s.2 r t.2) :
    Settles caching options i topic key since t := by
  intro hrotated
  obtain ⟨htext, hslot⟩ := hs (hrotated.earlier (gives_later h))
  rw [hmemory]
  exact ⟨(encryptionTurn_of_gives h).allFade htext hrotated, hslot⟩

theorem Settles.cache_decryptionKey {asked : String} {version : Version} {keyName : Option String}
    {r : Except KeyError String} (hs : Settles caching options i topic key since s)
    (hmemory : t.1 = s.1)
    (h : Gives ((cache caching i).decryptionKey asked version keyName) s.2 r t.2) :
    Settles caching options i topic key since t := by
  intro hrotated
  obtain ⟨htext, hslot⟩ := hs (hrotated.earlier (gives_later h))
  rw [hmemory]
  exact ⟨(decryptionTurn_of_gives h).allFade htext, hslot⟩

theorem Settles.encryptionKey {asked : String} {r : Except EngineError (Option Engine.ActiveKey)}
    (hs : Settles caching options i topic key since s)
    (h : Gives ((engine caching options i).encryptionKey asked) s r t) :
    Settles caching options i topic key since t := by
  cases Engine.gives_encryptionKey.mp h with
  | kept hnow _ =>
    obtain rfl := gives_ask.mp hnow
    exact hs.asked _
  | refused hnow _ hasked =>
    obtain rfl := gives_ask.mp hnow
    exact (hs.asked _).cache_encryptionKey rfl hasked
  | unusable hnow _ hasked _ =>
    obtain rfl := gives_ask.mp hnow
    exact (hs.asked _).cache_encryptionKey rfl hasked
  | @fetched memory p q u v now expiresAt answer made hnow _ hasked hmade hexpiry =>
    obtain rfl := gives_ask.mp hnow
    have hafter : Settles caching options i topic key since (memory, u) :=
      (hs.asked _).cache_encryptionKey rfl hasked
    obtain ⟨extra, rfl, rfl⟩ := gives_expiry.mp hexpiry
    intro hrotated
    have hearlier := hrotated.earlier (List.prefix_append u.2 _)
    obtain ⟨htext, hslot⟩ := hafter hearlier
    refine ⟨htext, fun kept hkept => ?_⟩
    by_cases hasked' : topic = asked
    · subst hasked'
      obtain rfl := Option.some.inj (hkept.symm.trans (Slots.get?_put_self _ _ _))
      have hbefore :=
        (hs (hearlier.earlier ((List.prefix_append _ _).trans (gives_later hasked)))).1
      rcases sameAs_or_lt_of_gives hbefore hearlier hasked with
        ⟨found, rfl, hsame⟩ | ⟨bound, hlt, hbound⟩
      · exact .inl (madeOf_of_sameAs hsame hmade)
      · have hnow : ⟨.time i, now⟩ ∈ u.2 :=
          (gives_later hasked).subset (List.mem_append_right _ (.head _))
        exact .inr (place_le_slotLimit hrotated (List.mem_append_left _ hnow)
          (List.mem_append_right _ (.head _)) hlt hbound)
    · exact hslot kept ((Slots.get?_put_of_ne _ _ hasked').symm.trans hkept)

theorem Settles.decryptionKey {asked : String} {version : Version} {keyName : Option String}
    {r : Except EngineError TopicKey} (hs : Settles caching options i topic key since s)
    (h : Gives ((engine caching options i).decryptionKey asked version keyName) s r t) :
    Settles caching options i topic key since t := by
  cases Engine.gives_decryptionKey.mp h with
  | kept hnow _ =>
    obtain rfl := gives_ask.mp hnow
    exact hs.asked _
  | refused hnow _ hasked =>
    obtain rfl := gives_ask.mp hnow
    exact (hs.asked _).cache_decryptionKey rfl hasked
  | unusable hnow _ hasked _ =>
    obtain rfl := gives_ask.mp hnow
    exact (hs.asked _).cache_decryptionKey rfl hasked
  | @fetched memory p q u v now expiresAt material made hnow _ hasked _ hexpiry =>
    obtain rfl := gives_ask.mp hnow
    have hafter : Settles caching options i topic key since (memory, u) :=
      (hs.asked _).cache_decryptionKey rfl hasked
    obtain ⟨extra, rfl, rfl⟩ := gives_expiry.mp hexpiry
    -- The slots of old keys are not those of the keys to encrypt under.
    exact hafter.asked _

theorem Settles.encrypt {asked : String} {plaintext : Bytes} {r : Except EngineError Envelope}
    (hs : Settles caching options i topic key since s)
    (h : Gives ((engine caching options i).encrypt asked plaintext) s r t) :
    Settles caching options i topic key since t := by
  cases Engine.gives_encrypt.mp h with
  | failed hkey => exact hs.encryptionKey hkey
  | passed hkey => exact hs.encryptionKey hkey
  | sealed hkey hdrawn =>
    obtain rfl := gives_ask.mp hdrawn
    exact (hs.encryptionKey hkey).asked _

theorem Settles.decrypt {asked : String} {envelope : Envelope} {r : Except EngineError Bytes}
    (hs : Settles caching options i topic key since s)
    (h : Gives ((engine caching options i).decrypt asked envelope) s r t) :
    Settles caching options i topic key since t := by
  cases Engine.gives_decrypt.mp h with
  | passed _ => exact hs
  | failed _ hkey => exact hs.decryptionKey hkey
  | opened _ hkey => exact hs.decryptionKey hkey

theorem Settles.encodeField {asked : String} {value : Option String}
    {r : Except EngineError (Option String)} (hs : Settles caching options i topic key since s)
    (h : Gives ((engine caching options i).encodeField asked value) s r t) :
    Settles caching options i topic key since t := by
  cases value with
  | none =>
    obtain ⟨-, rfl⟩ := gives_pure.mp h
    exact hs
  | some value =>
    obtain ⟨_, hsealed, -⟩ := Engine.gives_encodeField.mp h
    exact hs.encrypt hsealed

theorem Settles.decodeField {asked : String} {value : Option String}
    {r : Except EngineError (Option String)} (hs : Settles caching options i topic key since s)
    (h : Gives ((engine caching options i).decodeField asked value) s r t) :
    Settles caching options i topic key since t := by
  cases value with
  | none =>
    obtain ⟨-, rfl⟩ := gives_pure.mp h
    exact hs
  | some value =>
    cases hvalue : Field.isMarked value with
    | false =>
      obtain ⟨-, rfl⟩ := (Engine.gives_decodeField_of_not_isMarked hvalue).mp h
      exact hs
    | true =>
      rcases (Engine.gives_decodeField_of_isMarked hvalue).mp h with
        ⟨_, -, -, rfl⟩ | ⟨_, _, -, hopened, -⟩
      · exact hs
      · exact hs.decrypt hopened

/-- **Every call lets what was kept fade.** -/
theorem keeps_settles (call : Stack.Call) :
    Keeps (performOver caching options i call) (Settles caching options i topic key since) := by
  cases call with
  | encrypt asked plaintext => exact Stack.keeps_ignored fun _ _ _ hs h => hs.encrypt h
  | decrypt asked envelope => exact Stack.keeps_ignored fun _ _ _ hs h => hs.decrypt h
  | encodeField asked value => exact Stack.keeps_ignored fun _ _ _ hs h => hs.encodeField h
  | decodeField asked value => exact Stack.keeps_ignored fun _ _ _ hs h => hs.decodeField h
  | encryptionKey asked =>
    refine Stack.keeps_ignored fun _ _ _ hs h => ?_
    obtain ⟨hmemory, h⟩ := gives_lift.mp h
    exact hs.cache_encryptionKey hmemory h
  | decryptionKey asked version keyName =>
    refine Stack.keeps_ignored fun _ _ _ hs h => ?_
    obtain ⟨hmemory, h⟩ := gives_lift.mp h
    exact hs.cache_decryptionKey hmemory h
  | invalidate =>
    intro s _ t hs h
    obtain rfl := gives_set.mp h
    intro hrotated
    exact ⟨(hs hrotated).1, fun kept hkept => absurd hkept (Option.some_ne_none kept).symm⟩
  | clear =>
    intro s _ t hs h
    obtain ⟨hmemory, h⟩ := gives_lift.mp h
    obtain ⟨stored, hcleared⟩ := gives_clear.mp h
    intro hrotated
    rw [hcleared] at hrotated
    obtain ⟨htext, hslot⟩ := hs (hrotated.earlier (List.prefix_append _ _))
    rw [hmemory, hcleared]
    exact ⟨fun e he => htext e ((entriesOf_cleared_sublist s.2.1 stored).mem he), hslot⟩

theorem settles_of_reaches
    (h : Reaches (performOver caching options i) (Engine.Memory.empty, fresh) s) :
    Settles caching options i topic key since s :=
  h.invariant keeps_settles fun _ =>
    ⟨List.forall_mem_nil _, fun kept hkept => absurd hkept (Option.some_ne_none kept).symm⟩

/-! ## After both lifetimes -/

/-- What was kept until the limit is out of use both lifetimes after the instant. -/
theorem le_later_of_place {expiresAt now : Instant}
    (hplace : expiresAt.place ≤ slotLimit caching options since)
    (hlate : since.later (options.lifetime + caching.lifetime) ≤ now) : expiresAt ≤ now := by
  refine Instant.le_trans (Instant.le_ofUnixNanos_iff.mpr ?_) hlate
  rw [slotLimit, fadeLimit] at hplace
  omega

/-- The engine reads the clock, and if both lifetimes are over then, it finds the new key. -/
theorem Settles.madeOf {found : Option Engine.ActiveKey}
    (hs : Settles caching options i topic key since s)
    (h : Gives ((engine caching options i).encryptionKey topic) s (.ok found) t)
    (hrotated : Rotated i topic key since t.2.2) :
    ∃ now, s.2.2 ++ [⟨.time i, now⟩] <+: t.2.2 ∧
      (since.later (options.lifetime + caching.lifetime) ≤ now → MadeOf key found) := by
  cases Engine.gives_encryptionKey.mp h with
  | @kept memory p q now _ hnow hkept =>
    obtain rfl := gives_ask.mp hnow
    refine ⟨now, List.prefix_rfl, fun hlate => ?_⟩
    obtain ⟨kept, hslot, hlt, rfl⟩ := Engine.exists_of_bind_live? hkept
    refine ((hs.asked _ hrotated).2 kept hslot).resolve_right fun hplace => ?_
    exact Instant.not_le.mpr hlt (le_later_of_place hplace hlate)
  | @fetched memory p q u v now expiresAt answer _ hnow _ hasked hmade hexpiry =>
    obtain rfl := gives_ask.mp hnow
    obtain ⟨extra, rfl, rfl⟩ := gives_expiry.mp hexpiry
    have hlater : p.2 ++ [⟨.time i, now⟩] <+: u.2 := gives_later hasked
    have hearlier := hrotated.earlier (List.prefix_append u.2 _)
    refine ⟨now, hlater.trans (List.prefix_append _ _), fun hlate => ?_⟩
    have htext := (hs (hearlier.earlier ((List.prefix_append _ _).trans hlater))).1
    rcases sameAs_or_lt_of_gives htext hearlier hasked with
      ⟨_, rfl, hsame⟩ | ⟨bound, hlt, hbound⟩
    · exact madeOf_of_sameAs hsame hmade
    · have hplace : bound.place ≤ slotLimit caching options since := by
        rw [slotLimit]
        omega
      exact absurd (le_later_of_place hplace hlate) (Instant.not_le.mpr hlt)

/-- Two histories that go on with a reading of the clock go on with the same one if they are parts
of one history. -/
theorem reading_unique {history later : History ι} {now reading : Instant}
    (hnow : history ++ [⟨.time i, now⟩] <+: later)
    (hreading : history ++ [⟨.time i, reading⟩] <+: later) : now = reading := by
  have hprefix := List.prefix_of_prefix_length_le hnow hreading (by simp)
  have hsame := hprefix.eq_of_length (by simp)
  simpa using hsame

/-- **Both lifetimes after a rotation, every message is under the new key.**  An engine works over a
cache whose text was empty at first and which nobody else writes to; both have one clock.  Since
some instant, the source behind the cache answers with one and the same key for the topic.  If a
message is encrypted and the engine's reading of the clock is at least both lifetimes after that
instant, then it is sealed under the version and the material of that key, whatever was answered and
kept before, and whatever the storage failed to read or write. -/
theorem encrypt_under_new_key
    (hrun : Reaches (performOver caching options i) (Engine.Memory.empty, fresh) s)
    {plaintext : Bytes} {envelope : Envelope}
    (h : Gives ((engine caching options i).encrypt topic plaintext) s (.ok envelope) t)
    (hrotated : Rotated i topic key since t.2.2) {now : Instant}
    (hnow : s.2.2 ++ [⟨.time i, now⟩] <+: t.2.2)
    (hlate : since.later (options.lifetime + caching.lifetime) ≤ now) :
    ∃ topicKey iv payload keyName, TopicKey.ofText key.material = .ok topicKey ∧
      topicKey.encrypt iv plaintext = .ok payload ∧
      envelope = ⟨payload, some iv, key.version, keyName⟩ := by
  have hs : Settles caching options i topic key since s := settles_of_reaches hrun
  generalize hr : (Except.ok envelope : Except EngineError Envelope) = r at h
  cases Engine.gives_encrypt.mp h with
  | failed _ => exact absurd hr (by simp)
  | passed hkey =>
    obtain ⟨reading, hreading, hmade⟩ := hs.madeOf hkey hrotated
    obtain rfl := reading_unique hnow hreading
    obtain ⟨active, hnone, -⟩ := hmade hlate
    exact absurd hnone.symm (Option.some_ne_none active)
  | sealed hkey hdrawn =>
    obtain rfl := gives_ask.mp hdrawn
    obtain ⟨reading, hreading, hmade⟩ :=
      hs.madeOf hkey (hrotated.earlier (List.prefix_append _ _))
    obtain rfl := reading_unique hnow (hreading.trans (List.prefix_append _ _))
    obtain ⟨active, hactive, hversion, htext⟩ := hmade hlate
    obtain rfl := Option.some.inj hactive
    obtain ⟨iv, payload, -, hpayload, rfl⟩ :=
      Engine.sealedUnder_eq_ok_iff.mp (mapError_eq_ok_iff.mp hr.symm)
    exact ⟨_, iv, payload, _, htext, hpayload, by rw [hversion]⟩

/-! ## A rotation -/

/-- Holds of exchanges in which no jitter goes beyond its bound. -/
def jitterFits : Exchange (Question ι) Answer → Bool
  | ⟨.jitter _ bound, extra⟩ => extra.nanos ≤ bound.nanos
  | _ => true

/-- Holds of pairs of exchanges if they are not a lookup since the instant with another answer than
the new key. -/
def answersNew (topic : String) (key : KeyVersion) (since : Instant) :
    Exchange (Question ι) Answer × Exchange (Question ι) Answer → Bool
  | (⟨.time _, now⟩, ⟨.encryptionKey _ asked, answer⟩) =>
    decide (since ≤ now → asked = topic → answer = .ok (some key))
  | _ => true

/-- What follows each other in a list is in the list of its pairs. -/
theorem mem_zip_tail {α : Type} {a b : α} {l : List α} (h : [a, b] <:+: l) :
    (a, b) ∈ l.zip l.tail := by
  obtain ⟨before, after, rfl⟩ := h
  induction before with
  | nil => exact .head _
  | cons c rest ih =>
    rcases rest with _ | ⟨d, rest⟩
    · exact .tail _ (.head _)
    · exact .tail _ ih

/-- Whether a key was replaced can be checked. -/
theorem rotated_of_checks {history : History ι} (htold : ∀ now ∈ readings history, now.IsTold)
    (hforward : (readings history).Pairwise (· ≤ ·)) (hjitter : history.all jitterFits = true)
    (hanswers : (history.zip history.tail).all (answersNew topic key since) = true) :
    Rotated i topic key since history where
  told := htold
  forward := hforward
  bounded _ _ hextra := of_decide_eq_true (List.all_eq_true.mp hjitter _ hextra)
  rotated _ _ hlate hasked := of_decide_eq_true
    (List.all_eq_true.mp hanswers _ (mem_zip_tail hasked)) hlate rfl

/-- A history that goes on with a reading of a clock. -/
theorem exists_prefix_of_reading {history later : History ι} {now : Instant}
    (hlater : history <+: later)
    (hnow : (later.drop history.length).head?.bind reading? = some now) :
    ∃ i, history ++ [⟨.time i, now⟩] <+: later := by
  obtain ⟨said, rfl⟩ := hlater
  rw [List.drop_left] at hnow
  rcases said with _ | ⟨⟨question, answer⟩, rest⟩
  · exact absurd hnow (by simp)
  · cases question with
    | time i =>
      obtain rfl := Option.some.inj hnow
      exact ⟨i, rest, by simp⟩
    | _ => exact absurd hnow (by simp [reading?])

/-- The key of a topic before it is replaced. -/
def oldKey : KeyVersion := ⟨3, none, "AAECAwQFBgcICQoLDA0ODxAREhMUFRYXGBkaGxwdHh8="⟩

/-- The key that replaces it. -/
def newKey : KeyVersion := ⟨4, none, "gZvWT1IN0mM5sK3sK0V2Wfzo9Jmk4tUPt7gxRsuN3LY=\n"⟩

/-- Three messages are encrypted, at seconds 50, 74 and 100; the key is replaced after the first
one. -/
def rotating (history : History Unit) : (q : Question Unit) → Answer q
  | .readText => none
  | .writeText _ => (true, .ok ())
  | .time _ => .ofSecond
    (if history.length < 8 then 50 else if history.length < 13 then 74 else 100)
  | .jitter _ _ => .ofSeconds 5
  | .encryptionKey _ _ => .ok (some (if history.length < 8 then oldKey else newKey))
  | .decryptionKey _ _ _ _ => .error (.store "sealed")
  | .vector _ => .ok (List.replicate Gcm.ivLength 7)

/-- The cache still has the old key when the second message is encrypted, and so the engine keeps it
on.  The third message is encrypted under the new key, at the moment when both lifetimes of fifteen
and twenty-five seconds are over since second 60. -/
theorem encrypt_after_rotation :
    ∃ (s t : Engine.Memory × Place Unit) (envelope : Envelope),
      Reaches (performOver ⟨20, 5, 65536⟩ ⟨10, 5⟩ ()) (Engine.Memory.empty, fresh) s ∧
      Gives ((engine ⟨20, 5, 65536⟩ ⟨10, 5⟩ ()).encrypt "t" [1]) s (.ok envelope) t ∧
      Rotated () "t" newKey (.ofSecond 60) t.2.2 ∧
      ∃ topicKey iv payload keyName, TopicKey.ofText newKey.material = .ok topicKey ∧
        topicKey.encrypt iv [1] = .ok payload ∧
        envelope = ⟨payload, some iv, newKey.version, keyName⟩ := by
  let execution : Execution (StateT Engine.Memory (Outside Unit)) :=
    (Dialogue.responsive rotating).layer.layer
  let run := execution.follow (performOver ⟨20, 5, 65536⟩ ⟨10, 5⟩ ()) (Engine.Memory.empty, fresh)
    [.encrypt "t" [1], .encrypt "t" [1]]
  let outcome := execution.run ((engine ⟨20, 5, 65536⟩ ⟨10, 5⟩ ()).encrypt "t" [1]) run.2
  have hrun : Reaches (performOver ⟨20, 5, 65536⟩ ⟨10, 5⟩ ()) (Engine.Memory.empty, fresh) run.2 :=
    (execution.run_follow _ _ _).reaches
  have hgives : Gives ((engine ⟨20, 5, 65536⟩ ⟨10, 5⟩ ()).encrypt "t" [1]) run.2
      outcome.1 outcome.2 :=
    execution.gives_run _ _
  -- One evaluation of the run for all that has to be checked.
  obtain ⟨hreadings, hjitter, hanswers, hfirst, hok⟩ :
      readings outcome.2.2.2 = [50, 50, 74, 74, 100, 100].map .ofSecond ∧
      outcome.2.2.2.all jitterFits = true ∧
      (outcome.2.2.2.zip outcome.2.2.2.tail).all (answersNew "t" newKey (.ofSecond 60)) = true ∧
      (outcome.2.2.2.drop run.2.2.2.length).head?.bind reading? = some (.ofSecond 100) ∧
      outcome.1.isOk = true := by
    decide +kernel
  have hrotated : Rotated () "t" newKey (.ofSecond 60) outcome.2.2.2 := by
    refine rotated_of_checks ?_ ?_ hjitter hanswers <;> rw [hreadings]
    · refine List.forall_mem_map.mpr fun second hsecond => ⟨fun hleap => ?_, ?_, ?_⟩
      · exact absurd hleap Bool.false_ne_true
      · revert second
        decide
      · revert second
        decide
    · decide
  obtain ⟨_, hnow⟩ := exists_prefix_of_reading (gives_later hgives) hfirst
  obtain ⟨envelope, henvelope⟩ := isOk_iff.mp hok
  rw [henvelope] at hgives
  exact ⟨run.2, outcome.2, envelope, hrun, hgives, hrotated,
    encrypt_under_new_key hrun hgives hrotated hnow (by decide)⟩

end Shared

end TopicCipher
