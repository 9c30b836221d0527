import TopicCipher.Proofs.Answers
import TopicCipher.Proofs.Engine.Lookups

/-!
# Where the keys in memory come from

An engine keeps answers of its source of keys.  So whatever is known of every answer of the source
is known of every key that the engine uses, at any time and after any operations: the memory holds
nothing that was not answered.  If the law depends on the place, it has to last, because the engine
uses at one place what was answered at an earlier one.

* `Memory.ComesFrom`: every key in memory was made from an answer that the law allows.
* `Grounded.lookup`, with `Grounded.encryptionKey` and `Grounded.decryptionKey`: so is every key
  that a lookup gives.
* `Grounded.keeps_encrypt` and its siblings: no operation of the engine breaks this.
-/

namespace TopicCipher.Engine

variable {m : Type → Type} [Monad m] {P : Type} [Watched m P]

/-- Every key in memory was made from an answer that the law allows. -/
structure Memory.ComesFrom (memory : Memory) (law : AnswerLaw) : Prop where
  encryption {topic : String} {kept : Kept (Option ActiveKey)} :
    memory.encryption.get? topic = some kept →
      ∃ answer, law.encryption topic answer ∧ ActiveKey.ofAnswer answer = .ok kept.value
  decryption {topic : String} {version : Version} {keyName : Option String}
    {kept : Kept TopicKey} :
    memory.decryption.get? (topic, version, keyName) = some kept →
      ∃ material, law.decryption topic version keyName material ∧
        TopicKey.ofText material = .ok kept.value

/-- A key of an answer is made from its material. -/
theorem ActiveKey.ofAnswer_some_eq_ok_iff {answer : KeyVersion} {found : Option ActiveKey} :
    ActiveKey.ofAnswer (some answer) = .ok found ↔
      ∃ key, TopicKey.ofText answer.material = .ok key ∧
        found = some ⟨answer.version, answer.keyName, key⟩ := by
  rw [ActiveKey.ofAnswer, bind_eq_ok_iff]
  simp only [Except.ok.injEq, @eq_comm _ _ found]

variable {law : AnswerLaw} {memory : Memory}

theorem Memory.comesFrom_empty (law : AnswerLaw) : Memory.empty.ComesFrom law where
  encryption h := absurd h (by simp [Memory.empty])
  decryption h := absurd h (by simp [Memory.empty])

/-- What was put into a slot came from where the new value or the old slots came from. -/
theorem Memory.ComesFrom.putEncryption (h : memory.ComesFrom law) {topic : String}
    {answer : Option KeyVersion} {kept : Kept (Option ActiveKey)}
    (hlaw : law.encryption topic answer) (hkey : ActiveKey.ofAnswer answer = .ok kept.value) :
    Memory.ComesFrom { memory with encryption := memory.encryption.put topic kept } law where
  encryption {other kept'} hget := by
    by_cases hother : other = topic
    · subst hother
      rw [Slots.get?_put_self] at hget
      obtain rfl := Option.some.inj hget
      exact ⟨answer, hlaw, hkey⟩
    · rw [Slots.get?_put_of_ne _ _ hother] at hget
      exact h.encryption hget
  decryption := h.decryption

theorem Memory.ComesFrom.putDecryption (h : memory.ComesFrom law) {topic : String}
    {version : Version} {keyName : Option String} {material : String} {kept : Kept TopicKey}
    (hlaw : law.decryption topic version keyName material)
    (hkey : TopicKey.ofText material = .ok kept.value) :
    Memory.ComesFrom
      { memory with decryption := memory.decryption.put (topic, version, keyName) kept } law where
  encryption := h.encryption
  decryption {topic' version' keyName' kept'} hget := by
    by_cases hother : ((topic', version', keyName') : OldKey) = (topic, version, keyName)
    · rw [hother, Slots.get?_put_self] at hget
      obtain ⟨rfl, rfl, rfl⟩ := Prod.mk.inj hother |>.imp_right Prod.mk.inj
      obtain rfl := Option.some.inj hget
      exact ⟨material, hlaw, hkey⟩
    · rw [Slots.get?_put_of_ne _ _ hother] at hget
      exact h.decryption hget

/-- What came from the law at a place comes from the law at every later one. -/
theorem Memory.ComesFrom.later {law : P → AnswerLaw} (hlaw : AnswerLaw.Lasts m law) {p q : P}
    (hlater : Later m p q) (h : memory.ComesFrom (law p)) : memory.ComesFrom (law q) where
  encryption hget := by
    obtain ⟨answer, hanswer, hkey⟩ := h.encryption hget
    exact ⟨answer, hlaw.encryption hlater hanswer, hkey⟩
  decryption hget := by
    obtain ⟨material, hmaterial, hkey⟩ := h.decryption hget
    exact ⟨material, hlaw.decryption hlater hmaterial, hkey⟩

/-- A value that is still kept is the value of its slot. -/
theorem exists_of_bind_live? {α : Type} {slot : Option (Kept α)} {now : Instant} {a : α}
    (h : slot.bind (·.live? now) = some a) :
    ∃ kept, slot = some kept ∧ now < kept.expiresAt ∧ kept.value = a := by
  obtain ⟨kept, hslot, hlive⟩ := Option.bind_eq_some_iff.mp h
  rw [Kept.live?] at hlive
  split at hlive
  next hlt => exact ⟨kept, hslot, hlt, Option.some.inj hlive⟩
  · exact absurd hlive (by simp)

/-- The engine stands on a source that upholds a law that lasts, and nothing else it does leaves the
places of `I`. -/
structure Grounded (e : Engine m) (law : P → AnswerLaw) (I : P → Prop) : Prop where
  lasts : AnswerLaw.Lasts m law
  keys : e.keys.Upholds law I
  timing : e.timing.Keeps I
  freshIv : Keeps e.freshIv I

/-- The places at which the memory comes from the law, above places of `I`. -/
def Grounds (law : P → AnswerLaw) (I : P → Prop) (s : Memory × P) : Prop :=
  s.1.ComesFrom (law s.2) ∧ I s.2

/-- What a lookup asks for, keeps and finds in its slot is allowed by the law. -/
structure Lookup.Obeys {α κ : Type} (l : Lookup m α κ) (law : P → AnswerLaw) (I : P → Prop)
    (allowed : AnswerLaw → α → Prop) : Prop where
  lasts {p q : P} {answer : α} : Later m p q → allowed (law p) answer → allowed (law q) answer
  ask {p q : P} {r : Except KeyError α} :
    I p → Gives l.ask p r q → I q ∧ ∀ answer, r = .ok answer → allowed (law q) answer
  slot {memory : Memory} {p : P} {kept : Kept κ} :
    memory.ComesFrom (law p) → l.slot memory = some kept →
      ∃ answer, allowed (law p) answer ∧ l.make answer = .ok kept.value
  fill {memory : Memory} {p : P} {answer : α} {kept : Kept κ} :
    memory.ComesFrom (law p) → allowed (law p) answer → l.make answer = .ok kept.value →
      (l.fill memory kept).ComesFrom (law p)

namespace Grounded

variable {e : Engine m} {law : P → AnswerLaw} {I : P → Prop} {s t : Memory × P} {p q : P}

/-- What leaves the memory alone and stays at places of `I` leaves everything grounded. -/
theorem grounds_of_gives (h : e.Grounded law I) {α : Type} {x : m α} {a : α}
    (hs : Grounds law I (memory, p)) (hx : Gives x p a q) (hq : I q) :
    Grounds law I (memory, q) :=
  ⟨hs.1.later h.lasts (gives_later hx), hq⟩

theorem obeys_encryptionLookup (h : e.Grounded law I) (topic : String) :
    (e.encryptionLookup topic).Obeys law I fun law answer => law.encryption topic answer where
  lasts := h.lasts.encryption
  ask := h.keys.encryptionKey
  slot hmemory hget := hmemory.encryption hget
  fill hmemory hallowed hmade := hmemory.putEncryption hallowed hmade

theorem obeys_decryptionLookup (h : e.Grounded law I) (topic : String) (version : Version)
    (keyName : Option String) :
    (e.decryptionLookup topic version keyName).Obeys law I
      fun law material => law.decryption topic version keyName material where
  lasts := h.lasts.decryption
  ask := h.keys.decryptionKey
  slot hmemory hget := hmemory.decryption hget
  fill hmemory hallowed hmade := hmemory.putDecryption hallowed hmade

/-- **A key that is looked up comes from an answer that the law allows**, also when it is taken from
memory. -/
theorem lookup (h : e.Grounded law I) {α κ : Type} {l : Lookup m α κ}
    {allowed : AnswerLaw → α → Prop} (hobeys : l.Obeys law I allowed)
    {r : Except EngineError κ} (hs : Grounds law I s) (hgives : Gives (e.lookup l) s r t) :
    Grounds law I t ∧ ∀ key, r = .ok key →
      ∃ answer, allowed (law t.2) answer ∧ l.make answer = .ok key := by
  cases gives_lookup.mp hgives with
  | kept hnow hkept =>
    have hq := h.grounds_of_gives hs hnow (h.timing.now hs.2 hnow)
    refine ⟨hq, fun key hkey => ?_⟩
    obtain ⟨kept, hslot, -, hvalue⟩ := exists_of_bind_live? hkept
    obtain ⟨answer, hallowed, hmade⟩ := hobeys.slot hq.1 hslot
    obtain rfl := Except.ok.inj hkey
    exact ⟨answer, hallowed, by rw [hmade, hvalue]⟩
  | refused hnow _ hasked =>
    have hq := h.grounds_of_gives hs hnow (h.timing.now hs.2 hnow)
    exact ⟨h.grounds_of_gives hq hasked (hobeys.ask hq.2 hasked).1,
      fun key hkey => absurd hkey (by simp)⟩
  | unusable hnow _ hasked _ =>
    have hq := h.grounds_of_gives hs hnow (h.timing.now hs.2 hnow)
    exact ⟨h.grounds_of_gives hq hasked (hobeys.ask hq.2 hasked).1,
      fun key hkey => absurd hkey (by simp)⟩
  | fetched hnow _ hasked hmade hexpiry =>
    have hq := h.grounds_of_gives hs hnow (h.timing.now hs.2 hnow)
    obtain ⟨hI, hanswered⟩ := hobeys.ask hq.2 hasked
    have ht := h.grounds_of_gives (h.grounds_of_gives hq hasked hI) hexpiry
      (h.timing.expiry _ _ _ hI hexpiry)
    have hallowed := hobeys.lasts (gives_later hexpiry) (hanswered _ rfl)
    refine ⟨⟨hobeys.fill ht.1 hallowed hmade, ht.2⟩, fun key hkey => ?_⟩
    obtain rfl := Except.ok.inj hkey
    exact ⟨_, hallowed, hmade⟩

/-- The key to encrypt under comes from an answer that the law allows. -/
theorem encryptionKey (h : e.Grounded law I) {topic : String}
    {r : Except EngineError (Option ActiveKey)} (hs : Grounds law I s)
    (hgives : Gives (e.encryptionKey topic) s r t) :
    Grounds law I t ∧ ∀ key, r = .ok key →
      ∃ answer, (law t.2).encryption topic answer ∧ ActiveKey.ofAnswer answer = .ok key := by
  rw [encryptionKey_eq_lookup] at hgives
  exact h.lookup (h.obeys_encryptionLookup topic) hs hgives

/-- An old key comes from an answer that the law allows. -/
theorem decryptionKey (h : e.Grounded law I) {topic : String} {version : Version}
    {keyName : Option String} {r : Except EngineError TopicKey} (hs : Grounds law I s)
    (hgives : Gives (e.decryptionKey topic version keyName) s r t) :
    Grounds law I t ∧ ∀ key, r = .ok key →
      ∃ material, (law t.2).decryption topic version keyName material ∧
        TopicKey.ofText material = .ok key := by
  rw [decryptionKey_eq_lookup] at hgives
  exact h.lookup (h.obeys_decryptionLookup topic version keyName) hs hgives

/-! ## Operations -/

theorem keeps_encrypt (h : e.Grounded law I) (topic : String) (plaintext : Bytes) :
    Keeps (e.encrypt topic plaintext) (Grounds law I) := by
  intro s r t hs hgives
  cases gives_encrypt.mp hgives with
  | failed hkey => exact (h.encryptionKey hs hkey).1
  | passed hkey => exact (h.encryptionKey hs hkey).1
  | sealed hkey hdrawn =>
    have hp := (h.encryptionKey hs hkey).1
    exact h.grounds_of_gives hp hdrawn (h.freshIv hp.2 hdrawn)

theorem keeps_decrypt (h : e.Grounded law I) (topic : String) (envelope : Envelope) :
    Keeps (e.decrypt topic envelope) (Grounds law I) := by
  intro s r t hs hgives
  cases gives_decrypt.mp hgives with
  | passed _ => exact hs
  | failed _ hkey => exact (h.decryptionKey hs hkey).1
  | opened _ hkey => exact (h.decryptionKey hs hkey).1

theorem keeps_encodeField (h : e.Grounded law I) (topic : String) (value : Option String) :
    Keeps (e.encodeField topic value) (Grounds law I) := by
  intro s r t hs hgives
  rcases value with _ | value
  · obtain ⟨-, rfl⟩ := gives_pure.mp hgives
    exact hs
  · obtain ⟨sealed, hsealed, -⟩ := gives_encodeField.mp hgives
    exact h.keeps_encrypt topic _ hs hsealed

theorem keeps_decodeField (h : e.Grounded law I) (topic : String) (value : Option String) :
    Keeps (e.decodeField topic value) (Grounds law I) := by
  intro s r t hs hgives
  rcases value with _ | value
  · obtain ⟨-, rfl⟩ := gives_pure.mp hgives
    exact hs
  · rcases hmarked : Field.isMarked value
    · obtain ⟨-, rfl⟩ := (gives_decodeField_of_not_isMarked hmarked).mp hgives
      exact hs
    · rcases (gives_decodeField_of_isMarked hmarked).mp hgives with
        ⟨err, -, -, rfl⟩ | ⟨envelope, opened, -, hopened, -⟩
      · exact hs
      · exact h.keeps_decrypt topic envelope hs hopened

/-- Forgetting all keys forgets none that should not be there. -/
theorem keeps_invalidate (law : P → AnswerLaw) (I : P → Prop) :
    Keeps (invalidate : StateT Memory m Unit) (Grounds law I) := by
  intro s r t hs hgives
  rw [invalidate, gives_set] at hgives
  rw [hgives]
  exact ⟨Memory.comesFrom_empty _, hs.2⟩

end Grounded

end TopicCipher.Engine
