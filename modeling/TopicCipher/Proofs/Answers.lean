import TopicCipher.KeySource
import TopicCipher.Proofs.Watched
import TopicCipher.Timing

/-!
# Laws of answers

What is known of the answers of a source of keys is an `AnswerLaw`.  It may depend on the place, for
instance on what has been said so far; then it has to last, so that an answer that was kept for a
while is still an answer.  A source upholds a law at the places of an invariant of the world that it
works in.  Caches in front of a source hand the law on to what is in front of them.
-/

namespace TopicCipher

/-- What is known of the answers of a source of keys. -/
structure AnswerLaw where
  /-- What may be answered about the key that a topic is encrypted under. -/
  encryption : String → Option KeyVersion → Prop
  /-- Which material may be answered about an old key. -/
  decryption : String → Version → Option String → String → Prop

variable {m : Type → Type} [Monad m] {P : Type} [Watched m P]

/-- What may be answered at a place may be answered at every later one. -/
structure AnswerLaw.Lasts (m : Type → Type) [Monad m] {P : Type} [Watched m P]
    (law : P → AnswerLaw) : Prop where
  encryption {s t : P} {topic : String} {answer : Option KeyVersion} :
    Later m s t → (law s).encryption topic answer → (law t).encryption topic answer
  decryption {s t : P} {topic : String} {version : Version} {keyName : Option String}
    {material : String} : Later m s t → (law s).decryption topic version keyName material →
      (law t).decryption topic version keyName material

theorem AnswerLaw.lasts_const (law : AnswerLaw) : AnswerLaw.Lasts m fun _ : P => law where
  encryption _ h := h
  decryption _ h := h

/-- A law of the places below lasts above as well. -/
theorem AnswerLaw.Lasts.layer {σ : Type} {law : P → AnswerLaw} (h : AnswerLaw.Lasts m law) :
    AnswerLaw.Lasts (StateT σ m) fun s : σ × P => law s.2 where
  encryption hlater := h.encryption hlater
  decryption hlater := h.decryption hlater

/-- At the places of `I` the source answers by the law, and it does not leave these places. -/
structure KeySource.Upholds (source : KeySource m) (law : P → AnswerLaw) (I : P → Prop) : Prop where
  encryptionKey {topic : String} {s t : P} {r : Except KeyError (Option KeyVersion)} :
    I s → Gives (source.encryptionKey topic) s r t →
      I t ∧ ∀ answer, r = .ok answer → (law t).encryption topic answer
  decryptionKey {topic : String} {version : Version} {keyName : Option String} {s t : P}
    {r : Except KeyError String} :
    I s → Gives (source.decryptionKey topic version keyName) s r t →
      I t ∧ ∀ material, r = .ok material → (law t).decryption topic version keyName material

/-- Reading the clock and drawing random extra time does not leave the places of `I`. -/
structure Timing.Keeps (timing : Timing m) (I : P → Prop) : Prop where
  now : TopicCipher.Keeps timing.now I
  jitter (bound : Span) : TopicCipher.Keeps (timing.jitter bound) I

/-- An expiry is drawn with the random extra time. -/
theorem Timing.gives_expiry {timing : Timing m} {now expiresAt : Instant} {ttl bound : Span}
    {s t : P} :
    Gives (timing.expiry now ttl bound) s expiresAt t ↔
      ∃ extra, expiresAt = expiryAfter now ttl extra ∧ Gives (timing.jitter bound) s extra t :=
  gives_bind_pure

theorem Timing.Keeps.expiry {timing : Timing m} {I : P → Prop} (h : timing.Keeps I)
    (now : Instant) (ttl bound : Span) : TopicCipher.Keeps (timing.expiry now ttl bound) I := by
  intro s a t hs hgives
  obtain ⟨extra, -, hextra⟩ := Timing.gives_expiry.mp hgives
  exact h.jitter bound hs hextra

/-- Timing from below keeps what it kept there. -/
theorem Timing.Keeps.lift {σ : Type} {timing : Timing m} {I : P → Prop} (h : timing.Keeps I) :
    (timing.lift : Timing (StateT σ m)).Keeps fun s => I s.2 where
  now := h.now.lift
  jitter bound := (h.jitter bound).lift

end TopicCipher
