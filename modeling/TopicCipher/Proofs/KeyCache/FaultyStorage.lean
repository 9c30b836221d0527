import TopicCipher.KeyCache.Source
import TopicCipher.Proofs.Watched

/-!
# A storage that may fail at any time

Caches have to get along with every storage, so here is one that may do whatever a storage can do.
It keeps a text in a layer of state, and what becomes of the text is asked below.  A reading may
fail.  Of a text that is to be written, two things are asked: whether it is stored, and what is
said about that.  They need not agree, because a text can be stored although a failure is reported,
and can be lost although none is.

* `FaultyStorage.gives_read`, `FaultyStorage.gives_write`: what is read and what is kept.
* `CachedKeys.gives_load`, `CachedKeys.gives_write`: what a cache does with it.
-/

namespace TopicCipher

/-- What a storage asks that may fail at any time, and where it keeps its text. -/
structure FaultyStorage (σ : Type) (m : Type → Type) where
  /-- Why the text cannot be read now, if it cannot. -/
  failure : m (Option StorageError)
  /-- Whether a text is stored, and what is said about it. -/
  attempt : String → m (Bool × Except StorageError Unit)
  kept : σ → Option String
  keep : String → σ → σ

namespace FaultyStorage

variable {m : Type → Type} [Monad m] {σ : Type}

/-- The storage itself. -/
def storage (x : FaultyStorage σ m) : CacheStorage (StateT σ m) where
  read := do
    match ← (liftM x.failure : StateT σ m _) with
    | some err => return .error err
    | none => return .ok (x.kept (← get))
  write text := do
    let answer ← (liftM (x.attempt text) : StateT σ m _)
    if answer.1 then modify (x.keep text)
    return answer.2

variable {P : Type} [Watched m P] {x : FaultyStorage σ m} {s t : σ × P}

/-- **The text that is kept is read, or there is a failure.** -/
theorem gives_read {r : Except StorageError (Option String)} :
    Gives x.storage.read s r t ↔ ∃ failure, Gives x.failure s.2 failure t.2 ∧ t.1 = s.1 ∧
      r = failure.elim (.ok (x.kept s.1)) .error := by
  simp only [storage, gives_bind]
  constructor
  · rintro ⟨failure, u, hasked, hread⟩
    obtain ⟨hsame, hasked⟩ := gives_lift.mp hasked
    refine ⟨failure, ?_⟩
    rcases failure with _ | err
    · simp only [gives_bind, gives_get, gives_pure] at hread
      obtain ⟨_, _, ⟨rfl, rfl⟩, rfl, rfl⟩ := hread
      exact ⟨hasked, hsame, by rw [hsame]; rfl⟩
    · obtain ⟨rfl, rfl⟩ := gives_pure.mp hread
      exact ⟨hasked, hsame, rfl⟩
  · rintro ⟨failure, hasked, hsame, rfl⟩
    refine ⟨failure, t, gives_lift.mpr ⟨hsame, hasked⟩, ?_⟩
    rcases failure with _ | err
    · refine gives_bind.mpr ⟨t.1, t, gives_get.mpr ⟨rfl, rfl⟩, gives_pure.mpr ⟨?_, rfl⟩⟩
      rw [hsame]
      rfl
    · exact gives_pure.mpr ⟨rfl, rfl⟩

/-- **The text is kept if it is stored**, whatever is said about it. -/
theorem gives_write {text : String} {r : Except StorageError Unit} :
    Gives (x.storage.write text) s r t ↔ ∃ answer, Gives (x.attempt text) s.2 answer t.2 ∧
      t.1 = (if answer.1 then x.keep text s.1 else s.1) ∧ r = answer.2 := by
  simp only [storage, gives_bind]
  constructor
  · rintro ⟨answer, u, hasked, hwrite⟩
    obtain ⟨hsame, hasked⟩ := gives_lift.mp hasked
    refine ⟨answer, ?_⟩
    split at hwrite
    next hstored =>
      simp only [gives_bind, gives_modify, gives_pure] at hwrite
      obtain ⟨_, _, rfl, rfl, rfl⟩ := hwrite
      exact ⟨hasked, by rw [if_pos hstored, hsame], rfl⟩
    next hlost =>
      obtain ⟨rfl, rfl⟩ := gives_pure.mp hwrite
      exact ⟨hasked, by rw [if_neg hlost, hsame], rfl⟩
  · rintro ⟨answer, hasked, hkept, rfl⟩
    refine ⟨answer, (s.1, t.2), gives_lift.mpr ⟨rfl, hasked⟩, ?_⟩
    split
    next hstored =>
      rw [if_pos hstored] at hkept
      exact gives_bind.mpr
        ⟨(), t, gives_modify.mpr (Prod.ext hkept rfl), gives_pure.mpr ⟨rfl, rfl⟩⟩
    next hlost =>
      rw [if_neg hlost] at hkept
      exact gives_pure.mpr ⟨rfl, Prod.ext hkept rfl⟩

end FaultyStorage

/-! ## What is loaded -/

namespace KeyCache

/-- The entries of a stored text. -/
def entriesOf (text : Option String) : List CacheEntry := text.elim [] parse

@[simp] theorem entriesOf_some (text : String) : entriesOf (some text) = parse text := rfl

/-- What is loaded: the stored entries, or none if the text cannot be read. -/
def loaded (text : Option String) : Option StorageError → List CacheEntry
  | none => entriesOf text
  | some _ => []

theorem loaded_sublist (text : Option String) (failure : Option StorageError) :
    (loaded text failure).Sublist (entriesOf text) := by
  cases failure with
  | none => exact .refl _
  | some _ => exact List.nil_sublist _

/-- What is loaded are the entries of what is read. -/
theorem entriesOf_read (text : Option String) (failure : Option StorageError) :
    entriesOf (failure.elim (.ok text) Except.error : Except _ _).toOption.join =
      loaded text failure := by
  cases failure <;> rfl

end KeyCache

namespace CachedKeys

variable {m : Type → Type} [Monad m] {P : Type} [Watched m P] {k : CachedKeys m} {s t : P}

/-- A cache loads the entries of the text that it reads, and none if it cannot read one. -/
theorem gives_load {entries : List CacheEntry} :
    Gives k.load s entries t ↔ ∃ r, Gives k.storage.read s r t ∧
      entries = KeyCache.entriesOf r.toOption.join := by
  rw [load, gives_bind]
  constructor
  · rintro ⟨r, u, hread, hdone⟩
    rcases r with err | _ | text
    all_goals
      obtain ⟨rfl, rfl⟩ := gives_pure.mp hdone
      exact ⟨_, hread, rfl⟩
  · rintro ⟨r, hread, rfl⟩
    refine ⟨r, t, hread, ?_⟩
    rcases r with err | _ | text
    all_goals exact gives_pure.mpr ⟨rfl, rfl⟩

/-- What the storage says about a text that is to be stored is left alone. -/
theorem gives_write {text : String} :
    Gives (k.write text) s () t ↔ ∃ r, Gives (k.storage.write text) s r t :=
  gives_bind_unit

end CachedKeys

end TopicCipher
