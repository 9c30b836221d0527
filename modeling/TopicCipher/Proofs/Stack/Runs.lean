import TopicCipher.Proofs.Engine.Provenance
import TopicCipher.Proofs.KeyCache.FaultyStorage
import TopicCipher.Proofs.KeyCache.Provenance
import TopicCipher.Proofs.KeyCache.Text
import TopicCipher.Proofs.Store.Lookups
import TopicCipher.Stack

/-!
# Runs of the full stack

Users of a stack call its engine, its cache of fields and, past the engine, its key cache.  A run
is any number of such calls in any order.

A stack is grounded on a law of answers if its store answers by the law, and if storage, clocks
and randomness do not leave the worlds of which `I` holds.  Then no call breaks the law anywhere:
not in the memory of the engine, not in the stored text.

* `Grounded.engine`: the layers of a grounded stack are grounded.
* `Grounded.keeps_perform`: no call breaks the law, and so no run does (`Grounded.reaches`).
-/

namespace TopicCipher.Stack

variable {m : Type → Type} [Monad m] {P C : Type} [Watched m P]

/-- What users of a stack may do. -/
inductive Call where
  | encrypt (topic : String) (plaintext : Bytes)
  | decrypt (topic : String) (envelope : Envelope)
  | encodeField (topic : String) (value : Option String)
  | decodeField (topic : String) (value : Option String)
  /-- A lookup that is made at the key cache itself. -/
  | encryptionKey (topic : String)
  /-- A lookup that is made at the key cache itself. -/
  | decryptionKey (topic : String) (version : Version) (keyName : Option String)
  /-- Forgets the keys in the memory of the engine. -/
  | invalidate
  /-- Forgets the stored entries. -/
  | clear

/-- Makes a call and leaves its answer alone. -/
def perform (k : Stack m C) : Call → StateT Engine.Memory (StateT (Option C) m) Unit
  | .encrypt topic plaintext => do let _ ← k.engine.encrypt topic plaintext
  | .decrypt topic envelope => do let _ ← k.engine.decrypt topic envelope
  | .encodeField topic value => do let _ ← k.engine.encodeField topic value
  | .decodeField topic value => do let _ ← k.engine.decodeField topic value
  | .encryptionKey topic => do let _ ← k.cache.encryptionKey topic
  | .decryptionKey topic version keyName => do
    let _ ← k.cache.decryptionKey topic version keyName
  | .invalidate => Engine.invalidate
  | .clear => k.cache.clear

/-- The places of a stack: the memory of the engine, the connection, and the world below. -/
abbrev Place (C P : Type) := Engine.Memory × Option C × P

/-- The stack stands on a store that upholds a law that lasts, what the storage holds are entries of
which `V` holds, and nothing else leaves the worlds of `I`. -/
structure Grounded (k : Stack m C) (law : P → AnswerLaw) (V : P → CacheEntry → Prop)
    (I : P → Prop) : Prop where
  lasts : AnswerLaw.Lasts m law
  later {s t : P} {e : CacheEntry} : Later m s t → V s e → V t e
  keys : k.keys.source.Upholds (fun s : Option C × P => law s.2) fun s => I s.2
  entries (s : P) : EntryLaw (V s) (law s)
  reread {s : P} {e e' : CacheEntry} : V s e → KeyCache.reread? e = some e' → V s e'
  read {s t : P} {r : Except StorageError (Option String)} :
    I s → Gives k.storage.read s r t → I t ∧
      ∀ text, r = .ok (some text) → ∀ e ∈ KeyCache.parse text, V t e
  write {s t : P} {text : String} {r : Except StorageError Unit} :
    I s → (∀ e ∈ KeyCache.parse text, V s e) → Gives (k.storage.write text) s r t → I t
  cacheTiming : k.cacheTiming.Keeps I
  engineTiming : k.engineTiming.Keeps I
  freshIv : Keeps k.freshIv I

/-- The places at which a grounded stack can be. -/
abbrev Grounds (law : P → AnswerLaw) (I : P → Prop) : Place C P → Prop :=
  Engine.Grounds (fun s => law s.2) fun s => I s.2

/-- A call whose answer is left alone leads where the call leads. -/
theorem keeps_ignored {n : Type → Type} [Monad n] {R : Type} [Watched n R] {α : Type} {x : n α}
    {I : R → Prop} (h : Keeps x I) : Keeps (do let _ ← x) I := by
  intro s a t hs hgives
  obtain ⟨b, hx⟩ := gives_bind_unit.mp hgives
  exact h hs hx

namespace Grounded

variable {k : Stack m C} {law : P → AnswerLaw} {V : P → CacheEntry → Prop} {I : P → Prop}

/-- What is loaded are entries of which `V` holds. -/
theorem load (h : k.Grounded law V I) {s t : Option C × P} {entries : List CacheEntry}
    (hs : I s.2) (hgives : Gives k.cache.load s entries t) :
    I t.2 ∧ ∀ e ∈ entries, V t.2 e := by
  obtain ⟨answer, hread, rfl⟩ := CachedKeys.gives_load.mp hgives
  obtain ⟨ht, hall⟩ := h.read hs (gives_lift.mp hread).2
  refine ⟨ht, ?_⟩
  rcases answer with err | _ | text
  · exact List.forall_mem_nil _
  · exact List.forall_mem_nil _
  · exact hall text rfl

/-- Storing a text of such entries does not leave the worlds of `I`. -/
theorem write_keeps (h : k.Grounded law V I) {s t : Option C × P} {text : String} (hs : I s.2)
    (htext : ∀ e ∈ KeyCache.parse text, V s.2 e) (hgives : Gives (k.cache.write text) s () t) :
    I t.2 := by
  obtain ⟨r, hwrite⟩ := CachedKeys.gives_write.mp hgives
  exact h.write hs htext (gives_lift.mp hwrite).2

theorem cache (h : k.Grounded law V I) :
    k.cache.Grounded (fun s : Option C × P => law s.2) (fun s => V s.2) fun s => I s.2 where
  lasts := h.lasts.layer
  later hlater := h.later hlater
  inner := h.keys
  timing := h.cacheTiming.lift
  entries s := h.entries s.2
  load := h.load
  persist hs hentries := h.write_keeps hs
    (KeyCache.forall_mem_parse_storedText (fun _ _ => h.reread) hentries _)

/-- **The engine of a grounded stack is grounded.** -/
theorem engine (h : k.Grounded law V I) :
    k.engine.Grounded (fun s : Option C × P => law s.2) fun s => I s.2 where
  lasts := h.lasts.layer
  keys := h.cache.upholds
  timing := h.engineTiming.lift
  freshIv := h.freshIv.lift

/-- A computation that does not touch the memory of the engine leaves it grounded. -/
theorem keeps_below (h : k.Grounded law V I) {α : Type} {x : StateT (Option C) m α}
    (hx : Keeps x fun s : Option C × P => I s.2) :
    Keeps (liftM x : StateT Engine.Memory (StateT (Option C) m) α) (Grounds law I) := by
  rintro ⟨memory, s⟩ a ⟨_, t⟩ hs hgives
  obtain ⟨rfl, hgives⟩ := gives_lift.mp hgives
  exact h.engine.grounds_of_gives hs hgives (hx hs.2 hgives)

/-- **No call breaks the law.** -/
theorem keeps_perform (h : k.Grounded law V I) (call : Call) :
    Keeps (k.perform call) (Grounds law I) := by
  cases call with
  | encrypt topic plaintext => exact keeps_ignored (h.engine.keeps_encrypt topic plaintext)
  | decrypt topic envelope => exact keeps_ignored (h.engine.keeps_decrypt topic envelope)
  | encodeField topic value => exact keeps_ignored (h.engine.keeps_encodeField topic value)
  | decodeField topic value => exact keeps_ignored (h.engine.keeps_decodeField topic value)
  | encryptionKey topic =>
    exact keeps_ignored (h.keeps_below fun s r t hs hgives => (h.cache.encryptionKey hs hgives).1)
  | decryptionKey topic version keyName =>
    exact keeps_ignored (h.keeps_below fun s r t hs hgives => (h.cache.decryptionKey hs hgives).1)
  | invalidate => exact Engine.Grounded.keeps_invalidate _ _
  | clear =>
    refine h.keeps_below fun s r t hs hgives => h.write_keeps hs (fun e he => ?_) hgives
    rw [KeyCache.parse_empty] at he
    exact absurd he List.not_mem_nil

/-- **No run breaks the law**, whatever the connection is like at its start. -/
theorem reaches (h : k.Grounded law V I) {connection : Option C} {world : P} (hworld : I world)
    {place : Place C P}
    (hrun : Reaches k.perform (Engine.Memory.empty, connection, world) place) :
    Grounds law I place :=
  hrun.invariant h.keeps_perform ⟨Engine.Memory.comesFrom_empty _, hworld⟩

end Grounded

end TopicCipher.Stack
