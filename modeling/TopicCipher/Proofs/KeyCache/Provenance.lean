import TopicCipher.Proofs.Answers
import TopicCipher.Proofs.KeyCache.Lookups

/-!
# Where the keys of a key cache come from

A key cache answers with what the source behind answered, now or when it was stored.  So a law of
the answers of the source behind is a law of the answers of the cache, provided that it is also a
law of the stored entries, and that it lasts as long as they do.

* `EntryLaw`: what has to be known of entries for that.
* `Grounded.upholds`: the cache hands the law on.
-/

namespace TopicCipher

variable {m : Type → Type} [Monad m] {P : Type} [Watched m P]

/-- What holds of every entry says the same as the law of answers: entries of which it holds may be
served, and answers that the law allows may be stored. -/
structure EntryLaw (V : CacheEntry → Prop) (law : AnswerLaw) : Prop where
  served {e : CacheEntry} : V e → e.isEncryption = true → law.encryption e.topic (some e.key)
  servedOld {e : CacheEntry} : V e → e.isEncryption = false →
    law.decryption e.topic e.key.version e.key.keyName e.key.material
  stored {topic : String} {key : KeyVersion} (expiresAt : Instant) :
    law.encryption topic (some key) → V (.forEncryption topic key expiresAt)
  storedOld {topic : String} {version : Version} {keyName : Option String} {material : String} :
    law.decryption topic version keyName material →
      V (.forDecryption topic version keyName material)
  longer {e : CacheEntry} (expiresAt : Instant) : V e → e.isEncryption = true →
    V { e with expiresAt := some expiresAt }

namespace CachedKeys

/-- The cache stands on a source that upholds a law that lasts, and what it loads and stores are
entries of which `V` holds. -/
structure Grounded (k : CachedKeys m) (law : P → AnswerLaw) (V : P → CacheEntry → Prop)
    (I : P → Prop) : Prop where
  lasts : AnswerLaw.Lasts m law
  later {s t : P} {e : CacheEntry} : Later m s t → V s e → V t e
  inner : k.inner.Upholds law I
  timing : k.timing.Keeps I
  entries (s : P) : EntryLaw (V s) (law s)
  load {s t : P} {entries : List CacheEntry} :
    I s → Gives k.load s entries t → I t ∧ ∀ e ∈ entries, V t e
  persist {s t : P} {entries : List CacheEntry} :
    I s → (∀ e ∈ entries, V s e) → Gives (k.persist entries) s () t → I t

namespace Grounded

variable {k : CachedKeys m} {law : P → AnswerLaw} {V : P → CacheEntry → Prop} {I : P → Prop}

theorem forall_later (h : k.Grounded law V I) {α : Type} {x : m α} {a : α} {s t : P}
    {entries : List CacheEntry} (hentries : ∀ e ∈ entries, V s e) (hx : Gives x s a t) :
    ∀ e ∈ entries, V t e :=
  fun e he => h.later (gives_later hx) (hentries e he)

theorem encryptionKey (h : k.Grounded law V I) {topic : String} {s t : P}
    {r : Except KeyError (Option KeyVersion)} (hs : I s)
    (hgives : Gives (k.encryptionKey topic) s r t) :
    I t ∧ ∀ answer, r = .ok answer → (law t).encryption topic answer := by
  cases encryptionLookup_of_gives hgives with
  | served hload hnow hfind =>
    obtain ⟨hp, hentries⟩ := h.load hs hload
    refine ⟨h.timing.now hp hnow, fun answer hanswer => ?_⟩
    obtain rfl := Except.ok.inj hanswer
    obtain ⟨e, he, rfl⟩ := KeyCache.exists_mem_of_findEncryption hfind
    obtain ⟨hmem, rfl, henc, -⟩ := KeyCache.mem_liveEntries.mp he
    exact (h.entries _).served (h.forall_later hentries hnow e hmem) henc
  | ambiguous hload hnow _ =>
    exact ⟨h.timing.now (h.load hs hload).1 hnow, fun answer hanswer => absurd hanswer (by simp)⟩
  | unkeyed hload hnow _ hasked =>
    exact h.inner.encryptionKey (h.timing.now (h.load hs hload).1 hnow) hasked
  | fetched hload hnow hfind hasked hexpiry hpersist =>
    obtain ⟨hp, hentries⟩ := h.load hs hload
    obtain ⟨ht, hlaw⟩ := h.inner.encryptionKey (h.timing.now hp hnow) hasked
    have hu := h.timing.expiry _ _ _ ht hexpiry
    have hstored := h.forall_later (h.forall_later (h.forall_later hentries hnow) hasked) hexpiry
    have hnew := h.lasts.encryption (gives_later hexpiry) (hlaw _ rfl)
    refine ⟨h.persist hu ?_ hpersist, fun answer hanswer => ?_⟩
    · refine KeyCache.forall_mem_renew hstored (fun position e hnewest he => ?_)
        ((h.entries _).stored _ hnew)
      obtain ⟨e', he', -, henc⟩ := KeyCache.exists_mem_of_newest?
        ((KeyCache.newest?_eq_of_findEncryption hfind).trans hnewest)
      obtain rfl := Option.some.inj (he.symm.trans he')
      exact (h.entries _).longer _ (hstored e (List.mem_of_getElem? he)) henc
    · obtain rfl := Except.ok.inj hanswer
      exact h.lasts.encryption (gives_later hpersist) hnew
  | failed hload hnow _ hasked _ =>
    exact ⟨(h.inner.encryptionKey (h.timing.now (h.load hs hload).1 hnow) hasked).1,
      fun answer hanswer => absurd hanswer (by simp)⟩
  | bridged hload hnow hfind hasked _ hstale hexpiry hpersist =>
    obtain ⟨hp, hentries⟩ := h.load hs hload
    obtain ⟨ht, -⟩ := h.inner.encryptionKey (h.timing.now hp hnow) hasked
    have hu := h.timing.expiry _ _ _ ht hexpiry
    have hstored := h.forall_later (h.forall_later (h.forall_later hentries hnow) hasked) hexpiry
    obtain ⟨e, he, htopic, henc⟩ := KeyCache.exists_mem_of_newest?
      (KeyCache.newest?_eq_of_findEncryption hfind)
    obtain rfl := Option.some.inj (hstale.symm.trans he)
    have hV := hstored _ (List.mem_of_getElem? he)
    refine ⟨h.persist hu ?_ hpersist, fun answer hanswer => ?_⟩
    · refine KeyCache.forall_mem_extend hstored (fun e' he' => ?_)
      obtain rfl := Option.some.inj (he.symm.trans he')
      exact (h.entries _).longer _ hV henc
    · obtain rfl := Except.ok.inj hanswer
      rw [← htopic]
      exact (h.entries _).served (h.later (gives_later hpersist) hV) henc

theorem decryptionKey (h : k.Grounded law V I) {topic : String} {version : Version}
    {keyName : Option String} {s t : P} {r : Except KeyError String} (hs : I s)
    (hgives : Gives (k.decryptionKey topic version keyName) s r t) :
    I t ∧ ∀ material, r = .ok material → (law t).decryption topic version keyName material := by
  cases decryptionLookup_of_gives hgives with
  | served hload hfind =>
    obtain ⟨hp, hentries⟩ := h.load hs hload
    refine ⟨hp, fun material hmaterial => ?_⟩
    obtain rfl := Except.ok.inj hmaterial
    obtain ⟨e, hmem, henc, rfl, hkey⟩ := KeyCache.exists_mem_of_findDecryption hfind
    have hserved := (h.entries _).servedOld (hentries e hmem) henc
    rwa [hkey] at hserved
  | ambiguous hload _ =>
    exact ⟨(h.load hs hload).1, fun material hmaterial => absurd hmaterial (by simp)⟩
  | failed hload _ hasked =>
    exact ⟨(h.inner.decryptionKey (h.load hs hload).1 hasked).1,
      fun material hmaterial => absurd hmaterial (by simp)⟩
  | fetched hload _ hasked hpersist =>
    obtain ⟨hp, hentries⟩ := h.load hs hload
    obtain ⟨hq, hlaw⟩ := h.inner.decryptionKey hp hasked
    have hnew := hlaw _ rfl
    refine ⟨h.persist hq (fun e he => ?_) hpersist, fun material hmaterial => ?_⟩
    · rcases List.mem_append.mp he with he | he
      · exact h.forall_later hentries hasked e he
      · rw [List.mem_singleton.mp he]
        exact (h.entries _).storedOld hnew
    · obtain rfl := Except.ok.inj hmaterial
      exact h.lasts.decryption (gives_later hpersist) hnew

/-- **A key cache hands on the law of the source behind it.** -/
theorem upholds (h : k.Grounded law V I) : k.source.Upholds law I where
  encryptionKey := h.encryptionKey
  decryptionKey := h.decryptionKey

end Grounded

end CachedKeys

end TopicCipher
