import TopicCipher.Proofs.KeyCache.Provenance
import TopicCipher.Proofs.Shared.Updates

/-!
# Laws of shared caches

Where does a key come from that a cache hands out?  From the source behind it, or from the text,
which other caches have written, each with keys from a source of its own.  So what can be said of
the keys is what all sources together have answered so far, and a law of that has to hold of every
stored entry.

`Founded` lists what makes a law one of the answers so far: it lasts, it holds of every answer in
the history, and writing an entry and reading it again does not lead out of it.  Nothing else is
needed.  Failures of the storage, forgetting everything, and texts that are too long only take
entries away.

A line has no way to say an empty key name, so reading may turn one into none.  That is all that a
law has to allow for.

* `MayReadAs`: what reading may do to a key name.
* `Founded.grounded`: every cache stands on such a law, so it hands it on.
* `Founded.of_reaches`: what is stored obeys it, in every run.
-/

namespace TopicCipher.Shared

open KeyCache

variable {ι : Type} {s t : Place ι} {law : Place ι → AnswerLaw} {V : Place ι → CacheEntry → Prop}

/-! ## Key names -/

/-- The key name, as it is asked for, may read as the other one when it is stored. -/
def MayReadAs (asked keyName : Option String) : Prop :=
  asked = keyName ∨ asked = some "" ∧ keyName = none

theorem MayReadAs.filter {asked keyName : Option String} (h : MayReadAs asked keyName) :
    MayReadAs asked (keyName.filter (· ≠ "")) := by
  rcases h with rfl | ⟨rfl, rfl⟩
  · rcases asked with _ | name
    · exact .inl rfl
    · by_cases hname : name = ""
      · exact .inr ⟨by rw [hname], by simp [Option.filter, hname]⟩
      · exact .inl (by simp [Option.filter, hname])
  · exact .inr ⟨rfl, rfl⟩

/-! ## Laws -/

/-- The law says of the answers of the sources what `V` says of the entries that keep them. -/
structure Founded (law : Place ι → AnswerLaw) (V : Place ι → CacheEntry → Prop) : Prop where
  lasts : AnswerLaw.Lasts (Outside ι) law
  later {s t : Place ι} {e : CacheEntry} : s.2 <+: t.2 → V s e → V t e
  reread {s : Place ι} {e e' : CacheEntry} : V s e → reread? e = some e' → V s e'
  entries (s : Place ι) : EntryLaw (V s) (law s)
  encryption {s : Place ι} {i : ι} {topic : String} {answer : Option KeyVersion} :
    ⟨.encryptionKey i topic, .ok answer⟩ ∈ s.2 → (law s).encryption topic answer
  decryption {s : Place ι} {i : ι} {topic : String} {version : Version} {keyName : Option String}
    {material : String} : ⟨.decryptionKey i topic version keyName, .ok material⟩ ∈ s.2 →
      (law s).decryption topic version keyName material

namespace Founded

/-- A computation that leaves the text alone leaves all entries lawful. -/
theorem forall_later (h : Founded law V) (hs : ∀ e ∈ entriesOf s.1, V s e) (htext : t.1 = s.1)
    (hlater : s.2 <+: t.2) : ∀ e ∈ entriesOf t.1, V t e := by
  intro e he
  rw [htext] at he
  exact h.later hlater (hs e he)

theorem keeps_ask (h : Founded law V) (q : Question ι) :
    Keeps (ask q) fun s => ∀ e ∈ entriesOf s.1, V s e := by
  intro s answer t hs hgives
  obtain rfl := gives_ask.mp hgives
  exact h.forall_later (t := (s.1, _)) hs rfl (List.prefix_append _ _)

/-- A text that says lawful entries may be stored. -/
theorem forall_rewritten (h : Founded law V) (hs : ∀ e ∈ entriesOf s.1, V s e) {new : String}
    (hnew : ∀ e ∈ parse new, V s e) (stored : Bool × Except StorageError Unit) :
    ∀ e ∈ entriesOf (rewritten s.1 new stored),
      V (rewritten s.1 new stored, s.2 ++ [⟨.writeText new, stored⟩]) e := by
  rcases rewritten_cases s.1 new stored with hsame | hstored
  · exact h.forall_later (t := (_, _)) hs hsame (List.prefix_append _ _)
  · intro e he
    rw [hstored, entriesOf_some] at he
    exact h.later (List.prefix_append _ _) (hnew e he)

/-- **Every cache stands on the law.** -/
theorem grounded (h : Founded law V) (options : CachingOptions) (i : ι) :
    (cache options i).Grounded law V fun s => ∀ e ∈ entriesOf s.1, V s e where
  lasts := h.lasts
  later hlater := h.later hlater
  inner :=
    { encryptionKey := by
        intro topic s t r hs hgives
        refine ⟨h.keeps_ask _ hs hgives, ?_⟩
        obtain rfl := gives_ask.mp hgives
        rintro answer rfl
        exact h.encryption (List.mem_append_right _ (.head _))
      decryptionKey := by
        intro topic version keyName s t r hs hgives
        refine ⟨h.keeps_ask _ hs hgives, ?_⟩
        obtain rfl := gives_ask.mp hgives
        rintro material rfl
        exact h.decryption (List.mem_append_right _ (.head _)) }
  timing := ⟨h.keeps_ask _, fun _ => h.keeps_ask _⟩
  entries := h.entries
  load := by
    intro s t entries hs hgives
    obtain ⟨failure, rfl, rfl⟩ := gives_load.mp hgives
    exact ⟨h.forall_later (t := (s.1, _)) hs rfl (List.prefix_append _ _), fun e he =>
      h.later (List.prefix_append _ _) (hs e ((loaded_sublist _ failure).mem he))⟩
  persist := by
    intro s t entries hs hentries hgives
    obtain ⟨stored, rfl⟩ := gives_write.mp hgives
    exact h.forall_rewritten hs
      (forall_mem_parse_storedText (fun _ _ => h.reread) hentries _) stored

/-- Every call keeps the law. -/
theorem keeps_perform (h : Founded law V) (options : ι → CachingOptions) (call : Call ι) :
    Keeps (perform options call) fun s => ∀ e ∈ entriesOf s.1, V s e := by
  intro s _ t hs hgives
  cases call with
  | clear i =>
    obtain ⟨stored, rfl⟩ := gives_clear.mp hgives
    exact fun e he => h.later (List.prefix_append _ _)
      (hs e ((entriesOf_cleared_sublist s.1 stored).mem he))
  | lookUp i lookup =>
    obtain ⟨r, hlookup⟩ := gives_perform_lookUp.mp hgives
    cases lookup with
    | encryption topic => exact ((h.grounded _ i).encryptionKey hs hlookup).1
    | decryption topic version keyName =>
      obtain ⟨found, -, hfound⟩ := gives_lookUp_decryption.mp hlookup
      exact ((h.grounded _ i).decryptionKey hs hfound).1

/-- **What is stored in a run obeys the law.** -/
theorem of_reaches (h : Founded law V) {options : ι → CachingOptions}
    (hrun : Reaches (perform options) fresh s) : ∀ e ∈ entriesOf s.1, V s e :=
  hrun.invariant (I := fun s => ∀ e ∈ entriesOf s.1, V s e) (h.keeps_perform options)
    fun _ he => absurd he List.not_mem_nil

end Founded

end TopicCipher.Shared
