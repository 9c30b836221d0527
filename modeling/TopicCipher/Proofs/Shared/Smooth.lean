import TopicCipher.Proofs.Shared.Updates

/-!
# When nothing goes wrong

Much of what a cache is for can only be promised when its surroundings keep their promises.  The
clocks do not go back and tell years of four digits, the text can be read, and what is written is
stored.  All of that can be read off the history: it is *smooth* since some place.

Two things cannot be read off the history alone, because they concern what a cache makes of it.  A
text may become too long and be replaced by an empty one, and somebody may ask to forget everything.
`ForgetsNothing` says of a step that it does neither.

Then every step leaves the text alone or stores a revision of all entries, and what such steps keep,
the run keeps.  The clock readings of a run follow the order in which they were told.

* `Smooth`, `ForgetsNothing`: nothing goes wrong.
* `Smooth.revision_or`: what a lookup does then.
* `Smooth.invariant`: what every such lookup keeps, the run keeps.
* `Smooth.le_of_said`: later readings are no earlier.
-/

namespace TopicCipher.Shared

open KeyCache

variable {ι : Type} {s t u v : Place ι}

/-! ## What was said since a place -/

/-- What was said since the first of two places. -/
def since (s t : Place ι) : History ι := t.2.drop s.2.length

@[simp] theorem since_append {text new : Option String} {history said : History ι} :
    since (text, history) (new, history ++ said) = said :=
  List.drop_left

theorem append_since (h : s.2 <+: t.2) : s.2 ++ since s t = t.2 :=
  List.prefix_iff_eq_append.mp h

theorem since_append_since (hst : s.2 <+: t.2) (htu : t.2 <+: u.2) :
    since s t ++ since t u = since s u := by
  have hsu := append_since (hst.trans htu)
  rw [← append_since htu, ← append_since hst, List.append_assoc] at hsu
  exact (List.append_cancel_left hsu).symm

/-- What was said between two places was said since the first of them. -/
theorem Said.mem_since {exchange : Exchange (Question ι) Answer} (h : Said s t exchange) :
    exchange ∈ since s t := by
  obtain ⟨said, hsaid, hmem⟩ := h
  rwa [since, hsaid, List.drop_left]

theorem Said.mem_readings {i : ι} {now : Instant} (h : Said s t ⟨.time i, now⟩) :
    now ∈ readings (since s t) :=
  List.mem_filterMap.mpr ⟨_, h.mem_since, rfl⟩

theorem Said.mem {exchange : Exchange (Question ι) Answer} (h : Said s t exchange) :
    exchange ∈ t.2 := by
  obtain ⟨said, hsaid, hmem⟩ := h
  rw [hsaid]
  exact List.mem_append_right _ hmem

theorem Said.reading_mem {i : ι} {now : Instant} (h : Said s t ⟨.time i, now⟩) :
    now ∈ readings t.2 :=
  List.mem_filterMap.mpr ⟨_, h.mem, rfl⟩

/-- What was said between two places was said between any two places around them. -/
theorem Said.around {exchange : Exchange (Question ι) Answer} (h : Said t u exchange)
    (hst : s.2 <+: t.2) (huv : u.2 <+: v.2) : Said s v exchange := by
  obtain ⟨said, hsaid, hmem⟩ := h
  obtain ⟨before, hbefore⟩ := hst
  obtain ⟨after, hafter⟩ := huv
  refine ⟨before ++ said ++ after, ?_, List.mem_append_left _ (List.mem_append_right _ hmem)⟩
  rw [← hafter, hsaid, ← hbefore, List.append_assoc, List.append_assoc, List.append_assoc]

theorem Said.later {exchange : Exchange (Question ι) Answer} (h : Said s t exchange) :
    s.2 <+: t.2 := by
  obtain ⟨said, hsaid, -⟩ := h
  exact ⟨said, hsaid.symm⟩

theorem asksSource_of_any (hlater : s.2 <+: t.2)
    (h : (since s t).any (·.question.isForSource) = true) : AsksSource s t := by
  obtain ⟨exchange, hmem, hasks⟩ := List.any_eq_true.mp h
  exact ⟨exchange, ⟨since s t, (append_since hlater).symm, hmem⟩, hasks⟩

/-! ## Smooth histories -/

/-- The clocks do not go back and tell years of four digits, the text can be read, and what is
written is stored. -/
structure Smooth (history : History ι) : Prop where
  forward : (readings history).Pairwise (· ≤ ·)
  years : ∀ now ∈ readings history, now.HasFourDigitYear
  reads : ∀ failure, ⟨.readText, failure⟩ ∈ history → failure = none
  writes : ∀ text stored, ⟨.writeText text, stored⟩ ∈ history → stored.1 = true

namespace Smooth

theorem of_infix {history part : History ι} (h : Smooth history) (hpart : part <:+: history) :
    Smooth part where
  forward := h.forward.sublist (hpart.sublist.filterMap _)
  years now hnow := h.years now ((hpart.sublist.filterMap _).mem hnow)
  reads failure hmem := h.reads failure (hpart.subset hmem)
  writes text stored hmem := h.writes text stored (hpart.subset hmem)

/-- What is smooth for some time is smooth in between. -/
theorem between (h : Smooth (since s v)) (hst : s.2 <+: t.2) (htu : t.2 <+: u.2)
    (huv : u.2 <+: v.2) : Smooth (since t u) := by
  refine h.of_infix ⟨since s t, since u v, ?_⟩
  rw [since_append_since hst htu, since_append_since (hst.trans htu) huv]

theorem hasFourDigitYear (h : Smooth (since s t)) {i : ι} {now : Instant}
    (hnow : Said s t ⟨.time i, now⟩) : now.HasFourDigitYear :=
  h.years now hnow.mem_readings

/-- **Later readings are no earlier.** -/
theorem le_of_said {r w : Place ι} (h : Smooth (since r w)) {i j : ι} {now later : Instant}
    (hrs : r.2 <+: s.2) (hnow : Said s t ⟨.time i, now⟩) (htu : t.2 <+: u.2)
    (hlater : Said u v ⟨.time j, later⟩) (hvw : v.2 <+: w.2) : now ≤ later := by
  have hforward := (h.between hrs (hnow.later.trans (htu.trans hlater.later)) hvw).forward
  rw [← since_append_since hnow.later (htu.trans hlater.later), readings, List.filterMap_append,
    List.pairwise_append] at hforward
  refine hforward.2.2 now hnow.mem_readings later ?_
  rw [← since_append_since htu hlater.later, List.filterMap_append]
  exact List.mem_append_right _ hlater.mem_readings

/-- What a lookup does when nothing goes wrong but for the length of the text. -/
theorem revision_or {options : CachingOptions} {i : ι} {lookup : Lookup}
    {answer : Except KeyError (Option KeyVersion)} (h : Smooth (since s t))
    (hgives : Gives (lookUp options i lookup) s answer t) :
    (t.1 = s.1 ∧ (AsksSource s t → ∀ key, answer ≠ .ok (some key))) ∨
      ∃ updated, Revision options i s t (entriesOf s.1) lookup answer updated ∧
        t.1 = some (storedText updated options.maxChars) := by
  refine (revision_of_gives hgives).imp_right ?_
  rintro ⟨failure, updated, stored, hread, hrevision, hwritten, htext⟩
  obtain rfl := h.reads failure hread.mem_since
  refine ⟨updated, hrevision, ?_⟩
  rw [htext, rewritten, if_pos (h.writes _ stored hwritten.mem_since)]

end Smooth

/-! ## Runs -/

variable {options : ι → CachingOptions} {steps : List (Step (Call ι) (Place ι))}

/-- The step is a lookup, and the text of what it would store is not too long. -/
def ForgetsNothing (options : ι → CachingOptions) (step : Step (Call ι) (Place ι)) : Prop :=
  ∃ i lookup, step.call = .lookUp i lookup ∧ ∀ answer updated,
    Revision (options i) i step.before step.after (entriesOf step.before.1) lookup answer updated →
      (serialize updated).length ≤ (options i).maxChars

/-- The lookup between two places leaves the text alone, and then it did not get a key from the
source behind; or it stores a revision of all entries. -/
def Proceeds (options : CachingOptions) (i : ι) (lookup : Lookup)
    (answer : Except KeyError (Option KeyVersion)) (s t : Place ι) : Prop :=
  (t.1 = s.1 ∧ (AsksSource s t → ∀ key, answer ≠ .ok (some key))) ∨
    ∃ updated, Revision options i s t (entriesOf s.1) lookup answer updated ∧
      t.1 = some (serialize updated)

/-- **What a lookup does when nothing goes wrong.** -/
theorem ForgetsNothing.proceeds {i : ι} {lookup : Lookup}
    {answer : Except KeyError (Option KeyVersion)}
    (h : ForgetsNothing options ⟨.lookUp i lookup, s, t⟩) (hsmooth : Smooth (since s t))
    (hgives : Gives (lookUp (options i) i lookup) s answer t) :
    Proceeds (options i) i lookup answer s t := by
  obtain ⟨_, _, hcall, hroom⟩ := h
  obtain ⟨rfl, rfl⟩ := Call.lookUp.inj hcall
  refine (hsmooth.revision_or hgives).imp_right ?_
  rintro ⟨updated, hrevision, htext⟩
  exact ⟨updated, hrevision,
    by rw [htext, storedText, if_neg (hroom answer updated hrevision).not_gt]⟩

/-- **What every lookup keeps when nothing goes wrong, the run keeps.** -/
theorem Smooth.invariant {I : Place ι → Prop} (hsmooth : Smooth (since s t))
    (hrun : Run (perform options) s steps t) (hroom : ∀ step ∈ steps, ForgetsNothing options step)
    (hstep : ∀ step ∈ steps, ∀ i lookup answer, step.call = .lookUp i lookup →
      Gives (lookUp (options i) i lookup) step.before answer step.after →
      Proceeds (options i) i lookup answer step.before step.after → I step.before → I step.after)
    (hs : I s) : I t := by
  induction hrun with
  | start => exact hs
  | @call steps t u call hrun hcall ih =>
    have hlater : s.2 <+: t.2 := hrun.reaches.later
    have hnext : t.2 <+: u.2 := gives_later hcall
    have ht : I t := ih (hsmooth.between (List.prefix_refl _) hlater hnext)
      (fun step hmem => hroom step (List.mem_append_left _ hmem))
      (fun step hmem => hstep step (List.mem_append_left _ hmem))
    have hlast : (⟨call, t, u⟩ : Step (Call ι) (Place ι)) ∈ steps ++ [⟨call, t, u⟩] :=
      List.mem_append_right _ (List.mem_singleton_self _)
    obtain ⟨i, lookup, rfl, -⟩ := hroom _ hlast
    obtain ⟨answer, hgives⟩ := gives_perform_lookUp.mp hcall
    have hproceeds := (hroom _ hlast).proceeds
      (hsmooth.between hlater hnext (List.prefix_refl _)) hgives
    exact hstep _ hlast i lookup answer rfl hgives hproceeds ht

/-! ## An outside that answers alike -/

/-- Nothing went wrong with the storage in the exchange. -/
def storageWorks : Exchange (Question ι) Answer → Bool
  | ⟨.readText, failure⟩ => failure.isNone
  | ⟨.writeText _, stored⟩ => stored.1
  | _ => true

/-- A history is smooth if the storage works and the clocks do not go back. -/
theorem smooth_of_works {history : History ι} (hworks : history.all storageWorks = true)
    (hforward : (readings history).Pairwise (· ≤ ·))
    (hyears : ∀ now ∈ readings history, now.HasFourDigitYear) : Smooth history where
  forward := hforward
  years := hyears
  reads _ hmem := Option.isNone_iff_eq_none.mp (List.all_eq_true.mp hworks _ hmem)
  writes text stored hmem := List.all_eq_true.mp hworks ⟨.writeText text, stored⟩ hmem

variable {oracle : (q : Question ι) → Answer q}

/-- Carries computations out in an outside that answers alike. -/
def withOracle (oracle : (q : Question ι) → Answer q) : Execution (Outside ι) :=
  (Dialogue.execution oracle).layer

/-- The outside at one instant, when nothing fails but the source perhaps, which has the given
answer about the keys to encrypt under. -/
def outsideAt (now : Instant) (answer : Except KeyError (Option KeyVersion)) :
    (q : Question ι) → Answer q
  | .readText => none
  | .writeText _ => (true, .ok ())
  | .time _ => now
  | .jitter _ _ => .zero
  | .encryptionKey _ _ => answer
  | .decryptionKey _ _ _ _ => .ok "old"
  | .vector _ => .ok []

/-- Only the answers of the outside are said. -/
theorem eq_oracle_of_said {α : Type} {x : Outside ι α} {q : Question ι} {answer : Answer q}
    (h : Said s ((withOracle oracle).run x s).2 ⟨q, answer⟩) : answer = oracle q := by
  obtain ⟨said, hsaid, hmem⟩ := h
  obtain rfl := List.append_cancel_left hsaid
  simpa using Dialogue.answer_eq_of_mem_under oracle _ hmem

/-- What a lookup stores then, if it stores anything. -/
def revised (oracle : (q : Question ι) → Answer q) (options : CachingOptions) (i : ι)
    (entries : List CacheEntry) : Lookup → List CacheEntry
  | .encryption topic =>
    let expiresAt := expiryAfter (oracle (.time i)) options.ttl
      (oracle (.jitter i options.maxJitter))
    match findEncryption entries topic (oracle (.time i)), oracle (.encryptionKey i topic) with
    | .expired newest, .ok (some key) => renew entries newest topic key expiresAt
    | .expired (some position), .error _ => extend entries position expiresAt
    | _, _ => entries
  | .decryption topic version keyName =>
    match oracle (.decryptionKey i topic version keyName) with
    | .ok material => entries ++ [.forDecryption topic version keyName material]
    | .error _ => entries

theorem Revision.eq_revised {options : CachingOptions} {i : ι} {lookup : Lookup}
    {answer : Except KeyError (Option KeyVersion)} {entries updated : List CacheEntry}
    (h : Revision options i s t entries lookup answer updated)
    (hanswer : ∀ q answer, Said s t ⟨q, answer⟩ → answer = oracle q) :
    updated = revised oracle options i entries lookup := by
  cases h with
  | renewed hnow hfind hasked hextra =>
    obtain rfl := hanswer _ _ hnow
    obtain rfl := hanswer _ _ hextra
    simp only [revised, hfind, ← hanswer _ _ hasked]
  | bridged hnow hfind hasked _ _ hextra =>
    obtain rfl := hanswer _ _ hnow
    obtain rfl := hanswer _ _ hextra
    simp only [revised, hfind, ← hanswer _ _ hasked]
  | added _ hasked => simp only [revised, ← hanswer _ _ hasked]

/-- A step forgets nothing if what it stores is short enough. -/
theorem forgetsNothing_of_oracle {i : ι} {lookup : Lookup} {α : Type} {x : Outside ι α}
    (h : (serialize (revised oracle (options i) i (entriesOf s.1) lookup)).length ≤
      (options i).maxChars) :
    ForgetsNothing options ⟨.lookUp i lookup, s, ((withOracle oracle).run x s).2⟩ := by
  refine ⟨i, lookup, rfl, fun answer updated hrevision => ?_⟩
  rwa [hrevision.eq_revised fun _ _ => eq_oracle_of_said]

end TopicCipher.Shared
