import TopicCipher.Proofs.Shared.Frame
import TopicCipher.Proofs.Shared.Stored

/-!
# Through an outage

When the source behind is out of order, a cache serves a topic with the best of its expired entries
and lets that one live on.  So every bridge of the outage changes what the next choice is made from,
and the text is written anew on behalf of other topics all the time.  Still the topic must be
encrypted under one key until the outage is over: whoever reads the messages should not see keys
come and go.

The entry that was chosen stays the best one, because its expiry is only raised.  Its new expiry is
no earlier than its old one: that one had come at the reading of the clock that the new one is
counted from, and both respect the latest expiry there is.  If it is later, the entry is better than
all others from then on.  If it is not, which happens with a lifetime of zero and at the end of the
calendar, the entries are still the same set; and in their order, equal sets are equal lists, which
give equal choices.

So only a text that is not in its order can make the choice change.  That is what an empty key name
leads to: it is written behind the entries without a name, and read as one of them.

* `Endures`: what an outage makes of the entries of a topic.
* `endures_of_proceeds`: every lookup keeps it.
* `served_through_outage`: so every lookup is answered, and with one key.
-/

namespace TopicCipher

namespace KeyCache

variable {entries others next kept : List CacheEntry} {past : Instant → Prop} {best : CacheEntry}

/-! ## The entries of a topic -/

/-- The entry is one that can be chosen from the entries: no other one is better, and if they are in
their order, it is the one that is chosen. -/
structure MayChoose (entries : List CacheEntry) (best : CacheEntry) : Prop where
  mem : best ∈ entries
  notBetter : ∀ e ∈ entries, isNotBetter e best = true
  ordered : Ordered entries → best? entries = some best

/-- What an outage makes of the encryption entries of a topic: one that can be chosen from them
lives on, if it was needed at a past reading of the clock. -/
inductive Endures (past : Instant → Prop) (entries others : List CacheEntry) : Prop where
  | untouched (hperm : others.Perm entries) (horder : others = entries ∨ Ordered others)
  | extended {best : CacheEntry} {kept : List CacheEntry} {expiry longer reading : Instant}
      (hbest : MayChoose entries best) (hexpiry : best.expiresAt = some expiry)
      (hlonger : expiry < longer) (hentries : entries.Perm (best :: kept))
      (hothers : others.Perm ({ best with expiresAt := some longer } :: kept))
      (hpast : past reading) (hexpired : ∀ e ∈ entries, e.isExpiredAt reading = true)

namespace Endures

theorem mono {later : Instant → Prop} (h : Endures past entries others)
    (hlater : ∀ reading, past reading → later reading) : Endures later entries others := by
  cases h with
  | untouched hperm horder => exact .untouched hperm horder
  | extended hbest hexpiry hlonger hentries hothers hpast hexpired =>
    exact .extended hbest hexpiry hlonger hentries hothers (hlater _ hpast) hexpired

theorem ne_nil (h : Endures past entries others) (hne : entries ≠ []) : others ≠ [] := by
  rintro rfl
  cases h with
  | untouched hperm _ => exact hne hperm.symm.eq_nil
  | extended _ _ _ _ hothers _ _ => exact absurd hothers.symm.eq_nil (List.cons_ne_nil _ _)

/-- Writing the entries anew changes no more than their order. -/
theorem rewritten (h : Endures past entries others) (hperm : next.Perm others)
    (horder : next = others ∨ Ordered next) : Endures past entries next := by
  cases h with
  | untouched hsame hbefore =>
    refine .untouched (hperm.trans hsame) ?_
    rcases horder with rfl | hordered
    · exact hbefore
    · exact .inr hordered
  | extended hbest hexpiry hlonger hentries hothers hpast hexpired =>
    exact .extended hbest hexpiry hlonger hentries (hperm.trans hothers) hpast hexpired

/-- What is chosen from the same entries could be chosen from the beginning. -/
theorem mayChoose_of_perm (hperm : others.Perm entries) (horder : others = entries ∨ Ordered others)
    (hbest : best? others = some best) : MayChoose entries best where
  mem := hperm.mem_iff.mp (mem_of_best? hbest)
  notBetter e he := isNotBetter_of_best? hbest e (hperm.mem_iff.mpr he)
  ordered hordered := by
    rcases horder with rfl | hothers
    · exact hbest
    · rwa [← eq_of_perm_of_ordered hperm hothers hordered]

/-- **An entry whose expiry was raised is chosen**, if it could be chosen before. -/
theorem best?_eq_of_extended {expiry longer : Instant} (hbest : MayChoose entries best)
    (hexpiry : best.expiresAt = some expiry) (hlonger : expiry < longer)
    (hentries : entries.Perm (best :: kept))
    (hothers : others.Perm ({ best with expiresAt := some longer } :: kept)) :
    best? others = some { best with expiresAt := some longer } := by
  refine best?_eq_of_forall (hothers.mem_iff.mpr List.mem_cons_self) fun e he hnot => ?_
  rcases List.mem_cons.mp (hothers.mem_iff.mp he) with hsame | hmem
  · exact hsame
  · have hkept := hbest.notBetter e (hentries.mem_iff.mpr (List.mem_cons_of_mem _ hmem))
    rcases (isNotBetter_iff rfl hexpiry).mp (isNotBetter_trans hnot hkept) with hlt | ⟨-, hle⟩
    · exact absurd hlt (UInt32.lt_irrefl _)
    · exact absurd hle (Instant.not_le.mpr hlonger)

/-- The stale entry that is chosen has the key of one that could be chosen from the beginning. -/
theorem exists_mayChoose (h : Endures past entries others) {stale : CacheEntry}
    (hstale : best? others = some stale) :
    ∃ best, MayChoose entries best ∧ stale.key = best.key := by
  cases h with
  | untouched hperm horder => exact ⟨stale, mayChoose_of_perm hperm horder hstale, rfl⟩
  | extended hbest hexpiry hlonger hentries hothers _ _ =>
    have hchosen := best?_eq_of_extended hbest hexpiry hlonger hentries hothers
    obtain rfl := Option.some.inj (hchosen.symm.trans hstale)
    exact ⟨_, hbest, rfl⟩

/-- **Bridging the outage once more** makes no other entry live on than before. -/
theorem bridged (h : Endures past entries others) {stale : CacheEntry}
    {expiry longer reading : Instant}
    (hstale : best? others = some stale) (hexpiry : stale.expiresAt = some expiry)
    (hle : expiry ≤ longer) (hothers : others.Perm (stale :: kept))
    (hnext : next.Perm ({ stale with expiresAt := some longer } :: kept)) (hordered : Ordered next)
    (hpast : past reading) (hexpired : ∀ e ∈ others, e.isExpiredAt reading = true) :
    Endures past entries next := by
  cases h with
  | untouched hperm horder =>
    by_cases hlonger : longer ≤ expiry
    · obtain rfl := Instant.le_antisymm hle hlonger
      have hsame : ({ stale with expiresAt := some expiry } : CacheEntry) = stale := by
        rw [← hexpiry]
      rw [hsame] at hnext
      exact .untouched ((hnext.trans hothers.symm).trans hperm) (.inr hordered)
    · exact .extended (mayChoose_of_perm hperm horder hstale) hexpiry (Instant.not_le.mp hlonger)
        (hperm.symm.trans hothers) hnext hpast fun e he => hexpired e (hperm.mem_iff.mpr he)
  | extended hbest hbefore hlonger hentries hextended hpast' hexpired' =>
    have hchosen := best?_eq_of_extended hbest hbefore hlonger hentries hextended
    obtain rfl := Option.some.inj (hchosen.symm.trans hstale)
    obtain rfl := Option.some.inj hexpiry
    have hkept := (hextended.symm.trans hothers).cons_inv
    exact .extended hbest hbefore (Instant.lt_of_lt_of_le hlonger hle) hentries
      (hnext.trans (hkept.symm.cons _)) hpast' hexpired'

end Endures

/-! ## What is served -/

/-- The key that a topic is served with when the source behind is out of order. -/
inductive Bridges (entries : List CacheEntry) (topic : String) (now : Instant) :
    KeyVersion → Prop where
  | live {e : CacheEntry} (hlive : liveEntries entries topic now = [e]) :
      Bridges entries topic now e.key
  | stale {best : CacheEntry} (hlive : liveEntries entries topic now = [])
      (hbest : best? (encryptionEntries entries topic) = some best) :
      Bridges entries topic now best.key

variable {base : List CacheEntry} {topic : String} {now : Instant}

theorem perm_liveEntries
    (h : (encryptionEntries entries topic).Perm (encryptionEntries others topic))
    (now : Instant) : (liveEntries entries topic now).Perm (liveEntries others topic now) := by
  rw [liveEntries_eq_filter, liveEntries_eq_filter]
  exact h.filter _

/-- What is served in an outage is found as the only live entry, or as the best expired one. -/
theorem Bridges.find {key : KeyVersion} (h : Bridges entries topic now key) :
    findEncryption entries topic now = .served key ∨
      ∃ position stale, findEncryption entries topic now = .expired (some position) ∧
        entries[position]? = some stale ∧ stale.key = key := by
  cases h with
  | live hlive => exact .inl (by rw [findEncryption, hlive])
  | stale hlive hbest =>
    rw [← newest?_bind_eq, Option.bind_eq_some_iff] at hbest
    obtain ⟨position, hnewest, hstale⟩ := hbest
    exact .inr ⟨position, _, by rw [findEncryption, hlive, hnewest], hstale, rfl⟩

/-- **Which key bridges the outage**: that of the live entry, or of one that could be chosen from
the beginning. -/
theorem Endures.exists_bridges
    (h : Endures past (encryptionEntries base topic) (encryptionEntries entries topic))
    (hlast : ∀ reading, past reading → reading ≤ now) (hne : encryptionEntries base topic ≠ [])
    (hcount : (liveEntries base topic now).length ≤ 1) :
    (∃ e, liveEntries base topic now = [e] ∧ Bridges entries topic now e.key) ∨
      (liveEntries base topic now = [] ∧
        ∃ best, MayChoose (encryptionEntries base topic) best ∧
          Bridges entries topic now best.key) := by
  -- If nothing is live, then what is chosen could be chosen from the beginning.
  have hstale : liveEntries entries topic now = [] → ∃ best,
      MayChoose (encryptionEntries base topic) best ∧ Bridges entries topic now best.key := by
    intro hlive
    obtain ⟨stale, hstale⟩ := exists_best? (h.ne_nil hne)
    obtain ⟨best, hbest, hkey⟩ := h.exists_mayChoose hstale
    exact ⟨best, hbest, hkey ▸ .stale hlive hstale⟩
  cases h with
  | untouched hperm _ =>
    have hlive := perm_liveEntries hperm now
    rcases hbase : liveEntries base topic now with _ | ⟨e, _ | ⟨other, rest⟩⟩
    · rw [hbase] at hlive
      exact .inr ⟨rfl, hstale hlive.eq_nil⟩
    · rw [hbase] at hlive
      exact .inl ⟨e, rfl, .live (List.perm_singleton.mp hlive)⟩
    · rw [hbase] at hcount
      exact absurd hcount (by simp)
  | @extended best kept expiry longer reading hbest hexpiry hlonger hentries hothers hpast
      hexpired =>
    have hexpired' : ∀ e ∈ encryptionEntries base topic, e.isExpiredAt now = true :=
      fun e he => isExpiredAt_of_le (hexpired e he) (hlast reading hpast)
    have hnone : liveEntries base topic now = [] := by
      rw [liveEntries_eq_filter, List.filter_eq_nil_iff]
      exact fun e he => by simp [hexpired' e he]
    have hkept : (kept.filter fun e => !e.isExpiredAt now) = [] := by
      rw [List.filter_eq_nil_iff]
      intro e he
      simp [hexpired' e (hentries.mem_iff.mpr (List.mem_cons_of_mem _ he))]
    have hlive := hothers.filter fun e => !e.isExpiredAt now
    rw [← liveEntries_eq_filter, List.filter_cons, hkept] at hlive
    refine .inr ⟨hnone, ?_⟩
    split at hlive
    · have hbridges : Bridges entries topic now
          ({ best with expiresAt := some longer } : CacheEntry).key :=
        .live (List.perm_singleton.mp hlive)
      exact ⟨best, hbest, hbridges⟩
    · exact hstale hlive.eq_nil

end KeyCache

namespace Shared

open KeyCache

variable {ι : Type} {options : CachingOptions} {i : ι} {s t : Place ι} {topic : String}
  {answer : Except KeyError (Option KeyVersion)}

/-- Whenever a source was asked between the places for the key to encrypt the topic under, its store
failed. -/
def StoreFails (topic : String) (s t : Place ι) : Prop :=
  ∀ j answer, Said s t ⟨.encryptionKey j topic, answer⟩ → ∃ reason, answer = .error (.store reason)

theorem StoreFails.between {v : Place ι} (h : StoreFails topic s v) {u : Place ι}
    (hst : s.2 <+: t.2) (huv : u.2 <+: v.2) :
    StoreFails topic t u :=
  fun j answer hasked => h j answer (hasked.around hst huv)

theorem StoreFails.not_told (h : StoreFails topic s t) (j : ι) (key : KeyVersion) :
    ¬ Said s t ⟨.encryptionKey j topic, .ok (some key)⟩ := by
  intro hasked
  obtain ⟨_, herror⟩ := h j _ hasked
  exact absurd herror (by simp)

/-- **What a lookup answers in an outage.** -/
theorem exists_answer_of_bridges (h : Gives ((cache options i).encryptionKey topic) s answer t)
    (hsmooth : Smooth (since s t)) (houtage : StoreFails topic s t) :
    ∃ now, Said s t ⟨.time i, now⟩ ∧
      ∀ key, Bridges (entriesOf s.1) topic now key → answer = .ok (some key) := by
  obtain ⟨text, history⟩ := s
  have hreads : ∀ failure, Said (text, history) t ⟨.readText, failure⟩ → failure = none :=
    fun failure hread => hsmooth.reads failure hread.mem_since
  cases encryptionTurn_of_gives h with
  | @served failure now key hfind =>
    obtain rfl := hreads failure (by simp)
    refine ⟨now, by simp, fun found hfound => ?_⟩
    rcases hfound.find with hserved | ⟨_, _, hexpired, -, -⟩
    · obtain rfl := EncryptionFind.served.inj (hfind.symm.trans hserved)
      rfl
    · exact absurd (hfind.symm.trans hexpired) (by simp)
  | @ambiguous failure now candidates hfind =>
    obtain rfl := hreads failure (by simp)
    refine ⟨now, by simp, fun found hfound => ?_⟩
    rcases hfound.find with hserved | ⟨_, _, hexpired, -, -⟩
    · exact absurd (hfind.symm.trans hserved) (by simp)
    · exact absurd (hfind.symm.trans hexpired) (by simp)
  | unkeyed _ =>
    obtain ⟨_, herror⟩ := houtage i (.ok none) (by simp)
    exact absurd herror (by simp)
  | @fetched failure now newest key extra new stored _ _ =>
    obtain ⟨_, herror⟩ := houtage i (.ok (some key)) (by simp)
    exact absurd herror (by simp)
  | @failed failure now newest err hfind hlost =>
    obtain rfl := hreads failure (by simp)
    obtain ⟨reason, herr⟩ := houtage i (.error err) (by simp)
    obtain rfl := Except.error.inj herr
    refine ⟨now, by simp, fun found hfound => ?_⟩
    rcases hfound.find with hserved | ⟨position, stale, hexpired, hstale, -⟩
    · exact absurd (hfind.symm.trans hserved) (by simp)
    · obtain rfl := EncryptionFind.expired.inj (hfind.symm.trans hexpired)
      rcases hlost with hnone | hnone
      · exact absurd (hstale.symm.trans hnone) (by simp)
      · exact absurd hnone (by simp [KeyError.isOutage])
  | @bridged failure now position stale err extra new stored hfind _ hstale _ =>
    obtain rfl := hreads failure (by simp)
    refine ⟨now, by simp, fun found hfound => ?_⟩
    rcases hfound.find with hserved | ⟨position', stale', hexpired, hstale', rfl⟩
    · exact absurd (hfind.symm.trans hserved) (by simp)
    · obtain rfl := Option.some.inj (EncryptionFind.expired.inj (hfind.symm.trans hexpired))
      obtain rfl := Option.some.inj (hstale.symm.trans hstale')
      rfl

/-! ## Runs -/

variable {options : ι → CachingOptions} {steps : List (Step (Call ι) (Place ι))} {u v : Place ι}

/-- Other lookups change nothing about the encryption entries of a topic but their order. -/
theorem Rewritten.perm_encryptionEntries {lookup : Lookup} {entries stored : List CacheEntry}
    (h : Rewritten lookup answer entries stored) (hother : lookup ≠ .encryption topic) :
    (encryptionEntries stored topic).Perm (encryptionEntries entries topic) := by
  have halone : ∀ e : CacheEntry, e.topic = topic → e.isEncryption = true →
      lookup.leavesAlone e = true := by
    rintro e rfl henc
    cases lookup with
    | encryption asked =>
      have hne : ¬ e.topic = asked := fun hsame => hother (congrArg _ hsame.symm)
      simp [Lookup.leavesAlone, Lookup.topic, hne]
    | decryption _ _ _ => simp [Lookup.leavesAlone, Lookup.isEncryption, henc]
  have hfilter : ∀ l : List CacheEntry,
      encryptionEntries (l.filter lookup.leavesAlone) topic = encryptionEntries l topic := by
    intro l
    rw [encryptionEntries, encryptionEntries, List.filter_filter]
    refine List.filter_congr fun e _ => ?_
    rw [Bool.eq_iff_iff, Bool.and_eq_true, and_iff_left_iff_imp, Bool.and_eq_true,
      decide_eq_true_eq]
    exact fun h => halone e h.1 h.2
  rw [← hfilter stored, ← hfilter entries]
  exact h.perm_others.filter _

/-- The best expired entry lives on until an expiry that is no earlier than its old one. -/
theorem endures_extend {all entries : List CacheEntry} {past : Instant → Prop} {now : Instant}
    {position : Nat} {ttl extra : Span}
    (h : Endures past entries (encryptionEntries all topic)) (hstable : ∀ e ∈ all, IsStable e)
    (hlatest : ∀ e ∈ all, ∀ x, e.expiresAt = some x → x ≤ latestExpiry)
    (hfind : findEncryption all topic now = .expired (some position)) (hproper : now.IsProper)
    (hyear : 0 ≤ now.year) (hpast : past now)
    (hordered : Ordered (encryptionEntries
      (parse (serialize (extend all position (expiryAfter now ttl extra)))) topic)) :
    Endures past entries
      (encryptionEntries
        (parse (serialize (extend all position (expiryAfter now ttl extra)))) topic) := by
  obtain ⟨e, he, htopic, henc⟩ := exists_mem_of_newest? (newest?_eq_of_findEncryption hfind)
  have hbest : best? (encryptionEntries all topic) = some e := by
    rw [← newest?_bind_eq, newest?_eq_of_findEncryption hfind, Option.bind_some, he]
  have hexpired := isExpiredAt_of_findEncryption hfind
  obtain ⟨expiry, hexpiry⟩ := Option.isSome_iff_exists.mp henc
  have hcome : expiry ≤ now := le_of_isExpiredAt (hexpired e (mem_of_best? hbest)) hexpiry
  have hlonger : expiry ≤ expiryAfter now ttl extra :=
    le_expiryAfter hcome (hlatest e (List.mem_of_getElem? he) expiry hexpiry) ttl extra
  have hothers := (perm_extend he (expiryAfter now ttl extra)).1.filter
    fun e => e.topic = topic && e.isEncryption
  have hnext := (perm_parse_extend hstable he (hasFourDigitYear_expiryAfter hyear ttl extra)).filter
    fun e => e.topic = topic && e.isEncryption
  rw [Instant.carry_of_isProper (isProper_expiryAfter hproper ttl extra)] at hnext
  rw [List.filter_cons_of_pos (by simp [htopic, henc])] at hothers
  rw [List.filter_cons_of_pos (by simp [htopic, CacheEntry.isEncryption])] at hnext
  exact h.bridged hbest hexpiry hlonger hothers hnext hordered hpast hexpired

/-- **Every lookup keeps what an outage makes of the entries.** -/
theorem endures_of_proceeds {entries : List CacheEntry} {past : Instant → Prop} {lookup : Lookup}
    (hproceeds : Proceeds (options i) i lookup answer s t) (hlater : s.2 <+: t.2)
    (hrun : Reaches (perform options) fresh s) (hproper : ∀ now ∈ readings t.2, now.IsProper)
    (hyears : ∀ now, Said s t ⟨.time i, now⟩ → now.HasFourDigitYear)
    (houtage : StoreFails topic s t) (hpast : ∀ now, Said s t ⟨.time i, now⟩ → past now)
    (h : Endures past entries (encryptionEntries (entriesOf s.1) topic)) :
    Endures past entries (encryptionEntries (entriesOf t.1) topic) := by
  rcases hproceeds with ⟨hsame, -⟩ | ⟨updated, hrevision, htext⟩
  · rwa [hsame]
  · have hstable := isStable_of_reaches hrun
    have hbefore : ∀ now ∈ readings s.2, now.IsProper :=
      fun now hnow => hproper now ((hlater.filterMap _).subset hnow)
    rw [htext, entriesOf_some]
    have hordered : Ordered (encryptionEntries (parse (serialize updated)) topic) :=
      hrevision.ordered asRead_of_mem_entriesOf (fun now hnow => hproper now hnow.reading_mem)
        fun key hasked => absurd hasked (houtage.not_told i key)
    by_cases hlookup : lookup = .encryption topic
    · subst hlookup
      cases hrevision with
      | renewed _ _ hasked _ =>
        exact absurd hasked (houtage.not_told i _)
      | @bridged _ now position stale err extra hnow hfind _ _ hstale _ =>
        exact endures_extend h hstable
          (fun e he x hx => (expiry_of_reaches hrun hbefore e he x hx).2) hfind
          (hproper now hnow.reading_mem) (hyears now hnow).1 (hpast now hnow) hordered
    · exact h.rewritten ((hrevision.update.rewritten hstable hyears).perm_encryptionEntries hlookup)
        (.inr hordered)

/-- **What an outage makes of the entries in a run.** -/
theorem endures_of_run (hreaches : Reaches (perform options) fresh s)
    (hproper : ∀ now ∈ readings t.2, now.IsProper) (hrun : Run (perform options) s steps t)
    (hsmooth : Smooth (since s t)) (hroom : ∀ step ∈ steps, ForgetsNothing options step)
    (houtage : StoreFails topic s t) :
    Reaches (perform options) fresh t ∧
      Endures (fun reading => ∃ j, Said s t ⟨.time j, reading⟩)
        (encryptionEntries (entriesOf s.1) topic) (encryptionEntries (entriesOf t.1) topic) := by
  refine hsmooth.invariant (I := fun u => Reaches (perform options) fresh u ∧
    Endures (fun reading => ∃ j, Said s u ⟨.time j, reading⟩)
      (encryptionEntries (entriesOf s.1) topic) (encryptionEntries (entriesOf u.1) topic))
    hrun hroom ?_ ⟨hreaches, .untouched (.refl _) (.inl rfl)⟩
  rintro step hstep i lookup answer - - hproceeds ⟨hbefore, hendures⟩
  obtain ⟨hstart, hperform, hend⟩ := hrun.of_mem hstep
  have hnext : step.before.2 <+: step.after.2 := gives_later hperform
  have hsmoothStep : Smooth (since step.before step.after) := hsmooth.between hstart hnext hend
  refine ⟨.call step.call hbefore hperform, endures_of_proceeds hproceeds hnext hbefore
    (fun now hnow => hproper now ((hend.filterMap _).subset hnow))
    (fun now hnow => hsmoothStep.hasFourDigitYear hnow) (houtage.between hstart hend)
    (fun now hnow => ⟨i, hnow.around hstart (List.prefix_refl _)⟩) (hendures.mono ?_)⟩
  rintro reading ⟨j, hreading⟩
  exact ⟨j, hreading.around (List.prefix_refl _) hnext⟩

/-- **An outage does not show.**  Caches share a text that was empty at first, and it holds
encryption entries of a topic, of which one at most is live.  From then on, the sources suffer an
outage whenever they are asked for the key to encrypt the topic under, while lookups of other topics
may go any way, and else nothing goes wrong.  Then every lookup of the topic gets a key, for as long
as the outage lasts: that of the live entry while that lives, and then that of an entry with the
greatest version and, of those, the latest expiry.  It is the same key every time, unless a key with
an empty name was fetched before: then there may be two such entries that the text does not hold in
their order. -/
theorem served_through_outage (hreaches : Reaches (perform options) fresh s)
    (hproper : ∀ now ∈ readings v.2, now.IsProper) {now : Instant}
    (hheld : encryptionEntries (entriesOf s.1) topic ≠ [])
    (hcount : (liveEntries (entriesOf s.1) topic now).length ≤ 1)
    (hrun : Run (perform options) s steps u)
    (hgives : Gives ((cache (options i) i).encryptionKey topic) u answer v)
    (hsmooth : Smooth (since s v)) (hnow : ∀ reading ∈ readings (since s v), now ≤ reading)
    (hroom : ∀ step ∈ steps, ForgetsNothing options step) (houtage : StoreFails topic s v) :
    ∃ later, Said u v ⟨.time i, later⟩ ∧
      ((∃ e, liveEntries (entriesOf s.1) topic later = [e] ∧ answer = .ok (some e.key)) ∨
        (liveEntries (entriesOf s.1) topic later = [] ∧
          ∃ best, IsBest (entriesOf s.1) topic best ∧ answer = .ok (some best.key) ∧
            ((∀ key ∈ fetchedKeys topic s.2, key.keyName ≠ some "") →
              best? (encryptionEntries (entriesOf s.1) topic) = some best))) := by
  have hsu : s.2 <+: u.2 := hrun.reaches.later
  have huv : u.2 <+: v.2 := gives_later hgives
  obtain ⟨-, hendures⟩ := endures_of_run hreaches
    (fun now hnow => hproper now ((huv.filterMap _).subset hnow)) hrun
    (hsmooth.between (List.prefix_refl _) hsu huv) hroom (houtage.between (List.prefix_refl _) huv)
  obtain ⟨later, hlater, hanswer⟩ := exists_answer_of_bridges hgives
    (hsmooth.between hsu huv (List.prefix_refl _)) (houtage.between hsu (List.prefix_refl _))
  have hnowLater : now ≤ later :=
    hnow later (hlater.around hsu (List.prefix_refl _)).mem_readings
  have hlast : ∀ reading, (∃ j, Said s u ⟨.time j, reading⟩) → reading ≤ later := by
    rintro reading ⟨j, hreading⟩
    exact hsmooth.le_of_said (List.prefix_refl _) hreading (List.prefix_refl _) hlater
      (List.prefix_refl _)
  have hcountLater := (liveEntries_sublist_of_le _ topic hnowLater).length_le.trans hcount
  refine ⟨later, hlater, ?_⟩
  rcases hendures.exists_bridges hlast hheld hcountLater with
    ⟨e, hlive, hbridges⟩ | ⟨hlive, best, hbest, hbridges⟩
  · exact .inl ⟨e, hlive, hanswer e.key hbridges⟩
  · refine .inr ⟨hlive, best, isBest_of_isNotBetter hbest.mem hbest.notBetter,
      hanswer best.key hbridges, fun hnames =>
        hbest.ordered (ordered_of_reaches hreaches (fun now hnow => hproper now ?_) hnames)⟩
    exact ((hsu.trans huv).filterMap _).subset hnow

/-! ## An outage after a rollback -/

/-- The exchange is no answer about a key to encrypt under, unless the store failed. -/
def tellsNoKey : Exchange (Question ι) Answer → Bool
  | ⟨.encryptionKey _ _, .error (.store _)⟩ => true
  | ⟨.encryptionKey _ _, _⟩ => false
  | _ => true

theorem storeFails_of_all (h : (since s t).all tellsNoKey = true) : StoreFails topic s t := by
  intro j answer hasked
  have hfails := List.all_eq_true.mp h _ hasked.mem_since
  rcases answer with err | key
  · cases err with
    | store reason => exact ⟨reason, rfl⟩
    | _ => exact absurd hfails Bool.false_ne_true
  · exact absurd hfails Bool.false_ne_true

/-- A text with two keys of a topic, of which the newer one expires earlier. -/
def rolledBackText : String :=
  "topicseal-key-cache v1\ntopic\tt\n3\t1970-01-01T01:00:10Z\t\tnew\n" ++
    "2\t1970-01-01T02:06:40Z\t\told\n"

/-- The key of a topic has gone back to an older version, which is served while it lives.  In the
outage after that, the newer version is served again, whatever is written for another topic in
between. -/
theorem served_after_rollback :
    ∃ s steps u v answer, Reaches (perform fun _ : Unit => .standard) fresh s ∧
      s.1 = some rolledBackText ∧
      Run (perform fun _ : Unit => .standard) s steps u ∧ steps.length = 2 ∧
      Gives ((cache .standard ()).encryptionKey "t") u answer v ∧
      answer = .ok (some ⟨3, none, "new"⟩) ∧
      ∃ later, Said u v ⟨.time (), later⟩ ∧
        ((∃ e, liveEntries (entriesOf s.1) "t" later = [e] ∧ answer = .ok (some e.key)) ∨
          (liveEntries (entriesOf s.1) "t" later = [] ∧
            ∃ best, IsBest (entriesOf s.1) "t" best ∧ answer = .ok (some best.key) ∧
              ((∀ key ∈ fetchedKeys "t" s.2, key.keyName ≠ some "") →
                best? (encryptionEntries (entriesOf s.1) "t") = some best))) := by
  let outage : Except KeyError (Option KeyVersion) := .error (.store "sealed")
  let ask : Call Unit := .lookUp () (.encryption "t")
  let other : Call Unit := .lookUp () (.decryption "u" 1 none)
  let newer := (withOracle (outsideAt (.ofSecond 10) (.ok (some ⟨3, none, "new"⟩)))).run
    (perform (fun _ => .standard) ask) fresh
  let older := (withOracle (outsideAt (.ofSecond 4000) (.ok (some ⟨2, none, "old"⟩)))).run
    (perform (fun _ => .standard) ask) newer.2
  let first := (withOracle (outsideAt (.ofSecond 8000) outage)).run
    (perform (fun _ => .standard) ask) older.2
  let second := (withOracle (outsideAt (.ofSecond 9000) outage)).run
    (perform (fun _ => .standard) other) first.2
  let outcome := (withOracle (outsideAt (.ofSecond 20000) outage)).run
    ((cache .standard ()).encryptionKey "t") second.2
  have hreaches : Reaches (perform fun _ => .standard) fresh older.2 :=
    (Execution.run_call _ (Execution.run_call _ .start _) _).reaches
  have hrun : Run (perform fun _ => .standard) older.2
      [⟨ask, older.2, first.2⟩, ⟨other, first.2, second.2⟩] second.2 :=
    Execution.run_call _ (Execution.run_call _ .start _) _
  have htext : older.2.1 = some rolledBackText := by cbv
  have hgives : Gives ((cache .standard ()).encryptionKey "t") second.2 outcome.1 outcome.2 :=
    Execution.gives_run _ _ _
  have hoffered : outcome.1 = .ok (some ⟨3, none, "new"⟩) ∧
      readings outcome.2.2 = [.ofSecond 10, .ofSecond 4000, .ofSecond 8000, .ofSecond 20000] ∧
      readings (since older.2 outcome.2) = [.ofSecond 8000, .ofSecond 20000] ∧
      (since older.2 outcome.2).all storageWorks = true ∧
      (since older.2 outcome.2).all tellsNoKey = true := by
    cbv
    exact ⟨rfl, trivial⟩
  obtain ⟨hserved, hall, hreadings, hworks, hfails⟩ := hoffered
  have hproper : ∀ now ∈ readings outcome.2.2, now.IsProper := by
    rw [hall]
    decide
  have hsmooth : Smooth (since older.2 outcome.2) := by
    refine smooth_of_works hworks ?_ ?_ <;> rw [hreadings] <;> decide
  have hnow : ∀ reading ∈ readings (since older.2 outcome.2), .ofSecond 4000 ≤ reading := by
    rw [hreadings]
    decide
  have hfirst : (serialize (revised (outsideAt (.ofSecond 8000) outage) .standard ()
      (entriesOf older.2.1) (.encryption "t"))).length ≤ CachingOptions.standard.maxChars := by
    rw [htext]
    cbv
  have hsecond : (serialize (revised (outsideAt (.ofSecond 9000) outage) .standard ()
      (entriesOf first.2.1) (.decryption "u" 1 none))).length ≤
        CachingOptions.standard.maxChars := by cbv
  have hroom : ∀ step ∈ [⟨ask, older.2, first.2⟩, ⟨other, first.2, second.2⟩],
      ForgetsNothing (fun _ => .standard) step :=
    List.forall_mem_cons.mpr ⟨forgetsNothing_of_oracle hfirst,
      List.forall_mem_singleton.mpr (forgetsNothing_of_oracle hsecond)⟩
  have hheld : encryptionEntries (entriesOf older.2.1) "t" ≠ [] := by
    refine List.ne_nil_of_length_pos ?_
    rw [htext]
    cbv
  have hcount : (liveEntries (entriesOf older.2.1) "t" (.ofSecond 4000)).length ≤ 1 := by
    rw [htext]
    cbv
  exact ⟨older.2, _, second.2, outcome.2, outcome.1, hreaches, htext, hrun, rfl, hgives,
    hserved, served_through_outage hreaches hproper hheld hcount hrun hgives hsmooth hnow hroom
      (storeFails_of_all hfails)⟩

/-! ## A text that is not in its order -/

/-- A key with an empty name makes two stale answers differ.  Both keys of the topic have the same
version and expire at once.  The one with the empty name was written last, but when it is written
again it has no name, and comes first. -/
theorem not_forall_stale_answers_eq :
    ¬ ∀ (options : Unit → CachingOptions) (topic : String) (now : Instant) (s t u : Place Unit)
      (first second : Except KeyError (Option KeyVersion)), Reaches (perform options) fresh s →
      (∀ now ∈ readings u.2, now.IsProper) → encryptionEntries (entriesOf s.1) topic ≠ [] →
      liveEntries (entriesOf s.1) topic now = [] →
      Gives ((cache (options ()) ()).encryptionKey topic) s first t →
      Gives ((cache (options ()) ()).encryptionKey topic) t second u → Smooth (since s u) →
      (∀ reading ∈ readings (since s u), now ≤ reading) →
      ForgetsNothing options ⟨.lookUp () (.encryption topic), s, t⟩ →
      StoreFails topic s u → first = second := by
  intro h
  let options : CachingOptions := ⟨0, 0, 65536⟩
  let ask : Call Unit := .lookUp () (.encryption "t")
  let outage : Execution (Outside Unit) :=
    withOracle (outsideAt (.ofSecond 100) (.error (.store "sealed")))
  let unnamed := (withOracle (outsideAt (.ofSecond 100) (.ok (some ⟨1, none, "zz"⟩)))).run
    (perform (fun _ => options) ask) fresh
  let named := (withOracle (outsideAt (.ofSecond 100) (.ok (some ⟨1, some "", "aa"⟩)))).run
    (perform (fun _ => options) ask) unnamed.2
  let first := outage.run ((cache options ()).encryptionKey "t") named.2
  let second := outage.run ((cache options ()).encryptionKey "t") first.2
  have hreaches : Reaches (perform fun _ => options) fresh named.2 :=
    (Execution.run_call _ (Execution.run_call _ .start _) _).reaches
  have hstored : (encryptionEntries (entriesOf named.2.1) "t").map (·.key.material) = ["zz", "aa"] ∧
      liveEntries (entriesOf named.2.1) "t" (.ofSecond 100) = [] := by cbv
  obtain ⟨hmaterials, hexpired⟩ := hstored
  have hheld : encryptionEntries (entriesOf named.2.1) "t" ≠ [] := by
    rintro hnone
    rw [hnone] at hmaterials
    exact absurd hmaterials (by simp)
  have hsaid : readings second.2.2 = List.replicate 4 (.ofSecond 100) ∧
      readings (since named.2 second.2) = [.ofSecond 100, .ofSecond 100] ∧
      (since named.2 second.2).all storageWorks = true ∧
      (since named.2 second.2).all tellsNoKey = true := by cbv
  obtain ⟨hall, hreadings, hworks, hfails⟩ := hsaid
  have hproper : ∀ now ∈ readings second.2.2, now.IsProper := by
    rw [hall]
    decide
  have hsmooth : Smooth (since named.2 second.2) := by
    refine smooth_of_works hworks ?_ ?_ <;> rw [hreadings] <;> decide
  have hnow : ∀ reading ∈ readings (since named.2 second.2), .ofSecond 100 ≤ reading := by
    rw [hreadings]
    decide
  have hfits : (serialize (revised (outsideAt (.ofSecond 100) (.error (.store "sealed"))) options ()
      (entriesOf named.2.1) (.encryption "t"))).length ≤ options.maxChars := by cbv
  have hfirst : first.1 = .ok (some ⟨1, none, "aa"⟩) := by cbv
  have hsecond : second.1 = .ok (some ⟨1, none, "zz"⟩) := by cbv
  have hsame : first.1 = second.1 :=
    h (fun _ => options) "t" (.ofSecond 100) named.2 first.2 second.2
    _ _ hreaches hproper hheld hexpired (outage.gives_run _ _) (outage.gives_run _ _) hsmooth hnow
    (forgetsNothing_of_oracle hfits) (storeFails_of_all hfails)
  rw [hfirst, hsecond] at hsame
  exact absurd hsame (by decide)

end Shared

end TopicCipher
