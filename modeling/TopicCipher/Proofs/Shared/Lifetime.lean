import TopicCipher.Proofs.Shared.Frame
import TopicCipher.Proofs.Shared.Smooth

/-!
# How long a fetched key is served

A cache is there to keep its users from asking the source behind.  So once a lookup has asked it and
got a key, all later lookups of the same key, by any cache over the same text, should be served from
the text: forever if it is an old key, and for the lifetime of the entry if it is the key to encrypt
under.

Between the two lookups the text may be written anew any number of times, on behalf of other topics
and other keys, and each time it is sorted, printed and read.  The text at the beginning may be any
text.

The argument looks at the entries that a lookup *finds*.  Right after the key was stored, it is the
only one: the lookup stored it because it found none, and what was not live then is not live later.
Other lookups concern entries that this one does not find (`Rewritten.perm_finds`), and the same
lookup is served.  So it stays the only one as long as it lives.

The key must have been stored, which takes that it can be said in a line.  Its material is stored
without the blanks around it, so it is the material without them that must not break the line.
There is one exception.  An expired entry that bridges an outage is written as it stands in the
text, and a text that no cache has written may hold material with carriage returns around it.

* `IsSayable`: what can be said in a line.
* `exists_findsOnly_of_revision`: a key that was just stored is the only one that is found.
* `served_for_lifetime`: it is served as long as it lives.
* `not_forall_served_of_trimmed`: an entry that bridges an outage and gets lost.
-/

namespace TopicCipher

namespace Lookup

/-- The key name that is asked for, if one is. -/
def keyName : Lookup → Option String
  | encryption _ => none
  | decryption _ _ keyName => keyName

/-- Holds of the entries that a lookup finds at a reading of the clock. -/
def finds (lookup : Lookup) (now : Instant) (e : CacheEntry) : Bool :=
  match lookup with
  | encryption topic => e.topic = topic && e.isEncryption && !e.isExpiredAt now
  | decryption topic version keyName =>
    !e.isEncryption && e.topic = topic && e.key.version = version && e.key.keyName = keyName

end Lookup

namespace KeyCache

/-- A line can say the key as one of the topic, and reading it gives the same name. -/
structure IsSayable (topic : String) (key : KeyVersion) : Prop where
  topic_ne : topic ≠ ""
  topic_fits : fitsLine topic = true
  version_ne : key.version ≠ 0
  keyName_ne : key.keyName ≠ some ""
  keyName_fits : key.keyName.all fitsLine = true
  material_ne : Text.trim key.material ≠ ""
  material_fits : fitsLine (Text.trim key.material) = true

/-- An entry of a sayable key can be stored with any material that fits a line. -/
theorem IsSayable.isStorable {topic : String} {key : KeyVersion} (h : IsSayable topic key)
    {material : String} (hne : material ≠ "") (hfits : fitsLine material = true)
    {expiresAt : Option Instant} (hyear : ∀ t, expiresAt = some t → t.HasFourDigitYear) :
    IsStorable ⟨topic, { key with material := material }, expiresAt⟩ where
  writable := by
    simp [isWritable, h.topic_ne, h.topic_fits, h.keyName_fits, hne, hfits]
  version := h.version_ne
  year := hyear

end KeyCache

namespace Shared

open KeyCache

variable {ι : Type} {s t u v : Place ι}

/-! ## What other lookups change -/

/-- What another lookup of a key to encrypt under extends is not found. -/
theorem finds_eq_false_of_encryption {lookup other : Lookup} (hother : other ≠ lookup)
    (hencryption : other.isEncryption = true) {e : CacheEntry} (htopic : e.topic = other.topic)
    (henc : e.isEncryption = true) (now : Instant) : lookup.finds now e = false := by
  cases other with
  | decryption _ _ _ => exact absurd hencryption Bool.false_ne_true
  | encryption topic =>
    cases lookup with
    | decryption _ _ _ => simp [Lookup.finds, henc]
    | encryption looked =>
      have hne : e.topic ≠ looked := fun hsame => hother (by rw [← hsame, htopic]; rfl)
      simp [Lookup.finds, hne]

/-- What another lookup stores is not found, unless an empty key name is taken away from it. -/
theorem finds_asRead_entry {lookup other : Lookup} (hother : other ≠ lookup)
    (hname : other.keyName ≠ some "") (key : KeyVersion) (expiresAt now : Instant) :
    lookup.finds now (asRead (other.entry key expiresAt)) = false := by
  cases other with
  | encryption topic => exact finds_eq_false_of_encryption hother rfl rfl rfl now
  | decryption topic version keyName =>
    have hentry : asRead (.forDecryption topic version keyName key.material) =
        .forDecryption topic version keyName key.material := asRead_of_keyName_ne hname
    rw [Lookup.entry, hentry]
    cases lookup with
    | encryption _ => simp [Lookup.finds, CacheEntry.forDecryption, CacheEntry.isEncryption]
    | decryption looked lookedVersion lookedName =>
      rw [← Bool.not_eq_true]
      intro hfinds
      simp only [Lookup.finds, Bool.and_eq_true, decide_eq_true_eq] at hfinds
      obtain ⟨⟨⟨-, htopic⟩, hversion⟩, hsame⟩ := hfinds
      obtain rfl : topic = looked := htopic
      obtain rfl : version = lookedVersion := hversion
      obtain rfl : keyName = lookedName := hsame
      exact hother rfl

/-- **Other lookups do not change what a lookup finds.** -/
theorem Rewritten.perm_finds {lookup other : Lookup} {answer : Except KeyError (Option KeyVersion)}
    {entries stored : List CacheEntry} (h : Rewritten other answer entries stored)
    (hother : other ≠ lookup) (hname : other.keyName ≠ some "") (now : Instant) :
    (stored.filter (lookup.finds now)).Perm (entries.filter (lookup.finds now)) := by
  cases h with
  | @extended old kept expiresAt hencryption htopic henc hentries hstored =>
    have hentries := hentries.filter (lookup.finds now)
    have hstored := hstored.filter (lookup.finds now)
    have hold := finds_eq_false_of_encryption hother hencryption htopic henc now
    have hnew := finds_eq_false_of_encryption (e := { old with expiresAt := some expiresAt }) hother
      hencryption htopic rfl now
    rw [List.filter_cons_of_neg (by simp [hold])] at hentries
    rw [List.filter_cons_of_neg (by simp [hnew])] at hstored
    exact hstored.trans hentries.symm
  | @added key expiresAt _ _ _ hstored =>
    have hstored := hstored.filter (lookup.finds now)
    have hnew := finds_asRead_entry hother hname key expiresAt now
    rwa [List.filter_cons_of_neg (by simp [hnew])] at hstored
  | dropped _ _ hstored => exact hstored.filter _

/-! ## What is found is served -/

theorem findEncryption_eq_served {entries : List CacheEntry} {topic : String} {now : Instant}
    {e : CacheEntry} (h : entries.filter ((Lookup.encryption topic).finds now) = [e]) :
    findEncryption entries topic now = .served e.key := by
  have hlive : liveEntries entries topic now = [e] := h
  rw [findEncryption, hlive]

theorem findDecryption_eq_served {entries : List CacheEntry} {topic : String} {version : Version}
    {keyName : Option String} {now : Instant} {e : CacheEntry}
    (h : entries.filter ((Lookup.decryption topic version keyName).finds now) = [e]) :
    findDecryption entries topic version keyName = .served e.key.material := by
  have hfound : (entries.filter fun e => !e.isEncryption && e.topic = topic &&
      e.key.version = version && e.key.keyName = keyName) = [e] := h
  rw [findDecryption, hfound]
  rfl

/-- The window of time in which an entry is the only one that the lookup finds.  It matters to keys
to encrypt under only: for old keys the clock is not read. -/
def FindsOnly (lookup : Lookup) (window : Instant → Prop) (e : CacheEntry)
    (entries : List CacheEntry) : Prop :=
  ∀ now, (lookup.isEncryption = true → window now) → entries.filter (lookup.finds now) = [e]

/-- **The only entry that a lookup finds is served**, and nothing is asked or stored. -/
theorem served_of_findsOnly {options : CachingOptions} {i : ι} {lookup : Lookup}
    {answer : Except KeyError (Option KeyVersion)} {window : Instant → Prop} {e : CacheEntry}
    (hgives : Gives (lookUp options i lookup) s answer t) (hsmooth : Smooth (since s t))
    (hfound : FindsOnly lookup window e (entriesOf s.1))
    (hwindow : lookup.isEncryption = true → ∀ now, Said s t ⟨.time i, now⟩ → window now) :
    answer = .ok (some e.key) ∧ t.1 = s.1 ∧ ¬ AsksSource s t := by
  obtain ⟨text, history⟩ := s
  cases lookup with
  | encryption topic =>
    have hserves : ∀ failure now, Said (text, history) t ⟨.readText, failure⟩ →
        Said (text, history) t ⟨.time i, now⟩ →
        findEncryption (loaded text failure) topic now = .served e.key := by
      intro failure now hread hnow
      obtain rfl := hsmooth.reads failure hread.mem_since
      exact findEncryption_eq_served (hfound now fun henc => hwindow henc now hnow)
    cases encryptionTurn_of_gives hgives with
    | served hfind =>
      have hkey := hfind.symm.trans (hserves _ _ (by simp) (by simp))
      obtain rfl := EncryptionFind.served.inj hkey
      exact ⟨rfl, rfl, not_asksSource (by simp)⟩
    | ambiguous hfind => exact absurd (hfind.symm.trans (hserves _ _ (by simp) (by simp))) (by simp)
    | unkeyed hfind => exact absurd (hfind.symm.trans (hserves _ _ (by simp) (by simp))) (by simp)
    | failed hfind _ => exact absurd (hfind.symm.trans (hserves _ _ (by simp) (by simp))) (by simp)
    | fetched hfind _ => exact absurd (hfind.symm.trans (hserves _ _ (by simp) (by simp))) (by simp)
    | bridged hfind _ _ _ =>
      exact absurd (hfind.symm.trans (hserves _ _ (by simp) (by simp))) (by simp)
  | decryption topic version keyName =>
    -- The clock is not read, so any instant will do.
    have hfilter := hfound (.ofSecond 0) fun habsurd => absurd habsurd Bool.false_ne_true
    have hmem : e ∈ (entriesOf text).filter
        ((Lookup.decryption topic version keyName).finds (.ofSecond 0)) := by
      rw [hfilter]
      exact List.mem_singleton_self e
    simp only [List.mem_filter, Lookup.finds, Bool.and_eq_true, decide_eq_true_eq] at hmem
    obtain ⟨-, ⟨-, hversion⟩, hname⟩ := hmem
    have hserves : ∀ failure, Said (text, history) t ⟨.readText, failure⟩ →
        findDecryption (loaded text failure) topic version keyName = .served e.key.material := by
      intro failure hread
      obtain rfl := hsmooth.reads failure hread.mem_since
      exact findDecryption_eq_served hfilter
    obtain ⟨found, rfl, hlookup⟩ := gives_lookUp_decryption.mp hgives
    cases decryptionTurn_of_gives hlookup with
    | served hfind =>
      have hmaterial := hfind.symm.trans (hserves _ (by simp))
      obtain rfl := DecryptionFind.served.inj hmaterial
      subst hversion hname
      exact ⟨rfl, rfl, not_asksSource (by simp)⟩
    | ambiguous hfind => exact absurd (hfind.symm.trans (hserves _ (by simp))) (by simp)
    | failed hfind => exact absurd (hfind.symm.trans (hserves _ (by simp))) (by simp)
    | fetched hfind _ => exact absurd (hfind.symm.trans (hserves _ (by simp))) (by simp)

/-! ## What was just stored is found -/

/-- Renewing gives the key an entry, in the place of one entry at most. -/
theorem exists_perm_renew {entries : List CacheEntry} {topic : String} {newest : Option Nat}
    (hnewest : newest? entries topic = newest) (key : KeyVersion) (expiresAt : Instant) :
    ∃ kept, (renew entries newest topic key expiresAt).Perm
      (.forEncryption topic key expiresAt :: kept) ∧ kept.Sublist entries := by
  rcases renew_eq entries newest topic key expiresAt with
    ⟨position, old, rfl, hold, hholds, hrenew⟩ | ⟨-, hrenew⟩ <;> rw [hrenew]
  · obtain ⟨e, he, htopic, -⟩ := exists_mem_of_newest? hnewest
    obtain rfl := Option.some.inj (hold.symm.trans he)
    have hkey : old.key = { key with material := Text.trim key.material } := by
      simpa [CacheEntry.holds] using hholds
    have hentry : ({ old with expiresAt := some expiresAt } : CacheEntry) =
        .forEncryption topic key expiresAt := by
      rw [CacheEntry.forEncryption, ← htopic, ← hkey]
    exact ⟨_, hentry ▸ (perm_extend hold expiresAt).2, List.eraseIdx_sublist _ _⟩
  · exact ⟨entries, List.perm_append_singleton _ _, .refl _⟩

/-- An entry that is written beside entries that are not found, and is found itself, is the only
one. -/
theorem filter_parse_serialize {entries updated kept : List CacheEntry} {new : CacheEntry}
    {p : CacheEntry → Bool} (hread : ∀ e ∈ entries, asRead e = e)
    (hperm : updated.Perm (new :: kept)) (hkept : kept.Sublist entries)
    (hnone : entries.filter p = []) (hstorable : IsStorable new) (hnew : p (asRead new) = true) :
    (parse (serialize updated)).filter p = [asRead new] := by
  have hstored : (parse (serialize updated)).Perm (asRead new :: kept.filterMap stored?) := by
    have hcons := (perm_parse_serialize updated).trans (hperm.filterMap stored?)
    rwa [List.filterMap_cons_some (stored?_eq_some_iff.mpr ⟨hstorable, rfl⟩)] at hcons
  have hothers : (kept.filterMap stored?).filter p = [] := by
    refine List.filter_eq_nil_iff.mpr fun e he => ?_
    obtain ⟨written, hwritten, hsame⟩ := List.mem_filterMap.mp he
    obtain ⟨-, rfl⟩ := stored?_eq_some_iff.mp hsame
    have hmem := hkept.mem hwritten
    rw [hread written hmem]
    exact List.filter_eq_nil_iff.mp hnone written hmem
  have hfilter := hstored.filter p
  rw [List.filter_cons_of_pos hnew, hothers] at hfilter
  exact List.perm_singleton.mp hfilter

theorem filter_finds_eq_nil_of_absent {entries : List CacheEntry} {topic : String}
    {version : Version} {keyName : Option String}
    (h : findDecryption entries topic version keyName = .absent) (now : Instant) :
    entries.filter ((Lookup.decryption topic version keyName).finds now) = [] := by
  rw [findDecryption] at h
  split at h
  next hnone => exact hnone
  next => split at h <;> exact absurd h (by simp)

/-- The only live entry of a topic is found until its expiry comes. -/
theorem findsOnly_encryption {entries updated kept : List CacheEntry} {topic : String}
    {key : KeyVersion} {now bound expiresAt : Instant} (hread : ∀ e ∈ entries, asRead e = e)
    (hperm : updated.Perm (⟨topic, key, some expiresAt⟩ :: kept)) (hkept : kept.Sublist entries)
    (hnone : liveEntries entries topic now = [])
    (hstorable : IsStorable ⟨topic, key, some expiresAt⟩)
    (hname : key.keyName ≠ some "") (hbound : bound ≤ expiresAt) :
    FindsOnly (.encryption topic) (fun x => now ≤ x ∧ x < bound)
      ⟨topic, key, some expiresAt.carry⟩ (parse (serialize updated)) := by
  intro x hx
  obtain ⟨hnow, hlt⟩ := hx rfl
  have hread' : asRead ⟨topic, key, some expiresAt⟩ = ⟨topic, key, some expiresAt.carry⟩ :=
    asRead_of_keyName_ne hname
  have hlive : ¬ expiresAt.carry ≤ x :=
    Instant.not_le.mpr (Instant.lt_of_lt_of_le hlt (Instant.le_trans hbound expiresAt.le_carry))
  have hfinds : (Lookup.encryption topic).finds x (asRead ⟨topic, key, some expiresAt⟩) = true := by
    rw [hread']
    simp [Lookup.finds, CacheEntry.isEncryption, CacheEntry.isExpiredAt, hlive]
  have hothers : entries.filter ((Lookup.encryption topic).finds x) = [] :=
    liveEntries_eq_nil_of_le hnone hnow
  rw [filter_parse_serialize hread hperm hkept hothers hstorable hfinds, hread']

/-- **A key that was just stored is the only one that is found**, and it is found for a lifetime. -/
theorem exists_findsOnly_of_revision {options : CachingOptions} {i : ι} {lookup : Lookup}
    {entries updated : List CacheEntry} {key : KeyVersion}
    (h : Revision options i s t entries lookup (.ok (some key)) updated)
    (hread : ∀ e ∈ entries, asRead e = e) (hsayable : IsSayable lookup.topic key)
    (hyears : ∀ now, Said s t ⟨.time i, now⟩ → 0 ≤ now.year)
    (hbridged : ∀ err, Said s t ⟨.encryptionKey i lookup.topic, .error err⟩ →
      fitsLine key.material = true) :
    ∃ e, e.key.version = key.version ∧ e.key.keyName = key.keyName ∧
      Text.trim e.key.material = Text.trim key.material ∧
      FindsOnly lookup (fun x => ∀ now, Said s t ⟨.time i, now⟩ →
        now ≤ x ∧ x < (now.add options.ttl).min latestExpiry) e (parse (serialize updated)) := by
  cases h with
  | @renewed topic now newest _ extra hnow hfind _ _ =>
    obtain ⟨kept, hperm, hkept⟩ := exists_perm_renew (newest?_eq_of_findEncryption hfind) key
      (expiryAfter now options.ttl extra)
    have hstorable := hsayable.isStorable hsayable.material_ne hsayable.material_fits fun t ht =>
      Option.some.inj ht ▸ hasFourDigitYear_expiryAfter (hyears now hnow) options.ttl extra
    have honly := findsOnly_encryption hread hperm hkept
      (liveEntries_eq_nil_of_findEncryption hfind) hstorable hsayable.keyName_ne
      (min_add_le_expiryAfter now options.ttl extra)
    exact ⟨⟨topic, { key with material := Text.trim key.material },
      some (expiryAfter now options.ttl extra).carry⟩, rfl, rfl, Text.trim_trim _,
      fun x hx => honly x fun henc => hx henc now hnow⟩
  | @bridged topic now position stale err extra hnow hfind hasked _ hstale _ =>
    obtain ⟨e, he, rfl, -⟩ := exists_mem_of_newest? (newest?_eq_of_findEncryption hfind)
    obtain rfl := Option.some.inj (he.symm.trans hstale)
    have hne : e.key.material ≠ "" := fun hempty => hsayable.material_ne (by rw [hempty]; rfl)
    have hstorable := hsayable.isStorable hne (hbridged err hasked) fun t ht =>
      Option.some.inj ht ▸ hasFourDigitYear_expiryAfter (hyears now hnow) options.ttl extra
    have honly := findsOnly_encryption hread (perm_extend he _).2 (List.eraseIdx_sublist _ _)
      (liveEntries_eq_nil_of_findEncryption hfind) hstorable hsayable.keyName_ne
      (min_add_le_expiryAfter now options.ttl extra)
    exact ⟨⟨e.topic, e.key, some (expiryAfter now options.ttl extra).carry⟩, rfl, rfl, rfl,
      fun x hx => honly x fun henc => hx henc now hnow⟩
  | @added topic version keyName material hfind _ =>
    have hstorable : IsStorable (.forDecryption topic version keyName material) :=
      hsayable.isStorable hsayable.material_ne hsayable.material_fits
        fun t ht => absurd ht (Option.some_ne_none t).symm
    have hread' : asRead (.forDecryption topic version keyName material) =
        .forDecryption topic version keyName material := asRead_of_keyName_ne hsayable.keyName_ne
    refine ⟨.forDecryption topic version keyName material, rfl, rfl, Text.trim_trim _,
      fun x _ => ?_⟩
    have hfinds : (Lookup.decryption topic version keyName).finds x
        (asRead (.forDecryption topic version keyName material)) = true := by
      rw [hread']
      simp [Lookup.finds, CacheEntry.forDecryption, CacheEntry.isEncryption]
    rw [filter_parse_serialize hread (List.perm_append_singleton _ _) (.refl _)
      (filter_finds_eq_nil_of_absent hfind x) hstorable hfinds, hread']

/-! ## Runs -/

variable {options : ι → CachingOptions} {steps : List (Step (Call ι) (Place ι))}

/-- What another lookup proceeds to leaves the only entry that is found the only one. -/
theorem FindsOnly.proceeds {i : ι} {lookup other : Lookup}
    {answer : Except KeyError (Option KeyVersion)} {window : Instant → Prop} {e : CacheEntry}
    (h : FindsOnly lookup window e (entriesOf s.1))
    (hproceeds : Proceeds (options i) i other answer s t)
    (hstable : ∀ e ∈ entriesOf s.1, IsStable e) (hsmooth : Smooth (since s t))
    (hother : other ≠ lookup) (hname : other.keyName ≠ some "") :
    FindsOnly lookup window e (entriesOf t.1) := by
  rcases hproceeds with ⟨hsame, -⟩ | ⟨updated, hrevision, hstored⟩
  · rwa [hsame]
  · intro now hnow
    have hperm :=
      (hrevision.update.rewritten hstable fun now => hsmooth.hasFourDigitYear).perm_finds
      hother hname now
    rw [h now hnow] at hperm
    rw [hstored, entriesOf_some]
    exact List.perm_singleton.mp hperm

/-- **The only entry that a lookup finds stays the only one**, as long as the readings are in its
window. -/
theorem findsOnly_of_run {lookup : Lookup} {window : Instant → Prop} {e : CacheEntry}
    (hrun : Run (perform options) s steps t) (hsmooth : Smooth (since s t))
    (hroom : ∀ step ∈ steps, ForgetsNothing options step)
    (hnames : ∀ step ∈ steps, ∀ i other, step.call = .lookUp i other → other.keyName ≠ some "")
    (hwindow : ∀ step ∈ steps, ∀ i now, lookup.isEncryption = true →
      Said step.before step.after ⟨.time i, now⟩ → window now)
    (hstable : ∀ e ∈ entriesOf s.1, IsStable e) (h : FindsOnly lookup window e (entriesOf s.1)) :
    FindsOnly lookup window e (entriesOf t.1) := by
  refine (hsmooth.invariant (I := fun s => (∀ e ∈ entriesOf s.1, IsStable e) ∧
    FindsOnly lookup window e (entriesOf s.1)) hrun hroom ?_ ⟨hstable, h⟩).2
  rintro step hstep i other answer hcall hgives hproceeds ⟨hstable, h⟩
  obtain ⟨hbefore, hperform, hafter⟩ := hrun.of_mem hstep
  have hsmoothStep : Smooth (since step.before step.after) :=
    hsmooth.between hbefore (gives_later hperform) hafter
  refine ⟨keeps_isStable options step.call hstable hperform, ?_⟩
  by_cases hother : other = lookup
  · subst hother
    obtain ⟨-, hsame, -⟩ := served_of_findsOnly hgives hsmoothStep h
      fun henc now => hwindow step hstep i now henc
    rwa [hsame]
  · exact h.proceeds hproceeds hstable hsmoothStep hother (hnames step hstep i other hcall)

/-- A lookup of a key to encrypt under reads the clock. -/
theorem exists_said_time {options : CachingOptions} {i : ι} {lookup : Lookup}
    {answer : Except KeyError (Option KeyVersion)} (henc : lookup.isEncryption = true)
    (h : Gives (lookUp options i lookup) s answer t) : ∃ now, Said s t ⟨.time i, now⟩ := by
  obtain ⟨text, history⟩ := s
  cases lookup with
  | encryption topic =>
    cases encryptionTurn_of_gives h <;> exact ⟨_, said_append_iff.mpr (.tail _ (.head _))⟩
  | decryption _ _ _ => exact absurd henc Bool.false_ne_true

/-- **A fetched key is served as long as it lives.**  The text may be any text.  A lookup asks the
source behind and gets a key that can be said in a line, and nothing goes wrong since.  Then a later
lookup of the same key, by any cache over the text, is answered with this key, up to the blanks
around its material, and the source behind is not asked: at any time, if it is an old key, and
before the lifetime of the cache has passed and before the latest expiry there is, if it is the key
to encrypt under.  If the source behind suffered an outage, which an expired entry bridged, the
material must fit a line as it is. -/
theorem served_for_lifetime {i j : ι} {lookup : Lookup} {key : KeyVersion}
    {answer : Except KeyError (Option KeyVersion)}
    (hfetched : Gives (lookUp (options i) i lookup) s (.ok (some key)) t) (hasks : AsksSource s t)
    (hrun : Run (perform options) t steps u)
    (hlater : Gives (lookUp (options j) j lookup) u answer v) (hsmooth : Smooth (since s v))
    (hroom : ∀ step ∈ ⟨.lookUp i lookup, s, t⟩ :: steps, ForgetsNothing options step)
    (hnames : ∀ step ∈ steps, ∀ i other, step.call = .lookUp i other → other.keyName ≠ some "")
    (hsayable : IsSayable lookup.topic key)
    (hbridged : ∀ err, Said s t ⟨.encryptionKey i lookup.topic, .error err⟩ →
      fitsLine key.material = true)
    (htime : ∀ now later, Said s t ⟨.time i, now⟩ → Said u v ⟨.time j, later⟩ →
      later < (now.add (options i).ttl).min latestExpiry) :
    (∃ found, answer = .ok (some found) ∧ found.version = key.version ∧
      found.keyName = key.keyName ∧ Text.trim found.material = Text.trim key.material) ∧
        ¬ AsksSource u v := by
  have hst : s.2 <+: t.2 := gives_later hfetched
  have htu : t.2 <+: u.2 := hrun.reaches.later
  have huv : u.2 <+: v.2 := gives_later hlater
  have hfirst : Smooth (since s t) := hsmooth.between (List.prefix_refl _) hst (htu.trans huv)
  obtain ⟨updated, hrevision, hstored⟩ :=
    ((hroom _ List.mem_cons_self).proceeds hfirst hfetched).resolve_left fun hkept =>
      hkept.2 hasks key rfl
  obtain ⟨e, hversion, hname, hmaterial, honly⟩ := exists_findsOnly_of_revision hrevision
    asRead_of_mem_entriesOf hsayable (fun now hnow => (hfirst.hasFourDigitYear hnow).1) hbridged
  rw [← entriesOf_some, ← hstored] at honly
  have hstable : ∀ e ∈ entriesOf t.1, IsStable e := by
    rw [hstored, entriesOf_some]
    exact fun e he => isStable_of_mem_parse_serialize he
  -- In between, the readings lie between the first one and the last one.
  have hwindow : ∀ step ∈ steps, ∀ k x, lookup.isEncryption = true →
      Said step.before step.after ⟨.time k, x⟩ → ∀ now, Said s t ⟨.time i, now⟩ →
        now ≤ x ∧ x < (now.add (options i).ttl).min latestExpiry := by
    intro step hstep k x henc hx now hnow
    obtain ⟨hbefore, -, hafter⟩ := hrun.of_mem hstep
    obtain ⟨later, hsaid⟩ := exists_said_time henc hlater
    have hnext : now ≤ x :=
      hsmooth.le_of_said (List.prefix_refl _) hnow hbefore hx (hafter.trans huv)
    have hlast : x ≤ later :=
      hsmooth.le_of_said (hst.trans hbefore) hx hafter hsaid (List.prefix_refl _)
    exact ⟨hnext, Instant.lt_of_le_of_lt hlast (htime now later hnow hsaid)⟩
  have hend := findsOnly_of_run hrun (hsmooth.between hst htu huv)
    (fun step hstep => hroom step (List.mem_cons_of_mem _ hstep)) hnames hwindow hstable honly
  obtain ⟨rfl, -, hquiet⟩ := served_of_findsOnly hlater
    (hsmooth.between (hst.trans htu) huv (List.prefix_refl _)) hend fun _ x hx now hnow =>
      ⟨hsmooth.le_of_said (List.prefix_refl _) hnow htu hx (List.prefix_refl _),
        htime now x hnow hx⟩
  exact ⟨⟨e.key, rfl, hversion, hname, hmaterial⟩, hquiet⟩

/-! ## A text that no cache has written -/

/-- A text with a line that says nothing, and with an entry that has expired long ago. -/
def litteredText : String :=
  "topicseal-key-cache v1\nlitter\ntopic\tt\n2\t1970-01-01T00:00:00Z\t\tj\n"

/-- The key of a topic is fetched beside an old entry of the topic, then the old key of another
topic, and then the key is served to another cache. -/
theorem served_from_littered_text :
    ∃ s t steps u v answer, s.1 = some litteredText ∧
      Gives (lookUp .standard () (.encryption "t")) s (.ok (some ⟨3, none, " k "⟩)) t ∧
      AsksSource s t ∧ Run (perform fun _ : Unit => .standard) t steps u ∧ steps.length = 1 ∧
      Gives (lookUp .standard () (.encryption "t")) u answer v ∧
      Said u v ⟨.time (), .ofSecond 3609⟩ ∧
      (∃ found, answer = .ok (some found) ∧ found.version = 3 ∧ found.keyName = none ∧
        Text.trim found.material = Text.trim " k ") ∧ ¬ AsksSource u v := by
  let key : KeyVersion := ⟨3, none, " k "⟩
  let other : Call Unit := .lookUp () (.decryption "u" 1 none)
  let s : Place Unit := (some litteredText, [])
  let first := (withOracle (outsideAt (.ofSecond 10) (.ok (some key)))).run
    (lookUp .standard () (.encryption "t")) s
  let second := (withOracle (outsideAt (.ofSecond 20) (.ok none))).run
    (perform (fun _ => .standard) other) first.2
  let outcome := (withOracle (outsideAt (.ofSecond 3609) (.ok none))).run
    (lookUp .standard () (.encryption "t")) second.2
  let beside : Step (Call Unit) (Place Unit) := ⟨other, first.2, second.2⟩
  have hkey : first.1 = .ok (some key) := by cbv
  have hfetched : Gives (lookUp .standard () (.encryption "t")) s (.ok (some key)) first.2 :=
    hkey ▸ Execution.gives_run _ _ s
  have hasked : (since s first.2).any (·.question.isForSource) = true := by cbv
  have hasks : AsksSource s first.2 := asksSource_of_any (gives_later hfetched) hasked
  have hrun : Run (perform fun _ => .standard) first.2 [beside] second.2 :=
    Execution.run_call _ .start _
  have hlater : Gives (lookUp .standard () (.encryption "t")) second.2 outcome.1 outcome.2 :=
    Execution.gives_run _ _ _
  have hreadings : readings outcome.2.2 = [.ofSecond 10, .ofSecond 3609] := by cbv
  have hsmooth : Smooth outcome.2.2 := by
    refine smooth_of_works (by cbv) ?_ ?_ <;> rw [hreadings] <;> decide
  have hfirst : (serialize (revised (outsideAt (.ofSecond 10) (.ok (some key))) .standard ()
      (entriesOf s.1) (.encryption "t"))).length ≤ CachingOptions.standard.maxChars := by cbv
  have hsecond : (serialize (revised (outsideAt (.ofSecond 20) (.ok none)) .standard ()
      (entriesOf first.2.1) (.decryption "u" 1 none))).length ≤
        CachingOptions.standard.maxChars := by cbv
  have hroom : ∀ step ∈ [⟨.lookUp () (.encryption "t"), s, first.2⟩, beside],
      ForgetsNothing (fun _ => .standard) step :=
    List.forall_mem_cons.mpr ⟨forgetsNothing_of_oracle hfirst,
      List.forall_mem_singleton.mpr (forgetsNothing_of_oracle hsecond)⟩
  have hnames : ∀ step ∈ [beside], ∀ i other, step.call = .lookUp i other →
      other.keyName ≠ some "" := by
    refine List.forall_mem_singleton.mpr fun i other hcall => ?_
    obtain ⟨rfl, rfl⟩ := Call.lookUp.inj hcall
    decide
  have htime : ∀ now later, Said s first.2 ⟨.time (), now⟩ →
      Said second.2 outcome.2 ⟨.time (), later⟩ →
      later < (now.add CachingOptions.standard.ttl).min latestExpiry := by
    intro now later hnow hlater
    obtain rfl := eq_oracle_of_said hnow
    obtain rfl := eq_oracle_of_said hlater
    decide
  have hserved := served_for_lifetime hfetched hasks hrun hlater hsmooth hroom hnames
    (by constructor <;> decide)
    (fun err hsaid => absurd (eq_oracle_of_said hsaid) (by simp [outsideAt])) htime
  obtain ⟨now, hnow⟩ := exists_said_time rfl hlater
  obtain rfl := eq_oracle_of_said hnow
  exact ⟨s, first.2, _, second.2, outcome.2, outcome.1, rfl, hfetched, hasks, hrun,
    rfl, hlater, hnow, hserved⟩

/-! ## An entry that gets lost -/

/-- A text with an entry that has expired long ago, with a carriage return before its material. -/
def returnedText : String :=
  "topicseal-key-cache v1\ntopic\tt\n1\t1970-01-01T00:00:00Z\t\t\rk\n"

/-- It is not enough that the material fits a line without the blanks around it.  An expired entry
bridges an outage, but it cannot be written with the carriage return before its material.  So it is
lost, and the next lookup finds nothing. -/
theorem not_forall_served_of_trimmed :
    ¬ ∀ (options : Unit → CachingOptions) (lookup : Lookup) (key : KeyVersion)
      (answer : Except KeyError (Option KeyVersion)) (s t u v : Place Unit)
      (steps : List (Step (Call Unit) (Place Unit))),
      Gives (lookUp (options ()) () lookup) s (.ok (some key)) t → AsksSource s t →
      Run (perform options) t steps u → Gives (lookUp (options ()) () lookup) u answer v →
      Smooth (since s v) →
      (∀ step ∈ ⟨.lookUp () lookup, s, t⟩ :: steps, ForgetsNothing options step) →
      (∀ step ∈ steps, ∀ i other, step.call = .lookUp i other → other.keyName ≠ some "") →
      IsSayable lookup.topic key →
      (∀ now later, Said s t ⟨.time (), now⟩ → Said u v ⟨.time (), later⟩ →
        later < (now.add (options ()).ttl).min latestExpiry) →
      ∃ found, answer = .ok (some found) ∧ found.version = key.version ∧
        found.keyName = key.keyName ∧ Text.trim found.material = Text.trim key.material := by
  intro h
  let execution : Execution (Outside Unit) :=
    withOracle (outsideAt (.ofSecond 10) (.error (.store "sealed")))
  let s : Place Unit := (some returnedText, [])
  let first := execution.run (lookUp .standard () (.encryption "t")) s
  let outcome := execution.run (lookUp .standard () (.encryption "t")) first.2
  have hkey : first.1 = .ok (some ⟨1, none, "\rk"⟩) := by cbv
  have hlost : outcome.1 = .error (.store "sealed") := by cbv
  have hfetched : Gives (lookUp .standard () (.encryption "t")) s (.ok (some ⟨1, none, "\rk"⟩))
      first.2 := hkey ▸ execution.gives_run _ s
  have hasked : (since s first.2).any (·.question.isForSource) = true := by cbv
  have hasks : AsksSource s first.2 := asksSource_of_any (gives_later hfetched) hasked
  have hreadings : readings outcome.2.2 = [.ofSecond 10, .ofSecond 10] := by cbv
  have hsmooth : Smooth outcome.2.2 := by
    refine smooth_of_works (by cbv) ?_ ?_ <;> rw [hreadings] <;> decide
  have hfits : (serialize
      (revised (outsideAt (.ofSecond 10) (.error (.store "sealed"))) .standard ()
      (entriesOf s.1) (.encryption "t"))).length ≤ CachingOptions.standard.maxChars := by cbv
  have hroom : ∀ step ∈ [⟨.lookUp () (.encryption "t"), s, first.2⟩],
      ForgetsNothing (fun _ => .standard) step :=
    List.forall_mem_singleton.mpr (forgetsNothing_of_oracle hfits)
  have htime : ∀ now later, Said s first.2 ⟨.time (), now⟩ →
      Said first.2 outcome.2 ⟨.time (), later⟩ →
      later < (now.add CachingOptions.standard.ttl).min latestExpiry := by
    intro now later hnow hlater
    obtain rfl := eq_oracle_of_said hnow
    obtain rfl := eq_oracle_of_said hlater
    decide
  obtain ⟨found, hserved, -⟩ := h (fun _ => .standard) _ _ _ _ _ _ _ [] hfetched hasks .start
    (execution.gives_run _ _) hsmooth hroom (List.forall_mem_nil _)
    (by constructor <;> decide) htime
  exact absurd (hlost.symm.trans hserved) (by simp)

end Shared

end TopicCipher
