import TopicCipher.Proofs.KeyCache.Lookups
import TopicCipher.Proofs.KeyCache.Order

/-!
# The best entry during an outage

When the source behind is out of order, a topic is served with the best of its entries: one with the
greatest version, and of those one with the latest expiry.  There may be several such entries, and
then the last one in the text is taken.  So which of them it is depends on the set of entries only
if they are in their order.

* `encryptionEntries`: the entries that the choice is made from.
* `newest?_bind_eq`: the choice is that of `best?` among them.
* `isNotBetter_of_best?`: no other entry is better than the chosen one, so it is a best one
  (`isBest_of_isNotBetter`).
* `best?_eq_of_forall`: an entry that is better than all others is chosen.
-/

namespace TopicCipher

/-- The comparison of entries by which the best one is chosen. -/
def CacheEntry.rank (a b : CacheEntry) : Ordering :=
  (compare a.key.version b.key.version).then (compare a.expiresAt b.expiresAt)

instance : Std.TransCmp CacheEntry.rank :=
  inferInstanceAs (Std.TransCmp <|
    compareLex (compareOn fun e : CacheEntry => e.key.version) (compareOn CacheEntry.expiresAt))

namespace KeyCache

variable {entries others : List CacheEntry} {topic : String} {best e : CacheEntry}

/-- The encryption entries of a topic. -/
def encryptionEntries (entries : List CacheEntry) (topic : String) : List CacheEntry :=
  entries.filter fun e => e.topic = topic && e.isEncryption

theorem mem_encryptionEntries :
    e ∈ encryptionEntries entries topic ↔
      e ∈ entries ∧ e.topic = topic ∧ e.isEncryption = true := by
  simp only [encryptionEntries, List.mem_filter, Bool.and_eq_true, decide_eq_true_eq]

/-- Reading makes no encryption entry of a topic, and it makes none something else. -/
theorem isEncryptionOf_asRead (topic : String) (e : CacheEntry) :
    ((asRead e).topic = topic && (asRead e).isEncryption) =
      (e.topic = topic && e.isEncryption) := by
  rw [CacheEntry.isEncryption, asRead, Option.isSome_map]
  rfl

theorem liveEntries_eq_filter (entries : List CacheEntry) (topic : String) (now : Instant) :
    liveEntries entries topic now =
      (encryptionEntries entries topic).filter fun e => !e.isExpiredAt now := by
  rw [encryptionEntries, List.filter_filter, liveEntries]
  exact List.filter_congr fun e _ => Bool.and_comm _ _

/-- When the source behind has to be asked, all encryption entries of the topic have expired. -/
theorem isExpiredAt_of_findEncryption {now : Instant} {newest : Option Nat}
    (h : findEncryption entries topic now = .expired newest) :
    ∀ e ∈ encryptionEntries entries topic, e.isExpiredAt now = true := by
  have hnone := liveEntries_eq_nil_of_findEncryption h
  rw [liveEntries_eq_filter, List.filter_eq_nil_iff] at hnone
  exact fun e he => by simpa using hnone e he

theorem le_of_isExpiredAt {now expiry : Instant} (h : e.isExpiredAt now = true)
    (hexpiry : e.expiresAt = some expiry) : expiry ≤ now := by
  rw [CacheEntry.isExpiredAt, hexpiry] at h
  exact of_decide_eq_true h

/-- The best so far and a candidate make the candidate, unless the best so far is better. -/
def chooseBest (best : Option CacheEntry) (candidate : CacheEntry) : Option CacheEntry :=
  match best with
  | none => some candidate
  | some current => if isNotBetter current candidate then some candidate else best

/-- The best of some entries, the last one among equals. -/
def best? (entries : List CacheEntry) : Option CacheEntry := entries.foldl chooseBest none

/-! ## The choice -/

theorem best?_concat (entries : List CacheEntry) (candidate : CacheEntry) :
    best? (entries ++ [candidate]) = chooseBest (best? entries) candidate := by
  rw [best?, List.foldl_concat]
  rfl

theorem chooseBest_ne_none (best : Option CacheEntry) (candidate : CacheEntry) :
    chooseBest best candidate ≠ none := by
  rcases best with _ | current
  · exact Option.some_ne_none candidate
  · rw [chooseBest]
    split <;> exact Option.some_ne_none _

theorem best?_eq_none_iff : best? entries = none ↔ entries = [] := by
  rcases List.eq_nil_or_concat entries with rfl | ⟨rest, candidate, rfl⟩
  · exact ⟨fun _ => rfl, fun _ => rfl⟩
  · rw [List.concat_eq_append, best?_concat]
    simp [chooseBest_ne_none]

theorem exists_best? (h : entries ≠ []) : ∃ best, best? entries = some best :=
  Option.ne_none_iff_exists'.mp fun hnone => h (best?_eq_none_iff.mp hnone)

theorem mem_of_best? (h : best? entries = some best) : best ∈ entries := by
  have hchoice := mem_of_foldl_choice (fun best candidate => ?_) h
  · exact hchoice.resolve_left (Option.some_ne_none best).symm
  · rcases best with _ | current
    · exact .inl rfl
    · by_cases hbetter : isNotBetter current candidate = true
      · exact .inl (if_pos hbetter)
      · exact .inr (if_neg hbetter)

theorem isNotBetter_trans {a b c : CacheEntry} (hab : isNotBetter a b = true)
    (hbc : isNotBetter b c = true) : isNotBetter a c = true := by
  have hrank : (a.rank c).isLE = true := Std.TransCmp.isLE_trans (b := b) hab hbc
  exact hrank

theorem isNotBetter_refl (a : CacheEntry) : isNotBetter a a = true := by
  have hrank : a.rank a = .eq := Std.ReflCmp.compare_self
  exact Ordering.isLE_of_eq_eq hrank

/-- Of two entries, one is not the better one. -/
theorem isNotBetter_of_not {a b : CacheEntry} (h : ¬ isNotBetter a b = true) :
    isNotBetter b a = true := by
  have hrank : b.rank a = .lt := Std.OrientedCmp.lt_of_not_isLE h
  exact Ordering.isLE_of_eq_lt hrank

/-- **No other entry is better than the chosen one.** -/
theorem isNotBetter_of_best? (h : best? entries = some best) :
    ∀ e ∈ entries, isNotBetter e best = true := by
  induction entries using List.reverseRecOn generalizing best with
  | nil => exact absurd h (Option.some_ne_none best).symm
  | append_singleton rest candidate ih =>
    rw [best?_concat] at h
    rcases hbefore : best? rest with _ | current <;> rw [hbefore] at h
    · obtain rfl := Option.some.inj h
      obtain rfl := best?_eq_none_iff.mp hbefore
      exact List.forall_mem_singleton.mpr (isNotBetter_refl candidate)
    · rw [chooseBest] at h
      refine List.forall_mem_append.mpr ⟨fun e he => ?_, List.forall_mem_singleton.mpr ?_⟩
      · have hcurrent := ih hbefore e he
        split at h
        next hnot => exact Option.some.inj h ▸ isNotBetter_trans hcurrent hnot
        next => exact Option.some.inj h ▸ hcurrent
      · split at h
        next => exact Option.some.inj h ▸ isNotBetter_refl candidate
        next hbetter => exact Option.some.inj h ▸ isNotBetter_of_not hbetter

/-- An entry that is better than all others is chosen. -/
theorem best?_eq_of_forall (hmem : best ∈ entries)
    (h : ∀ e ∈ entries, isNotBetter best e = true → e = best) : best? entries = some best := by
  rcases hchosen : best? entries with _ | chosen
  · rw [best?_eq_none_iff.mp hchosen] at hmem
    exact absurd hmem List.not_mem_nil
  · rw [h chosen (mem_of_best? hchosen) (isNotBetter_of_best? hchosen best hmem)]

/-! ## The position of the chosen entry -/

theorem map_fst_filter_zipIdx (p : CacheEntry → Bool) (entries : List CacheEntry) (n : Nat) :
    ((entries.zipIdx n).filter fun pair => p pair.1).map Prod.fst = entries.filter p := by
  induction entries generalizing n with
  | nil => rfl
  | cons e rest ih =>
    rw [List.zipIdx_cons, List.filter_cons, List.filter_cons]
    split
    · rw [List.map_cons, ih]
    · exact ih (n + 1)

/-- A choice among entries with their positions is the choice among the entries. -/
theorem map_fst_foldl_choice {choose : Option (CacheEntry × Nat) → CacheEntry × Nat →
      Option (CacheEntry × Nat)}
    (hchoose : ∀ best candidate,
      (choose best candidate).map Prod.fst = chooseBest (best.map Prod.fst) candidate.1)
    (l : List (CacheEntry × Nat)) (start : Option (CacheEntry × Nat)) :
    (l.foldl choose start).map Prod.fst =
      (l.map Prod.fst).foldl chooseBest (start.map Prod.fst) := by
  induction l generalizing start with
  | nil => rfl
  | cons candidate rest ih =>
    rw [List.foldl_cons, ih, hchoose, List.map_cons, List.foldl_cons]

/-- **The entry that bridges an outage** is the best of the encryption entries of the topic. -/
theorem newest?_bind_eq (entries : List CacheEntry) (topic : String) :
    (newest? entries topic).bind (entries[·]?) = best? (encryptionEntries entries topic) := by
  have hcandidates :=
    map_fst_filter_zipIdx (fun e => e.topic = topic && e.isEncryption) entries 0
  unfold newest?
  generalize hpick : List.foldl _ _ _ = pick
  have hbest : best? (encryptionEntries entries topic) = pick.map Prod.fst := by
    rw [← hpick, map_fst_foldl_choice ?_, best?, encryptionEntries, ← hcandidates]
    · rfl
    · rintro (_ | current) candidate
      · rfl
      · by_cases hnot : isNotBetter current.1 candidate.1 = true <;> simp [chooseBest, hnot]
  rw [hbest]
  rcases pick with _ | ⟨e, position⟩
  · rfl
  · have hmem := (mem_of_foldl_choice (fun best candidate => ?_) hpick).resolve_left
      (Option.some_ne_none _).symm
    · rw [List.mem_filter] at hmem
      exact List.mem_zipIdx_iff_getElem?.mp hmem.1
    · rcases best with _ | current
      · exact .inl rfl
      · by_cases hnot : isNotBetter current.1 candidate.1 = true
        · exact .inl (if_pos hnot)
        · exact .inr (if_neg hnot)

/-! ## Best entries -/

/-- An encryption entry of the topic is a best one if it has the greatest version, and no other one
with this version has a later expiry. -/
structure IsBest (entries : List CacheEntry) (topic : String) (best : CacheEntry) : Prop where
  mem : best ∈ encryptionEntries entries topic
  greatest : ∀ e ∈ encryptionEntries entries topic, e.key.version ≤ best.key.version
  latest : ∀ e ∈ encryptionEntries entries topic, e.key.version = best.key.version →
    ∀ x y, e.expiresAt = some x → best.expiresAt = some y → x ≤ y

theorem isNotBetter_iff {a b : CacheEntry} {x y : Instant} (ha : a.expiresAt = some x)
    (hb : b.expiresAt = some y) :
    isNotBetter a b = true ↔
      a.key.version < b.key.version ∨ a.key.version = b.key.version ∧ x ≤ y := by
  have hexpiry : compare (some x) (some y) = compare x y := rfl
  rw [isNotBetter, ha, hb, hexpiry, Ordering.isLE_then_iff_or, Instant.isLE_compare_iff,
    Std.compare_eq_lt, Std.LawfulEqOrd.compare_eq_iff_eq]

theorem exists_expiresAt_of_mem (h : e ∈ encryptionEntries entries topic) :
    ∃ x, e.expiresAt = some x :=
  Option.isSome_iff_exists.mp (mem_encryptionEntries.mp h).2.2

/-- **What is chosen is a best entry.** -/
theorem isBest_of_isNotBetter (hmem : best ∈ encryptionEntries entries topic)
    (h : ∀ e ∈ encryptionEntries entries topic, isNotBetter e best = true) :
    IsBest entries topic best := by
  obtain ⟨y, hy⟩ := exists_expiresAt_of_mem hmem
  refine ⟨hmem, fun e he => ?_, fun e he hversion x z hx hz => ?_⟩
  · obtain ⟨x, hx⟩ := exists_expiresAt_of_mem he
    rcases (isNotBetter_iff hx hy).mp (h e he) with hlt | ⟨heq, -⟩
    · exact UInt32.le_of_lt hlt
    · exact UInt32.le_of_eq heq
  · rcases (isNotBetter_iff hx hz).mp (h e he) with hlt | ⟨-, hle⟩
    · exact absurd hversion (UInt32.ne_of_lt hlt)
    · exact hle

end KeyCache

end TopicCipher
