import TopicCipher.Proofs.KeyCache.Stored

/-!
# The order of entries

Entries are written in their order, so that the text depends on the set of the entries only, and not
on how the cache came to know them.  That takes a total order in which no two entries are equal, and
it takes that the text is read as it was written: then the entries that are read are in their order,
and equal sets of entries are equal lists.

Reading an empty key name as none moves an entry: it was written behind the entries without a name,
and it is read as one of them.  So only entries that read alike are read in their order.

* `CacheEntry.order` is transitive (`TransCmp`), and only equal entries compare equal
  (`LawfulEqCmp`).
* `eq_of_perm_of_ordered`: in order, equal sets of entries are equal lists.
* `ordered_filter_parse_serialize`: entries that read alike are read in their order.
-/

namespace TopicCipher

open KeyCache

/-! ## Instants -/

instance : Std.TransOrd Instant :=
  inferInstanceAs (Std.TransCmp (compareLex (compareOn Instant.second) (compareOn Instant.nano)))

instance : Std.LawfulEqOrd Instant where
  eq_of_compare := by
    intro a b h
    obtain ⟨hsecond, hnano⟩ := Ordering.then_eq_eq.mp h
    obtain ⟨second, nano, _⟩ := a
    obtain ⟨second', nano', _⟩ := b
    obtain rfl : second = second' := Std.LawfulEqOrd.eq_of_compare hsecond
    obtain rfl : nano = nano' := Std.LawfulEqOrd.eq_of_compare hnano
    rfl

/-- The comparison of instants is that of their order. -/
theorem Instant.isLE_compare_iff {a b : Instant} : (compare a b).isLE = true ↔ a ≤ b := by
  have hcompare : compare a b = (compare a.second b.second).then (compare a.nano b.nano) := rfl
  rw [hcompare, Ordering.isLE_then_iff_or, Std.compare_eq_lt, Int.compare_eq_eq, Nat.isLE_compare,
    Instant.le_def]

/-! ## Entries -/

namespace CacheEntry

instance : Std.TransCmp order :=
  inferInstanceAs (Std.TransCmp <|
    compareLex (compareOn topic) <|
    compareLex (fun a b => compareOn (fun e : CacheEntry => e.key.version) b a) <|
    compareLex (compareOn fun e : CacheEntry => e.key.keyName) <|
    compareLex (compareOn expiresAt) <|
    compareOn fun e : CacheEntry => e.key.material)

/-- Only equal entries compare equal. -/
instance : Std.LawfulEqCmp order where
  eq_of_compare := by
    intro a b h
    obtain ⟨topic, ⟨version, keyName, material⟩, expiresAt⟩ := a
    obtain ⟨topic', ⟨version', keyName', material'⟩, expiresAt'⟩ := b
    simp only [order, Ordering.then_eq_eq] at h
    obtain ⟨htopic, hversion, hname, hexpiry, hmaterial⟩ := h
    obtain rfl : topic = topic' := Std.LawfulEqOrd.eq_of_compare htopic
    obtain rfl : version' = version := Std.LawfulEqOrd.eq_of_compare hversion
    obtain rfl : keyName = keyName' := Std.LawfulEqOrd.eq_of_compare hname
    obtain rfl : expiresAt = expiresAt' := Std.LawfulEqOrd.eq_of_compare hexpiry
    obtain rfl : material = material' := Std.LawfulEqOrd.eq_of_compare hmaterial
    rfl

end CacheEntry

namespace KeyCache

/-- Holds of entries in their order. -/
def Ordered (entries : List CacheEntry) : Prop :=
  entries.Pairwise fun a b => (a.order b).isLE = true

theorem ordered_mergeSort (entries : List CacheEntry) :
    Ordered (entries.mergeSort fun a b => (a.order b).isLE) := by
  refine List.pairwise_mergeSort (fun a b c => Std.TransCmp.isLE_trans) (fun a b => ?_) entries
  rw [Bool.or_eq_true]
  by_cases h : (a.order b).isLE = true
  · exact .inl h
  · exact .inr (Ordering.isLE_of_eq_lt (Std.OrientedCmp.lt_of_not_isLE h))

theorem ordered_arrange (entries : List CacheEntry) : Ordered (arrange entries) :=
  (ordered_mergeSort entries).sublist List.filter_sublist

theorem perm_arrange (entries : List CacheEntry) :
    (arrange entries).Perm (entries.filter isWritable) :=
  (List.mergeSort_perm entries _).filter isWritable

/-- **In order, equal sets of entries are equal lists.** -/
theorem eq_of_perm_of_ordered {entries others : List CacheEntry} (hperm : entries.Perm others)
    (hentries : Ordered entries) (hothers : Ordered others) : entries = others := by
  refine hperm.eq_of_pairwise (fun a b _ _ hab hba => ?_) hentries hothers
  have horder : a.order b = .eq := Std.OrientedCmp.isLE_antisymm hab hba
  exact Std.LawfulEqCmp.eq_of_compare horder

/-! ## What is read in order -/

/-- Keeping images of some elements is keeping some of the images. -/
theorem filterMap_sublist_map {α β : Type} {f : α → Option β} {g : α → β} {l : List α}
    (h : ∀ a ∈ l, ∀ b, f a = some b → b = g a) : (l.filterMap f).Sublist (l.map g) := by
  induction l with
  | nil => exact .slnil
  | cons a rest ih =>
    have hrest := ih fun c hc => h c (List.mem_cons_of_mem a hc)
    rw [List.map_cons]
    rcases hkept : f a with _ | b
    · rw [List.filterMap_cons_none hkept]
      exact hrest.cons (g a)
    · rw [List.filterMap_cons_some hkept, h a List.mem_cons_self b hkept]
      exact hrest.cons_cons (g a)

/-- What a text says about some entries is what it keeps of them. -/
theorem filter_parse_serialize_eq (entries : List CacheEntry) {p : CacheEntry → Bool}
    (hp : ∀ e, p (asRead e) = p e) :
    (parse (serialize entries)).filter p =
      ((entries.mergeSort fun a b => (a.order b).isLE).filter p).filterMap stored? := by
  rw [parse_serialize_eq_filterMap, List.filter_filterMap, List.filterMap_filter]
  refine List.filterMap_congr fun e _ => ?_
  rcases hstored : stored? e with _ | e'
  · simp
  · obtain ⟨-, rfl⟩ := stored?_eq_some_iff.mp hstored
    rw [Option.filter_some, hp]

/-- **Entries that read alike are read in their order**, whatever stands beside them. -/
theorem ordered_filter_parse_serialize {entries : List CacheEntry} {p : CacheEntry → Bool}
    (hp : ∀ e, p (asRead e) = p e) (h : ∀ e ∈ entries, p e = true → asRead e = e) :
    Ordered ((parse (serialize entries)).filter p) := by
  have hkept := filterMap_sublist_map (f := stored?) (g := id)
    (l := (entries.mergeSort fun a b => (a.order b).isLE).filter p) ?_
  · rw [filter_parse_serialize_eq entries hp]
    rw [List.map_id] at hkept
    exact (ordered_mergeSort entries).sublist (hkept.trans List.filter_sublist)
  · intro e he e' hstored
    obtain ⟨hmem, hpe⟩ := List.mem_filter.mp he
    rw [(stored?_eq_some_iff.mp hstored).2, h e (List.mem_mergeSort.mp hmem) hpe]
    rfl

end KeyCache

end TopicCipher
