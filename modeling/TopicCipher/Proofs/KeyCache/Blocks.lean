import Mathlib.Data.String.Basic
import TopicCipher.Proofs.KeyCache.Order

/-!
# One block of lines for each topic

The lines of a cache are written in one pass, with a topic line wherever the topic changes.  Entries
that cannot be written are left out before that, so they do not come between two entries of a topic.
And since entries are in order, the entries of a topic stand together, and the topic does not come
back: below the header there is one block for each topic, in which the topic line comes first.

The order is total and has no two equal entries, so the blocks depend on the entries and on how
often each of them occurs, but not on the order in which the cache came to know them.

* `isLE_order_iff`: the order among the entries of a topic.
* `exists_topics_of_ordered`: the lines of entries in order are the blocks of their topics.
* `count_topicLine`: each topic line occurs once.
* `serialize_is_canonical`: the text of a cache.
-/

namespace TopicCipher

open KeyCache

/-! ## The order of entries -/

/-- Options are compared with missing ones first. -/
theorem compare_option_eq_lt_iff {α : Type} [Ord α] [LT α] [Std.LawfulLTOrd α] {a b : Option α} :
    compare a b = .lt ↔ a < b := by
  rcases a with _ | a <;> rcases b with _ | b
  · exact ⟨fun h => absurd h.symm Ordering.noConfusion, False.elim⟩
  · exact ⟨fun _ => trivial, fun _ => rfl⟩
  · exact ⟨fun h => absurd h.symm Ordering.noConfusion, False.elim⟩
  · show compare a b = .lt ↔ a < b
    exact Std.LawfulLTCmp.eq_lt_iff_lt

instance : Std.LawfulLTOrd Instant where
  eq_lt_iff_lt := by
    intro a b
    show (compare a.second b.second).then (compare a.nano b.nano) = .lt ↔ _
    rw [Ordering.then_eq_lt, Instant.lt_def, Std.compare_eq_lt, Std.compare_eq_lt,
      Std.compare_eq_iff_eq]

namespace CacheEntry

/-- One entry of a topic comes before another one: the one with the newer version, then the one
whose name comes first, then the one that expires first, then the one whose material comes first.  A
missing name and a missing expiry come before all others. -/
def Precedes (a b : CacheEntry) : Prop :=
  b.key.version < a.key.version ∨ a.key.version = b.key.version ∧
    (a.key.keyName < b.key.keyName ∨ a.key.keyName = b.key.keyName ∧
      (a.expiresAt < b.expiresAt ∨ a.expiresAt = b.expiresAt ∧
        (a.key.material < b.key.material ∨ a.key.material = b.key.material)))

theorem isLE_order_iff {a b : CacheEntry} :
    (a.order b).isLE = true ↔ a.topic < b.topic ∨ a.topic = b.topic ∧ a.Precedes b := by
  simp only [order, Precedes, Ordering.isLE_then_iff_or]
  simp only [Ordering.isLE_iff_eq_lt_or_eq_eq, Std.LawfulLTCmp.eq_lt_iff_lt,
    compare_option_eq_lt_iff, Std.compare_eq_iff_eq, @eq_comm _ b.key.version]

end CacheEntry

namespace KeyCache

/-! ## Lines -/

/-- The entries of a topic. -/
def ofTopic (entries : List CacheEntry) (topic : String) : List CacheEntry :=
  entries.filter (·.topic = topic)

/-- The lines of a topic: the topic line, and the lines of the entries below it. -/
def block (entries : List CacheEntry) (topic : String) : List (List Char) :=
  topicLine topic :: (ofTopic entries topic).map entryLine

variable {entries rest : List CacheEntry} {e : CacheEntry} {topic other : String}

theorem block_cons_self : block (e :: rest) e.topic =
    topicLine e.topic :: entryLine e :: (ofTopic rest e.topic).map entryLine := by
  rw [block, ofTopic, List.filter_cons_of_pos (by simp)]
  rfl

theorem block_cons_of_ne (h : e.topic ≠ topic) : block (e :: rest) topic = block rest topic := by
  rw [block, ofTopic, List.filter_cons_of_neg (by simpa using h)]
  rfl

theorem topicLine_inj : topicLine topic = topicLine other ↔ topic = other := by
  rw [topicLine, topicLine, List.append_cancel_left_eq, List.cons_inj_right, String.toList_inj]

theorem entryLines_none_cons : entryLines none (e :: rest) =
    topicLine e.topic :: entryLine e :: entryLines (some e.topic) rest := by
  rw [entryLines, if_neg (Option.some_ne_none e.topic).symm]

theorem entryLines_some_cons_self : entryLines (some e.topic) (e :: rest) =
    entryLine e :: entryLines (some e.topic) rest := by
  rw [entryLines, if_pos rfl]

/-- Below the last entry of a topic, lines go on as at the start. -/
theorem entryLines_some_of_notMem (h : topic ∉ entries.map (·.topic)) :
    entryLines (some topic) entries = entryLines none entries := by
  rcases entries with _ | ⟨e, rest⟩
  · rfl
  · rw [List.map_cons, List.mem_cons, not_or] at h
    have hne : some topic ≠ some e.topic := fun heq => h.1 (Option.some.inj heq)
    rw [entryLines, entryLines_none_cons, if_neg hne]

/-- An entry makes no difference to the blocks of other topics. -/
theorem flatMap_block_cons {topics : List String} (h : ∀ topic ∈ topics, e.topic ≠ topic) :
    topics.flatMap (block (e :: rest)) = topics.flatMap (block rest) :=
  List.flatMap_congr fun topic hmem => block_cons_of_ne (h topic hmem)

theorem ofTopic_eq_nil (h : topic ∉ entries.map (·.topic)) : ofTopic entries topic = [] := by
  refine List.filter_eq_nil_iff.mpr fun e he heq => h ?_
  exact List.mem_map.mpr ⟨e, he, of_decide_eq_true heq⟩

/-- An entry of a topic that does not occur below it has a block of its own. -/
theorem entryLines_cons_of_notMem {topics : List String} (hnew : e.topic ∉ rest.map (·.topic))
    (htopics : ∀ topic ∈ topics, e.topic ≠ topic)
    (hlines : entryLines none rest = topics.flatMap (block rest)) :
    entryLines none (e :: rest) = (e.topic :: topics).flatMap (block (e :: rest)) := by
  rw [entryLines_none_cons, entryLines_some_of_notMem hnew, hlines, List.flatMap_cons,
    flatMap_block_cons htopics, block_cons_self, ofTopic_eq_nil hnew]
  rfl

/-- The line of another entry of the first topic comes first in the first block. -/
theorem entryLines_cons_of_eq {f : CacheEntry} {later : List String} (hsame : f.topic = e.topic)
    (hlater : ∀ topic ∈ later, e.topic ≠ topic)
    (hlines : entryLines none (f :: rest) = (e.topic :: later).flatMap (block (f :: rest))) :
    entryLines none (e :: f :: rest) = (e.topic :: later).flatMap (block (e :: f :: rest)) := by
  rw [List.flatMap_cons, entryLines_none_cons, hsame] at hlines
  have hbelow : entryLine f :: entryLines (some e.topic) rest =
      (ofTopic (f :: rest) e.topic).map entryLine ++ later.flatMap (block (f :: rest)) :=
    (List.cons.inj hlines).2
  have hfirst : entryLines (some e.topic) (f :: rest) =
      entryLine f :: entryLines (some e.topic) rest := by
    rw [← hsame, entryLines_some_cons_self]
  rw [entryLines_none_cons, List.flatMap_cons, flatMap_block_cons hlater, block_cons_self,
    hfirst, hbelow]
  rfl

/-- **The lines of entries in order are the blocks of their topics.**  An entry in front of the
others belongs to the first topic or to one before it, and so its line stands in the first block or
in one of its own. -/
theorem exists_topics_of_ordered (h : Ordered entries) :
    ∃ topics : List String, topics.Pairwise (· < ·) ∧
      (∀ topic, topic ∈ topics ↔ topic ∈ entries.map (·.topic)) ∧
      entryLines none entries = topics.flatMap (block entries) := by
  induction entries with
  | nil => exact ⟨[], .nil, fun _ => Iff.rfl, rfl⟩
  | cons e rest ih =>
    obtain ⟨hfirst, hrest⟩ := List.pairwise_cons.mp h
    obtain ⟨topics, hascending, hmem, hlines⟩ := ih hrest
    rcases rest with _ | ⟨f, rest⟩
    · exact ⟨[e.topic], List.pairwise_singleton _ _, fun _ => Iff.rfl,
        entryLines_cons_of_notMem List.not_mem_nil (List.forall_mem_nil _) rfl⟩
    · -- the first topic of the others is that of the first of them
      obtain ⟨later, rfl⟩ : ∃ later, topics = f.topic :: later := by
        rcases topics with _ | ⟨topic, later⟩
        · exact absurd ((hmem f.topic).mpr List.mem_cons_self) List.not_mem_nil
        · rw [entryLines_none_cons, List.flatMap_cons, block] at hlines
          exact ⟨later, by rw [topicLine_inj.mp (List.cons.inj hlines).1]⟩
      obtain ⟨hlater, -⟩ := List.pairwise_cons.mp hascending
      rcases CacheEntry.isLE_order_iff.mp (hfirst f List.mem_cons_self) with hlt | ⟨hsame, -⟩
      · have hbefore : ∀ topic ∈ f.topic :: later, e.topic < topic :=
          List.forall_mem_cons.mpr ⟨hlt, fun topic ht => lt_trans hlt (hlater topic ht)⟩
        have hnew : e.topic ∉ (f :: rest).map (·.topic) :=
          fun hin => lt_irrefl _ (hbefore _ ((hmem _).mpr hin))
        refine ⟨e.topic :: f.topic :: later, List.pairwise_cons.mpr ⟨hbefore, hascending⟩,
          fun topic => ?_, entryLines_cons_of_notMem hnew
            (fun topic ht => (hbefore topic ht).ne) hlines⟩
        rw [List.mem_cons, hmem, ← List.mem_cons]
        rfl
      · rw [← hsame] at hascending hmem hlines hlater
        refine ⟨e.topic :: later, hascending, fun topic => ?_,
          entryLines_cons_of_eq hsame.symm (fun topic ht => (hlater topic ht).ne) hlines⟩
        rw [hmem, List.map_cons, List.map_cons, List.map_cons, hsame]
        simp only [List.mem_cons, or_self_left]

/-! ## Topic lines -/

theorem topicLine_ne_header (topic : String) : topicLine topic ≠ header.toList := by
  intro heq
  have htab : (topicLine topic)[5]? = some separator := rfl
  rw [heq] at htab
  exact absurd htab (by decide)

/-- An entry line begins with a digit. -/
theorem topicLine_ne_entryLine (topic : String) (e : CacheEntry) :
    topicLine topic ≠ entryLine e := by
  intro heq
  obtain ⟨c, cs, hdigits⟩ := List.exists_cons_of_ne_nil e.key.version.digits_ne_nil
  have hdigit : c.isDigit = true := Version.isDigit_of_mem_digits (hdigits ▸ List.mem_cons_self)
  rw [entryLine, hdigits, List.intercalate_cons_cons, List.cons_append] at heq
  have hc : 't' = c := (List.cons.inj heq).1
  rw [← hc] at hdigit
  exact absurd hdigit (by decide)

theorem count_topicLine_block :
    (block entries topic).count (topicLine other) = [topic].count other := by
  have hnone : ((ofTopic entries topic).map entryLine).count (topicLine other) = 0 := by
    refine List.count_eq_zero.mpr fun hmem => ?_
    obtain ⟨e, -, heq⟩ := List.mem_map.mp hmem
    exact topicLine_ne_entryLine other e heq.symm
  rw [block, List.count_cons, List.count_singleton, hnone, Nat.zero_add]
  simp only [beq_iff_eq, topicLine_inj]

/-- **A topic line occurs in blocks as often as its topic.** -/
theorem count_topicLine (topics : List String) :
    (topics.flatMap (block entries)).count (topicLine other) = topics.count other := by
  induction topics with
  | nil => rfl
  | cons topic later ih =>
    rw [List.flatMap_cons, List.count_append, count_topicLine_block, ih, ← List.count_append]
    rfl

/-! ## The text -/

/-- The same entries make the same text, in whatever order they are given. -/
theorem serialize_eq_of_perm {entries others : List CacheEntry} (h : entries.Perm others) :
    serialize entries = serialize others := by
  have hperm : (arrange entries).Perm (arrange others) :=
    (perm_arrange entries).trans ((h.filter isWritable).trans (perm_arrange others).symm)
  rw [serialize, serialize, eq_of_perm_of_ordered hperm (ordered_arrange entries)
    (ordered_arrange others)]

/-- The text of some entries, topic by topic. -/
structure IsGrouped (entries : List CacheEntry) (topics : List String) : Prop where
  /-- The topics come in their order, and no topic comes twice. -/
  ascending : topics.Pairwise (· < ·)
  /-- They are the topics of the entries that can be written. -/
  mem_topics_iff {topic : String} :
    topic ∈ topics ↔ ∃ e ∈ entries, isWritable e = true ∧ e.topic = topic
  /-- Below the header, there is one block for each topic. -/
  text : serialize entries =
    ofLines (header.toList :: topics.flatMap (block (arrange entries)))
  /-- In the block of a topic, there are its entries that can be written. -/
  perm (topic : String) :
    (ofTopic (arrange entries) topic).Perm (entries.filter fun e => isWritable e && e.topic = topic)
  /-- They come in their order. -/
  ordered (topic : String) : (ofTopic (arrange entries) topic).Pairwise CacheEntry.Precedes
  /-- So a topic line occurs once or, if the topic has no such entries, not at all. -/
  count (topic : String) : (lines (serialize entries).toList).count (topicLine topic) =
    if topic ∈ topics then 1 else 0

theorem pairwise_precedes_ofTopic (h : Ordered entries) (topic : String) :
    (ofTopic entries topic).Pairwise CacheEntry.Precedes := by
  have hordered : Ordered (ofTopic entries topic) := h.sublist List.filter_sublist
  have htopic : ∀ e ∈ ofTopic entries topic, e.topic = topic :=
    fun e he => of_decide_eq_true (List.mem_filter.mp he).2
  refine hordered.imp_of_mem fun {a b} ha hb hle => ?_
  rcases CacheEntry.isLE_order_iff.mp hle with hlt | ⟨-, hprecedes⟩
  · rw [htopic a ha, htopic b hb] at hlt
    exact absurd hlt (lt_irrefl topic)
  · exact hprecedes

theorem exists_isGrouped (entries : List CacheEntry) : ∃ topics, IsGrouped entries topics := by
  obtain ⟨topics, hascending, hmem, hlines⟩ := exists_topics_of_ordered (ordered_arrange entries)
  have hperm (topic : String) : (ofTopic (arrange entries) topic).Perm
      (entries.filter fun e => isWritable e && e.topic = topic) := by
    have hfilter := (perm_arrange entries).filter (·.topic = topic)
    rwa [List.filter_filter, List.filter_congr fun e _ => Bool.and_comm _ _] at hfilter
  refine ⟨topics, hascending, fun {topic} => ?_, ?_, hperm,
    pairwise_precedes_ofTopic (ordered_arrange entries), fun topic => ?_⟩
  · rw [hmem, List.mem_map]
    constructor
    · rintro ⟨e, he, heq⟩
      obtain ⟨hin, hwritable⟩ := List.mem_filter.mp ((perm_arrange entries).mem_iff.mp he)
      exact ⟨e, hin, hwritable, heq⟩
    · rintro ⟨e, hin, hwritable, heq⟩
      exact ⟨e, (perm_arrange entries).mem_iff.mpr (List.mem_filter.mpr ⟨hin, hwritable⟩), heq⟩
  · rw [serialize, hlines]
  · have hnodup : topics.Nodup := hascending.imp fun hlt => hlt.ne
    rw [lines_serialize, hlines, List.count_cons_of_ne (topicLine_ne_header topic).symm,
      count_topicLine, hnodup.count]

/-- **The text of a cache is canonical.**  The order of entries is a total order in which only equal
entries are equal, so the text is the same in whatever order the entries are given.  Below the
header it has one block of lines for each topic with an entry that can be written: topics ascend,
and in a block the entries stand in their order. -/
theorem serialize_is_canonical :
    (∀ a b : CacheEntry, b.order a = (a.order b).swap) ∧
    (∀ a b : CacheEntry, (a.order b).isLE = true ∨ (b.order a).isLE = true) ∧
    (∀ a b c : CacheEntry, (a.order b).isLE = true → (b.order c).isLE = true →
      (a.order c).isLE = true) ∧
    (∀ a b : CacheEntry, a.order b = .eq ↔
      a.topic = b.topic ∧ a.key.version = b.key.version ∧ a.key.keyName = b.key.keyName ∧
        a.expiresAt = b.expiresAt ∧ a.key.material = b.key.material) ∧
    (∀ entries others : List CacheEntry, entries.Perm others →
      serialize entries = serialize others) ∧
    ∀ entries : List CacheEntry, ∃ topics, IsGrouped entries topics := by
  have hswap (a b : CacheEntry) : b.order a = (a.order b).swap := Std.OrientedCmp.eq_swap
  refine ⟨hswap, fun a b => ?_, fun _ _ _ => Std.TransCmp.isLE_trans, fun a b => ?_,
    fun _ _ => serialize_eq_of_perm, exists_isGrouped⟩
  · rw [hswap a b, Ordering.isLE_swap]
    rcases a.order b <;> decide
  · simp only [CacheEntry.order, Ordering.then_eq_eq, Std.compare_eq_iff_eq,
      @eq_comm _ b.key.version]

/-- Two entries of a topic, and one between them that cannot be written since it has no key
material, behind the entry of another topic. -/
def interrupted : List CacheEntry :=
  [⟨"t", ⟨1, none, "YQ=="⟩, none⟩, ⟨"t", ⟨2, none, ""⟩, none⟩, ⟨"t", ⟨3, none, "Yg=="⟩, none⟩,
    ⟨"a", ⟨1, none, "YQ=="⟩, none⟩]

/-- The entry without material does not break the block of its topic. -/
theorem serialize_is_canonical_interrupted : interrupted.Perm interrupted.reverse ∧
    serialize interrupted = serialize interrupted.reverse ∧
    (lines (serialize interrupted).toList).count (topicLine "t") = 1 := by
  obtain ⟨-, -, -, -, hperm, hgrouped⟩ := serialize_is_canonical
  have hreverse : interrupted.Perm interrupted.reverse := (List.reverse_perm interrupted).symm
  obtain ⟨topics, h⟩ := hgrouped interrupted
  have hmem : "t" ∈ topics :=
    h.mem_topics_iff.mpr ⟨_, List.mem_cons_self, by decide, rfl⟩
  exact ⟨hreverse, hperm _ _ hreverse, (h.count "t").trans (if_pos hmem)⟩

example : serialize interrupted =
    "topicseal-key-cache v1\ntopic\ta\n1\t\t\tYQ==\ntopic\tt\n3\t\t\tYg==\n1\t\t\tYQ==\n" := by
  cbv

end KeyCache

end TopicCipher
