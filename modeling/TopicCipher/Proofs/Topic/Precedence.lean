import Mathlib.Data.List.Basic
import Mathlib.Data.Nat.Basic
import Mathlib.Order.Basic
import Mathlib.Tactic.ByContra
import Mathlib.Tactic.SplitIfs
import TopicCipher.Topic.Rules

/-!
# Which rule decides

Rules are asked for one property at a time.  `Rules.Says` tells which answer they give, in terms of
the list of rules and of nothing else: the first rule for the topic itself, or else the earliest one
with the longest fitting beginning, or else the default rule, or else none.  Only rules that define
the property are compared.

The one step that is not read off is the choice of the longest beginning, because the program
compares lengths and not beginnings.  Two beginnings of one topic that are equally long are equal,
so the greatest length belongs to one beginning, and the program takes the earliest rule that has
it.

That is also why the order of the rules rarely matters.  It decides between rules for the same name
and between rules with the same beginning, and where there are no two such rules, it decides
nothing.

* `longest_eq_some_iff`: the choice of the longest, in closed form.
* `says_resolve`, `Says.resolve_eq`: the rules say what is resolved, and nothing else.
* `Says.defining`, `Says.of_perm`: rules without the property do not matter, nor does the order.
* `follows_of_ofRules`: what a resolver of rules answers.
-/

namespace TopicCipher

variable {α : Type}

/-! ## Beginnings -/

/-- The rule speaks for all topics with a beginning, and the topic has it. -/
def TopicRule.Covers (r : TopicRule) (topic beginning : String) : Prop :=
  r.beginning = some beginning ∧ beginning.toList <+: topic.toList

theorem TopicRule.matchLength?_eq_some_iff {r : TopicRule} {topic : String} {n : Nat} :
    r.matchLength? topic = some n ↔
      ∃ beginning, r.Covers topic beginning ∧ beginning.length = n := by
  simp [matchLength?, Covers, Option.filter_eq_some_iff, and_assoc]

/-- Beginnings of one topic that are equally long are equal. -/
theorem TopicRule.Covers.eq_of_length {r o : TopicRule} {topic beginning other : String}
    (h : r.Covers topic beginning) (h' : o.Covers topic other)
    (hlength : other.length = beginning.length) : other = beginning := by
  have hlengths : other.toList.length = beginning.toList.length := hlength
  exact String.toList_inj.mp
    ((List.prefix_of_prefix_length_le h'.2 h.2 hlengths.le).eq_of_length hlengths)

namespace Rules

variable {rules : List TopicRule} {topic : String} {property : TopicRule → Option α}

/-! ## The longest -/

theorem longest_eq_none_iff {values : List (Nat × α)} : longest values = none ↔ values = [] := by
  cases values with
  | nil => simp [longest]
  | cons value rest =>
    obtain ⟨n, a⟩ := value
    rw [longest]
    rcases longest rest with _ | ⟨k, b⟩
    · simp
    · simp only
      split_ifs <;> simp

/-- **The longest value comes after shorter ones and before ones that are not longer.** -/
theorem longest_eq_some_iff {values : List (Nat × α)} {n : Nat} {a : α} :
    longest values = some (n, a) ↔
      ∃ above below, values = above ++ (n, a) :: below ∧ (∀ value ∈ above, value.1 < n) ∧
        ∀ value ∈ below, value.1 ≤ n := by
  induction values generalizing n a with
  | nil => simp [longest]
  | cons value rest ih =>
    obtain ⟨k, b⟩ := value
    rw [longest]
    constructor
    · rcases hrest : longest rest with _ | ⟨l, c⟩
      · intro h
        obtain ⟨rfl, rfl⟩ := Prod.mk.inj (Option.some.inj h)
        obtain rfl := longest_eq_none_iff.mp hrest
        exact ⟨[], [], rfl, by simp, by simp⟩
      · obtain ⟨above, below, rfl, habove, hbelow⟩ := ih.mp hrest
        simp only
        split_ifs with hlt <;> intro h <;> obtain ⟨rfl, rfl⟩ := Prod.mk.inj (Option.some.inj h)
        · exact ⟨(k, b) :: above, below, rfl, List.forall_mem_cons.mpr ⟨hlt, habove⟩, hbelow⟩
        · refine ⟨[], above ++ (l, c) :: below, rfl, by simp, ?_⟩
          rw [List.forall_mem_append, List.forall_mem_cons]
          exact ⟨fun value hmem => by have := habove value hmem; omega, by omega,
            fun value hmem => by have := hbelow value hmem; omega⟩
    · rintro ⟨above, below, hvalues, habove, hbelow⟩
      cases above with
      | nil =>
        obtain ⟨hhead, rfl⟩ := List.cons.inj hvalues
        obtain ⟨rfl, rfl⟩ := Prod.mk.inj hhead
        rcases hrest : longest rest with _ | ⟨l, c⟩
        · rfl
        · obtain ⟨front, back, hsplit, -, -⟩ := ih.mp hrest
          have hle : l ≤ k := hbelow (l, c) (by rw [hsplit]; simp)
          simp only
          rw [if_neg (by omega)]
      | cons first above =>
        obtain ⟨rfl, hrest⟩ := List.cons.inj hvalues
        rw [List.forall_mem_cons] at habove
        have hlongest := ih.mpr ⟨above, below, hrest, habove.2, hbelow⟩
        simp only [hlongest]
        rw [if_pos habove.1]

/-! ## The three kinds of rules -/

/-- The first of several values that a list has under a condition. -/
theorem findSome?_filter_eq_some_iff {β : Type} {values : List β} {p : β → Bool} {f : β → Option α}
    {a : α} :
    (values.filter p).findSome? f = some a ↔
      ∃ above value below, values = above ++ value :: below ∧ p value = true ∧ f value = some a ∧
        ∀ other ∈ above, p other = true → f other = none := by
  have hguard : (values.filter p).findSome? f =
      values.findSome? fun value => if p value then f value else none := by
    induction values with
    | nil => rfl
    | cons value rest ih => by_cases hp : p value <;> simp [List.findSome?_cons, hp, ih]
  simp [hguard, List.findSome?_eq_some_iff, Option.ite_none_right_eq_some, and_assoc]

theorem findSome?_filter_eq_none_iff {β : Type} {values : List β} {p : β → Bool}
    {f : β → Option α} :
    (values.filter p).findSome? f = none ↔ ∀ value ∈ values, p value = true → f value = none := by
  simp [List.findSome?_eq_none_iff, List.mem_filter]

theorem ofTopic_eq_some_iff {a : α} :
    ofTopic rules topic property = some a ↔
      ∃ above r below, rules = above ++ r :: below ∧ r.topic = some topic ∧ property r = some a ∧
        ∀ o ∈ above, o.topic = some topic → property o = none := by
  simp only [ofTopic, findSome?_filter_eq_some_iff, decide_eq_true_eq]

theorem ofTopic_eq_none_iff :
    ofTopic rules topic property = none ↔
      ∀ o ∈ rules, o.topic = some topic → property o = none := by
  simp only [ofTopic, findSome?_filter_eq_none_iff, decide_eq_true_eq]

/-- What a rule has to offer for its beginning: the length of it, and the property. -/
def offer (topic : String) (property : TopicRule → Option α) (r : TopicRule) :
    Option (Nat × α) := do
  some (← r.matchLength? topic, ← property r)

theorem offer_eq_some_iff {r : TopicRule} {n : Nat} {a : α} :
    offer topic property r = some (n, a) ↔
      (∃ beginning, r.Covers topic beginning ∧ beginning.length = n) ∧ property r = some a := by
  rw [← TopicRule.matchLength?_eq_some_iff, offer]
  cases r.matchLength? topic <;> cases property r <;> simp

theorem offer_of_covers {r : TopicRule} {beginning : String} {a : α}
    (hcovers : r.Covers topic beginning) (hproperty : property r = some a) :
    offer topic property r = some (beginning.length, a) :=
  offer_eq_some_iff.mpr ⟨⟨beginning, hcovers, rfl⟩, hproperty⟩

theorem ofBeginning_eq_none_iff :
    ofBeginning rules topic property = none ↔
      ∀ o ∈ rules, ∀ beginning, o.Covers topic beginning → property o = none := by
  have hempty : ofBeginning rules topic property = none ↔
      ∀ o ∈ rules, offer topic property o = none := by
    rw [ofBeginning, Option.map_eq_none_iff, longest_eq_none_iff, List.filterMap_eq_nil_iff]
    rfl
  rw [hempty]
  refine forall₂_congr fun o _ => ?_
  constructor
  · intro hoffer beginning hcovers
    rw [Option.eq_none_iff_forall_ne_some]
    intro a hproperty
    exact absurd (hoffer.symm.trans (offer_of_covers hcovers hproperty)) (by simp)
  · intro hcovered
    rw [Option.eq_none_iff_forall_ne_some]
    rintro ⟨n, a⟩ hoffer
    obtain ⟨⟨beginning, hcovers, -⟩, hproperty⟩ := offer_eq_some_iff.mp hoffer
    exact absurd ((hcovered beginning hcovers).symm.trans hproperty) (by simp)

/-- **The longest beginning is one text**, and the earliest rule that has it wins. -/
theorem ofBeginning_eq_some_iff {a : α} :
    ofBeginning rules topic property = some a ↔
      ∃ above r below beginning, rules = above ++ r :: below ∧ r.Covers topic beginning ∧
        property r = some a ∧ (∀ o ∈ above, o.Covers topic beginning → property o = none) ∧
        ∀ o ∈ rules, ∀ other, o.Covers topic other → property o ≠ none →
          other.length ≤ beginning.length := by
  have hlongest : ofBeginning rules topic property = some a ↔
      ∃ n, longest (rules.filterMap (offer topic property)) = some (n, a) := by
    show (longest (rules.filterMap (offer topic property))).map (·.2) = some a ↔ _
    simp [Option.map_eq_some_iff]
  rw [hlongest]
  simp only [longest_eq_some_iff]
  constructor
  · rintro ⟨n, shorter, rest, hsplit, hshorter, hrest⟩
    obtain ⟨front, back, rfl, rfl, hback⟩ := List.filterMap_eq_append_iff.mp hsplit
    obtain ⟨silent, r, below, rfl, hsilent, hr, rfl⟩ := List.filterMap_eq_cons_iff.mp hback
    obtain ⟨⟨beginning, hcovers, rfl⟩, hproperty⟩ := offer_eq_some_iff.mp hr
    refine ⟨front ++ silent, r, below, beginning, (List.append_assoc ..).symm, hcovers, hproperty,
      fun o ho hocovers => ?_, fun o ho other hocovers hne => ?_⟩
    · rw [Option.eq_none_iff_forall_ne_some]
      intro b hb
      have hoffer := offer_of_covers hocovers hb
      rcases List.mem_append.mp ho with ho | ho
      · exact absurd (hshorter _ (List.mem_filterMap.mpr ⟨o, ho, hoffer⟩)) (Nat.lt_irrefl _)
      · exact absurd ((hsilent o ho).symm.trans hoffer) (by simp)
    · obtain ⟨b, hb⟩ := Option.ne_none_iff_exists'.mp hne
      have hoffer := List.mem_filterMap.mpr ⟨o, ho, offer_of_covers hocovers hb⟩
      rw [hsplit, List.mem_append, List.mem_cons] at hoffer
      rcases hoffer with hmem | heq | hmem
      · exact (hshorter _ hmem).le
      · exact (congrArg Prod.fst heq).le
      · exact hrest _ hmem
  · rintro ⟨above, r, below, beginning, rfl, hcovers, hproperty, habove, hlongest⟩
    have hbound {o : TopicRule} {n : Nat} {b : α} (ho : o ∈ above ++ r :: below)
        (hoffer : offer topic property o = some (n, b)) : n ≤ beginning.length := by
      obtain ⟨⟨other, hocovers, rfl⟩, hb⟩ := offer_eq_some_iff.mp hoffer
      exact hlongest o ho other hocovers (by rw [hb]; simp)
    refine ⟨beginning.length, above.filterMap (offer topic property),
      below.filterMap (offer topic property), ?_, ?_, ?_⟩
    · rw [List.filterMap_append, List.filterMap_cons, offer_of_covers hcovers hproperty]
    · rintro ⟨n, b⟩ hmem
      obtain ⟨o, ho, hoffer⟩ := List.mem_filterMap.mp hmem
      refine lt_of_le_of_ne (hbound (List.mem_append_left _ ho) hoffer) fun hlength => ?_
      -- an equally long beginning would be the same one, and the rule would have come first
      obtain ⟨⟨other, hocovers, hother⟩, hb⟩ := offer_eq_some_iff.mp hoffer
      obtain rfl := hcovers.eq_of_length hocovers (hother.trans hlength)
      exact absurd ((habove o ho hocovers).symm.trans hb) (by simp)
    · rintro ⟨n, b⟩ hmem
      obtain ⟨o, ho, hoffer⟩ := List.mem_filterMap.mp hmem
      exact hbound (List.mem_append_right _ (List.mem_cons_of_mem r ho)) hoffer

/-! ## What the rules say -/

/-- No rule for the topic itself defines the property. -/
def NoneNames (rules : List TopicRule) (topic : String) (property : TopicRule → Option α) : Prop :=
  ∀ o ∈ rules, o.topic = some topic → property o = none

/-- No rule for a beginning of the topic defines the property. -/
def NoneCovers (rules : List TopicRule) (topic : String) (property : TopicRule → Option α) : Prop :=
  ∀ o ∈ rules, ∀ beginning, o.Covers topic beginning → property o = none

/-- **What rules say about a property of a topic**, in the order in which rules count. -/
inductive Says (rules : List TopicRule) (topic : String) (property : TopicRule → Option α) :
    Option α → Prop where
  /-- The first rule for the topic itself that defines the property. -/
  | named {above below : List TopicRule} {r : TopicRule} {a : α}
      (hrules : rules = above ++ r :: below) (hnamed : r.topic = some topic)
      (hproperty : property r = some a) (hfirst : NoneNames above topic property) :
      Says rules topic property (some a)
  /-- Of the rules for a beginning of the topic that define the property, the earliest one among
  those with the longest beginning. -/
  | begun {above below : List TopicRule} {r : TopicRule} {beginning : String} {a : α}
      (hunnamed : NoneNames rules topic property) (hrules : rules = above ++ r :: below)
      (hcovers : r.Covers topic beginning) (hproperty : property r = some a)
      (hearliest : ∀ o ∈ above, o.Covers topic beginning → property o = none)
      (hlongest : ∀ o ∈ rules, ∀ other, o.Covers topic other → property o ≠ none →
        other.length ≤ beginning.length) :
      Says rules topic property (some a)
  /-- The default rule, if it defines the property. -/
  | fallback {r : TopicRule} {a : α} (hunnamed : NoneNames rules topic property)
      (huncovered : NoneCovers rules topic property) (hmem : r ∈ rules)
      (hdefault : r.isDefault = true) (hproperty : property r = some a) :
      Says rules topic property (some a)
  /-- No rule. -/
  | nothing (hunnamed : NoneNames rules topic property)
      (huncovered : NoneCovers rules topic property)
      (hdefault : ∀ o ∈ rules, o.isDefault = true → property o = none) :
      Says rules topic property none

/-- The rules say what is resolved. -/
theorem says_resolve (rules : List TopicRule) (topic : String) (property : TopicRule → Option α) :
    Says rules topic property (resolve rules topic property) := by
  rw [resolve]
  rcases hnamed : ofTopic rules topic property with _ | a
  · have hunnamed : NoneNames rules topic property := ofTopic_eq_none_iff.mp hnamed
    rcases hbegun : ofBeginning rules topic property with _ | a
    · have huncovered : NoneCovers rules topic property := ofBeginning_eq_none_iff.mp hbegun
      rcases hdefault : ofDefault rules property with _ | a
      · exact .nothing hunnamed huncovered (findSome?_filter_eq_none_iff.mp hdefault)
      · obtain ⟨above, r, below, rfl, hr, hproperty, -⟩ := findSome?_filter_eq_some_iff.mp hdefault
        exact .fallback hunnamed huncovered (by simp) hr hproperty
    · obtain ⟨above, r, below, beginning, hrules, hcovers, hproperty, hearliest, hlongest⟩ :=
        ofBeginning_eq_some_iff.mp hbegun
      exact .begun hunnamed hrules hcovers hproperty hearliest hlongest
  · obtain ⟨above, r, below, hrules, hr, hproperty, hfirst⟩ := ofTopic_eq_some_iff.mp hnamed
    exact .named hrules hr hproperty hfirst

/-- With one default rule, it is the one that is asked. -/
theorem ofDefault_eq_of_mem {r : TopicRule} (hone : rules.countP (·.isDefault) ≤ 1)
    (hmem : r ∈ rules) (hdefault : r.isDefault = true) :
    ofDefault rules property = property r := by
  have hfilter : rules.filter (·.isDefault) = [r] := by
    rw [List.countP_eq_length_filter] at hone
    have hr : r ∈ rules.filter (·.isDefault) := List.mem_filter.mpr ⟨hmem, hdefault⟩
    generalize rules.filter (·.isDefault) = defaults at hone hr
    rcases defaults with _ | ⟨d, _ | ⟨e, rest⟩⟩
    · exact absurd hr List.not_mem_nil
    · rw [List.mem_singleton.mp hr]
    · exact absurd hone (by simp)
  rw [ofDefault, hfilter]
  cases hproperty : property r <;> simp [hproperty]

/-- **The rules say nothing but what is resolved**, if there is at most one default rule. -/
theorem Says.resolve_eq {answer : Option α} (h : Says rules topic property answer)
    (hone : rules.countP (·.isDefault) ≤ 1) : resolve rules topic property = answer := by
  rw [resolve]
  cases h with
  | named hrules hnamed hproperty hfirst =>
    rw [ofTopic_eq_some_iff.mpr ⟨_, _, _, hrules, hnamed, hproperty, hfirst⟩]
    rfl
  | begun hunnamed hrules hcovers hproperty hearliest hlongest =>
    rw [ofTopic_eq_none_iff.mpr hunnamed,
      ofBeginning_eq_some_iff.mpr ⟨_, _, _, _, hrules, hcovers, hproperty, hearliest, hlongest⟩]
    rfl
  | fallback hunnamed huncovered hmem hdefault hproperty =>
    rw [ofTopic_eq_none_iff.mpr hunnamed, ofBeginning_eq_none_iff.mpr huncovered,
      ofDefault_eq_of_mem hone hmem hdefault, hproperty]
    rfl
  | nothing hunnamed huncovered hdefault =>
    rw [ofTopic_eq_none_iff.mpr hunnamed, ofBeginning_eq_none_iff.mpr huncovered, ofDefault,
      findSome?_filter_eq_none_iff.mpr hdefault]
    rfl

theorem says_iff (hone : rules.countP (·.isDefault) ≤ 1) {answer : Option α} :
    Says rules topic property answer ↔ resolve rules topic property = answer := by
  constructor
  · exact fun h => h.resolve_eq hone
  · rintro rfl
    exact says_resolve rules topic property

/-! ## What does not matter -/

/-- The rules that define a property. -/
def defining (rules : List TopicRule) (property : TopicRule → Option α) : List TopicRule :=
  rules.filter fun r => (property r).isSome

theorem defining_append_cons {above below : List TopicRule} {r : TopicRule} {a : α}
    (hproperty : property r = some a) :
    defining (above ++ r :: below) property =
      defining above property ++ r :: defining below property := by
  rw [defining, List.filter_append, List.filter_cons_of_pos (by rw [hproperty]; rfl)]
  rfl

/-- **A rule that does not define the property never stands in the way.** -/
theorem Says.defining {answer : Option α} (h : Says rules topic property answer) :
    Says (defining rules property) topic property answer := by
  have hsub {o : TopicRule} {some_rules : List TopicRule}
      (ho : o ∈ Rules.defining some_rules property) : o ∈ some_rules :=
    List.mem_of_mem_filter ho
  cases h with
  | named hrules hnamed hproperty hfirst =>
    subst hrules
    exact .named (defining_append_cons hproperty) hnamed hproperty fun o ho => hfirst o (hsub ho)
  | begun hunnamed hrules hcovers hproperty hearliest hlongest =>
    subst hrules
    exact .begun (fun o ho => hunnamed o (hsub ho)) (defining_append_cons hproperty)
      hcovers hproperty (fun o ho => hearliest o (hsub ho)) fun o ho => hlongest o (hsub ho)
  | fallback hunnamed huncovered hmem hdefault hproperty =>
    exact .fallback (fun o ho => hunnamed o (hsub ho)) (fun o ho => huncovered o (hsub ho))
      (List.mem_filter.mpr ⟨hmem, by rw [hproperty]; rfl⟩) hdefault hproperty
  | nothing hunnamed huncovered hdefault =>
    exact .nothing (fun o ho => hunnamed o (hsub ho)) (fun o ho => huncovered o (hsub ho))
      fun o ho => hdefault o (hsub ho)

/-- In a list without repetitions of a key, no element before another one has the same key. -/
theorem key_ne_of_nodup {β : Type} {key : TopicRule → Option β} {above below : List TopicRule}
    {r o : TopicRule} {b : β} (hdistinct : ((above ++ r :: below).filterMap key).Nodup)
    (hr : key r = some b) (ho : o ∈ above) : key o ≠ some b := by
  intro hkey
  rw [List.filterMap_append, List.filterMap_cons, hr] at hdistinct
  have hmem : b ∈ above.filterMap key := List.mem_filterMap.mpr ⟨o, ho, hkey⟩
  exact (List.nodup_append.mp hdistinct).2.2 b hmem b List.mem_cons_self rfl

/-- **The order does not matter** where no two rules share a name or a beginning. -/
theorem Says.of_perm {others : List TopicRule} {answer : Option α} (hperm : others.Perm rules)
    (hnames : (rules.filterMap (·.topic)).Nodup)
    (hbeginnings : (rules.filterMap (·.beginning)).Nodup)
    (h : Says rules topic property answer) : Says others topic property answer := by
  have hnames' := (hperm.filterMap (·.topic)).nodup_iff.mpr hnames
  have hbeginnings' := (hperm.filterMap (·.beginning)).nodup_iff.mpr hbeginnings
  have hsub {o : TopicRule} (ho : o ∈ others) : o ∈ rules := hperm.mem_iff.mp ho
  cases h with
  | named hrules hnamed hproperty hfirst =>
    obtain ⟨above, below, rfl⟩ := List.append_of_mem
      (hperm.mem_iff.mpr (by rw [hrules]; exact List.mem_append_cons_self))
    exact .named rfl hnamed hproperty fun o ho hsame =>
      absurd hsame (key_ne_of_nodup hnames' hnamed ho)
  | begun hunnamed hrules hcovers hproperty hearliest hlongest =>
    obtain ⟨above, below, rfl⟩ := List.append_of_mem
      (hperm.mem_iff.mpr (by rw [hrules]; exact List.mem_append_cons_self))
    exact .begun (fun o ho => hunnamed o (hsub ho)) rfl hcovers hproperty
      (fun o ho hsame => absurd hsame.1 (key_ne_of_nodup hbeginnings' hcovers.1 ho))
      fun o ho => hlongest o (hsub ho)
  | fallback hunnamed huncovered hmem hdefault hproperty =>
    exact .fallback (fun o ho => hunnamed o (hsub ho)) (fun o ho => huncovered o (hsub ho))
      (hperm.mem_iff.mpr hmem) hdefault hproperty
  | nothing hunnamed huncovered hdefault =>
    exact .nothing (fun o ho => hunnamed o (hsub ho)) (fun o ho => huncovered o (hsub ho))
      fun o ho => hdefault o (hsub ho)

end Rules

/-! ## Templates -/

namespace Template

theorem occurs_iff {pattern cs : List Char} : occurs pattern cs = true ↔ pattern <:+: cs := by
  induction cs with
  | nil => simp [occurs]
  | cons c cs ih =>
    rw [occurs, Bool.or_eq_true, List.isPrefixOf_iff_prefix, ih, List.infix_cons_iff]

/-- Only a missing team that the template asks for keeps a template from being filled in. -/
theorem render?_eq_none_iff {template topic : String} {team : Option String} :
    render? template topic team = none ↔
      teamPlaceholder.toList <:+: template.toList ∧ team = none := by
  rw [← occurs_iff, render?]
  by_cases hteam : occurs teamPlaceholder.toList template.toList = true
  · cases team <;> simp [hteam]
  · simp [hteam]

end Template

/-! ## Resolvers -/

namespace TopicResolver

variable {rules : List TopicRule} {resolver : TopicResolver} {topic : String}

/-- Rules are accepted if at most one is the default rule and each of them makes sense. -/
theorem ofRules_eq_ok_iff :
    ofRules rules = .ok resolver ↔
      resolver = .multi rules ∧ rules.countP (·.isDefault) ≤ 1 ∧ ∀ r ∈ rules, r.fault? = none := by
  rw [ofRules]
  by_cases hone : 1 < rules.countP (·.isDefault)
  · simp [hone, Nat.not_le.mpr hone]
  · rw [← List.findSome?_eq_none_iff]
    cases hfault : rules.findSome? TopicRule.fault? <;> simp [hone, not_lt.mp hone, eq_comm]

/-- What a resolver answers about a topic is what the rules say. -/
structure Follows (resolver : TopicResolver) (rules : List TopicRule) (topic : String) : Prop where
  /-- The rules say one thing about each property. -/
  decided {α : Type} (property : TopicRule → Option α) :
    ∃! answer, Rules.Says rules topic property answer
  team {answer : Option String} :
    Rules.Says rules topic (·.team) answer → resolver.team topic = answer
  keyName {answer : Option String} :
    Rules.Says rules topic (·.keyName) answer → resolver.keyName topic = answer.getD "value"
  encrypted {answer : Option Bool} :
    Rules.Says rules topic (·.encrypted) answer → resolver.isEncrypted topic = answer.getD true
  /-- A path is the one in the rules, or the template in the rules, filled in with the team. -/
  path {path : String} :
    resolver.path topic = .ok path ↔
      Rules.Says rules topic TopicRule.pathSource (some (.literal path)) ∨
      ∃ template team, Rules.Says rules topic TopicRule.pathSource (some (.template template)) ∧
        Rules.Says rules topic (·.team) team ∧ Template.render? template topic team = some path
  /-- There is no path because the rules say none, or because a template asks for a team and the
  rules say none. -/
  fault {fault : ConfigurationFault} :
    resolver.path topic = .error fault ↔
      (Rules.Says rules topic TopicRule.pathSource none ∧ fault = .topicWithoutPath topic) ∨
      ∃ template, Rules.Says rules topic TopicRule.pathSource (some (.template template)) ∧
        Rules.Says rules topic (·.team) none ∧
        Template.teamPlaceholder.toList <:+: template.toList ∧
        fault = .templateWithoutTeam template topic

theorem render_eq_ok_iff {template path : String} {team : Option String} :
    render template topic team = .ok path ↔ Template.render? template topic team = some path := by
  rw [render]
  cases Template.render? template topic team <;> simp

theorem render_eq_error_iff {template : String} {team : Option String}
    {fault : ConfigurationFault} :
    render template topic team = .error fault ↔
      Template.render? template topic team = none ∧
        fault = .templateWithoutTeam template topic := by
  rw [render]
  cases Template.render? template topic team <;> simp [eq_comm]

theorem path_eq_ok_iff {path : String} :
    (multi rules).path topic = .ok path ↔
      Rules.resolve rules topic TopicRule.pathSource = some (.literal path) ∨
      ∃ template, Rules.resolve rules topic TopicRule.pathSource = some (.template template) ∧
        Template.render? template topic (Rules.resolve rules topic (·.team)) = some path := by
  rw [TopicResolver.path, team]
  rcases Rules.resolve rules topic TopicRule.pathSource with _ | literal | template
  · simp
  · simp
  · simp [render_eq_ok_iff]

theorem path_eq_error_iff {fault : ConfigurationFault} :
    (multi rules).path topic = .error fault ↔
      (Rules.resolve rules topic TopicRule.pathSource = none ∧ fault = .topicWithoutPath topic) ∨
      ∃ template, Rules.resolve rules topic TopicRule.pathSource = some (.template template) ∧
        Template.render? template topic (Rules.resolve rules topic (·.team)) = none ∧
        fault = .templateWithoutTeam template topic := by
  rw [TopicResolver.path, team]
  rcases Rules.resolve rules topic TopicRule.pathSource with _ | literal | template
  · simp [eq_comm]
  · simp
  · simp [render_eq_error_iff]

theorem follows_multi (hone : rules.countP (·.isDefault) ≤ 1) :
    Follows (multi rules) rules topic where
  decided property :=
    ⟨_, Rules.says_resolve rules topic property, fun _ h => (h.resolve_eq hone).symm⟩
  team h := h.resolve_eq hone
  keyName h := by rw [TopicResolver.keyName, h.resolve_eq hone, defaultKeyName]
  encrypted h := by rw [isEncrypted, h.resolve_eq hone]
  path := by
    intro path
    rw [path_eq_ok_iff]
    simp only [Rules.says_iff hone, exists_and_left, exists_eq_left']
  fault := by
    intro fault
    rw [path_eq_error_iff]
    simp only [Rules.says_iff hone, Template.render?_eq_none_iff, and_assoc, and_left_comm]

/-- **A resolver answers what its rules say**, property by property.  Rules that do not define a
property might as well be missing, and where no two rules share a name or a beginning, they might
stand in any order. -/
theorem follows_of_ofRules (h : ofRules rules = .ok resolver) :
    (∀ topic, Follows resolver rules topic) ∧
    (∀ (topic : String) (α : Type) (property : TopicRule → Option α),
      Rules.resolve (Rules.defining rules property) topic property =
        Rules.resolve rules topic property) ∧
    ∀ others : List TopicRule, others.Perm rules → (rules.filterMap (·.topic)).Nodup →
      (rules.filterMap (·.beginning)).Nodup → ∃ reordered, ofRules others = .ok reordered ∧
        ∀ topic, reordered.path topic = resolver.path topic ∧
          reordered.keyName topic = resolver.keyName topic ∧
          reordered.isEncrypted topic = resolver.isEncrypted topic ∧
          reordered.team topic = resolver.team topic := by
  obtain ⟨rfl, hone, hsound⟩ := ofRules_eq_ok_iff.mp h
  refine ⟨fun topic => follows_multi hone, fun topic α property => ?_,
    fun others hperm hnames hbeginnings => ?_⟩
  · exact (Rules.says_resolve rules topic property).defining.resolve_eq
      (le_trans (List.filter_sublist.countP_le) hone)
  · have hone' : others.countP (·.isDefault) ≤ 1 := (hperm.countP_eq _).trans_le hone
    have hsame (topic : String) {α : Type} (property : TopicRule → Option α) :
        Rules.resolve others topic property = Rules.resolve rules topic property :=
      ((Rules.says_resolve rules topic property).of_perm hperm hnames hbeginnings).resolve_eq hone'
    refine ⟨.multi others,
      ofRules_eq_ok_iff.mpr ⟨rfl, hone', fun r hr => hsound r (hperm.mem_iff.mp hr)⟩,
      fun topic => ?_⟩
    simp only [TopicResolver.path, TopicResolver.keyName, isEncrypted, team, hsame, and_self]

/-- Rules in which the default rule has the template, the team comes from the longer of two
beginnings, and the rule for a topic itself only says that it is not encrypted. -/
def billingRules : List TopicRule :=
  [{ TopicRule.fallback with template := some "kv/%TEAMNAME%/%TOPICNAME%", keyName := some "k1" },
    { TopicRule.forBeginning "billing" with team := some "finance" },
    { TopicRule.forBeginning "billing.eu" with team := some "finance-eu" },
    { TopicRule.forTopic "billing.eu.audit" with encrypted := some false }]

/-- Each property of the topic comes from a rule of its own, in either order of the rules, and a
topic without a team has no path. -/
theorem follows_billingRules :
    ofRules billingRules = .ok (.multi billingRules) ∧
    (multi billingRules).path "billing.eu.audit" = .ok "kv/finance-eu/billing.eu.audit" ∧
    (multi billingRules).keyName "billing.eu.audit" = "k1" ∧
    (multi billingRules).isEncrypted "billing.eu.audit" = false ∧
    (multi billingRules).path "logs" =
      .error (.templateWithoutTeam "kv/%TEAMNAME%/%TOPICNAME%" "logs") ∧
    ∃ reordered, ofRules billingRules.reverse = .ok reordered ∧
      reordered.path "billing.eu.audit" = .ok "kv/finance-eu/billing.eu.audit" := by
  have hrules : ofRules billingRules = .ok (.multi billingRules) := by decide
  obtain ⟨hfollows, -, horder⟩ := follows_of_ofRules hrules
  have hanswer {α : Type} {topic : String} {property : TopicRule → Option α} {answer : Option α}
      (h : Rules.resolve billingRules topic property = answer) :
      Rules.Says billingRules topic property answer :=
        h ▸ Rules.says_resolve billingRules topic property
  have hpath : (multi billingRules).path "billing.eu.audit" =
      .ok "kv/finance-eu/billing.eu.audit" :=
    (hfollows _).path.mpr
      (.inr ⟨"kv/%TEAMNAME%/%TOPICNAME%", some "finance-eu", hanswer (by decide),
      hanswer (by decide), by decide⟩)
  obtain ⟨reordered, hreordered, hsame⟩ := horder _ billingRules.reverse_perm
    (by decide) (by decide)
  exact ⟨hrules, hpath, (hfollows _).keyName (hanswer (by decide : _ = some "k1")),
    (hfollows _).encrypted (hanswer (by decide : _ = some false)),
    (hfollows _).fault.mpr (.inr ⟨_, hanswer (by decide), hanswer (by decide),
      Template.occurs_iff.mp (by decide), rfl⟩),
    reordered, hreordered, (hsame _).1.trans hpath⟩

end TopicResolver

end TopicCipher
