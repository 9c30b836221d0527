import Mathlib.Data.List.Basic
import TopicCipher.Proofs.Shared.Caches
import TopicCipher.Proofs.Store.Lookups

/-!
# Connections that are opened on demand

Keys from the secret store need a connection, and no lookup opens one before it has to.  Here
connecting and reading are questions to the outside, and a connection is a name by which reads are
told apart; so a statement about all histories is a statement about all stores, whenever they refuse
to be connected to and whatever they give.

What a lookup asks depends on the rules and on the connection that is held, if one is
(`Conversation`).  The history of a run is then simple: attempts to connect that failed, and, once
one succeeded, reads over this one connection (`Opened`).

* `conversation_of_gives`: what is said in a lookup, word for word.
* `opened_of_run`: what was said in a run.
* `connects_on_demand`: what that means for the store.
-/

namespace TopicCipher.OnDemand

variable {C : Type}

/-! ## The outside -/

/-- What is asked of a store whose connections are values of type `C`. -/
inductive Question (C : Type) where
  | connect
  | read (connection : C) (path : String) (version : Option Version)

/-- How it may answer. -/
abbrev Answer : Question C → Type
  | .connect => Except KeyError C
  | .read _ _ _ => Except KeyError Secret

/-- All that was asked so far, with the answers. -/
abbrev History (C : Type) := List (Exchange (Question C) Answer)

/-- Computations that ask the store. -/
abbrev Outside (C : Type) := Dialogue (Question C) Answer

/-- The connection that is held, if one is open, and the history. -/
abbrev Place (C : Type) := Option C × History C

/-- A store that leaves everything to the outside. -/
def store : SecretStore (Outside C) C where
  connect := .question Question.connect
  read path version := do
    let connection ← get
    ask (Question.read connection path version)

/-- The keys that lie in this store by the rules. -/
def keys (rules : TopicResolver) : StoreKeys (Outside C) C := ⟨rules, store⟩

/-- Looks a key up and leaves the answer alone. -/
def perform (rules : TopicResolver) : Lookup → StateT (Option C) (Outside C) Unit
  | .encryption topic => do
    let _ ← (keys rules).encryptionKey topic
  | .decryption topic version keyName => do
    let _ ← (keys rules).decryptionKey topic version keyName

/-- A read asks once, over the connection that it is given, and leaves it as it is. -/
theorem read_of_gives {path : String} {version : Option Version} {c c' : C}
    {history later : History C} {answer : Except KeyError Secret}
    (h : Gives ((store : SecretStore (Outside C) C).read path version) (c, history) answer
      (c', later)) :
    c' = c ∧ later = history ++ [⟨.read c path version, answer⟩] := by
  obtain ⟨_, _, hget, hread⟩ := gives_bind.mp h
  obtain ⟨rfl, rfl⟩ := gives_get.mp hget
  exact Prod.mk.inj (gives_ask.mp hread)

/-! ## Conversations -/

/-- The version that a lookup reads; none for the newest one. -/
def version? : Lookup → Option Version
  | .encryption _ => none
  | .decryption _ version _ => some version

/-- The rules let a lookup read at a path. -/
structure Resolves (rules : TopicResolver) (lookup : Lookup) (path : String) : Prop where
  permitted : lookup.isEncryption = true → rules.isEncrypted lookup.topic = true
  path_eq : rules.path lookup.topic = .ok path

/-- What can be said in a lookup when this connection is held, and which one is held then. -/
inductive Conversation (rules : TopicResolver) (lookup : Lookup) :
    Option C → History C → Option C → Prop where
  | settled {held : Option C} (hrules : ∀ path, ¬ Resolves rules lookup path) :
      Conversation rules lookup held [] held
  | refused {path : String} {e : KeyError} (hrules : Resolves rules lookup path) :
      Conversation rules lookup none [⟨.connect, .error e⟩] none
  | opened {path : String} {c : C} {answer : Except KeyError Secret}
      (hrules : Resolves rules lookup path) :
      Conversation rules lookup none
        [⟨.connect, .ok c⟩, ⟨.read c path (version? lookup), answer⟩] (some c)
  | reused {path : String} {c : C} {answer : Except KeyError Secret}
      (hrules : Resolves rules lookup path) :
      Conversation rules lookup (some c) [⟨.read c path (version? lookup), answer⟩] (some c)

variable {rules : TopicResolver} {lookup : Lookup} {s t : Place C}

/-- A read over the connection that is held, or over a new one. -/
theorem conversation_of_read {path : String} {r : Except KeyError Secret}
    (hrules : Resolves rules lookup path)
    (h : Gives ((keys rules).read path (version? lookup)) s r t) :
    ∃ said, t.2 = s.2 ++ said ∧ Conversation rules lookup s.1 said t.1 := by
  cases StoreKeys.reading_of_gives h with
  | refused hconnect => exact ⟨_, Dialogue.gives_question.mp hconnect, .refused hrules⟩
  | @opened p q _ c _ answer hconnect hread =>
    obtain ⟨rfl, hlater⟩ := read_of_gives hread
    rw [Dialogue.gives_question.mp hconnect, List.append_assoc] at hlater
    exact ⟨_, hlater, .opened hrules⟩
  | reused hread =>
    obtain ⟨rfl, hlater⟩ := read_of_gives hread
    exact ⟨_, hlater, .reused hrules⟩

/-- **Every lookup is one of the four conversations.** -/
theorem conversation_of_gives (h : Gives (perform rules lookup) s () t) :
    ∃ said, t.2 = s.2 ++ said ∧ Conversation rules lookup s.1 said t.1 := by
  have hsettled (hrules : ∀ path, ¬ Resolves rules lookup path) :
      ∃ said, s.2 = s.2 ++ said ∧ Conversation rules lookup s.1 said s.1 :=
    ⟨[], (List.append_nil _).symm, .settled hrules⟩
  cases lookup with
  | encryption topic =>
    obtain ⟨r, hlookup⟩ := gives_bind_unit.mp h
    cases StoreKeys.encryptionLookup_of_gives hlookup with
    | unkeyed hrules =>
      refine hsettled fun path hresolves => ?_
      have hencrypted : rules.isEncrypted topic = true := hresolves.permitted rfl
      exact absurd (hencrypted.symm.trans hrules) (by decide)
    | pathless _ hpath =>
      exact hsettled fun path hresolves => absurd (hpath.symm.trans hresolves.path_eq) (by simp)
    | refused hrules hpath hread => exact conversation_of_read ⟨fun _ => hrules, hpath⟩ hread
    | unusable hrules hpath hread => exact conversation_of_read ⟨fun _ => hrules, hpath⟩ hread
    | fetched hrules hpath hread => exact conversation_of_read ⟨fun _ => hrules, hpath⟩ hread
  | decryption topic version keyName =>
    obtain ⟨r, hlookup⟩ := gives_bind_unit.mp h
    have hpermitted : (Lookup.decryption topic version keyName).isEncryption = true →
        rules.isEncrypted topic = true := fun habsurd => absurd habsurd Bool.false_ne_true
    cases StoreKeys.decryptionLookup_of_gives hlookup with
    | pathless hpath =>
      exact hsettled fun path hresolves => absurd (hpath.symm.trans hresolves.path_eq) (by simp)
    | refused hpath hread => exact conversation_of_read ⟨hpermitted, hpath⟩ hread
    | unusable hpath hread => exact conversation_of_read ⟨hpermitted, hpath⟩ hread
    | fetched hpath hread => exact conversation_of_read ⟨hpermitted, hpath⟩ hread

/-! ## Runs -/

/-- An attempt to connect that failed. -/
def IsRefusal (exchange : Exchange (Question C) Answer) : Prop :=
  ∃ e, exchange = ⟨.connect, .error e⟩

/-- A read over a connection. -/
def IsReadOver (c : C) (exchange : Exchange (Question C) Answer) : Prop :=
  ∃ path version answer, exchange = ⟨.read c path version, answer⟩

/-- What was said when this connection is held: attempts that failed, and once one succeeded, reads
over the connection that it gave. -/
inductive Opened : Option C → History C → Prop where
  | closed {history : History C} (hrefused : ∀ exchange ∈ history, IsRefusal exchange) :
      Opened none history
  | connected {c : C} {failed reads : History C}
      (hrefused : ∀ exchange ∈ failed, IsRefusal exchange)
      (hreads : ∀ exchange ∈ reads, IsReadOver c exchange) :
      Opened (some c) (failed ++ ⟨.connect, .ok c⟩ :: reads)

variable {held left : Option C} {history said : History C} {steps : List (Step Lookup (Place C))}

/-- **A lookup goes on in the same way.** -/
theorem Opened.after (h : Opened held history) (hsaid : Conversation rules lookup held said left) :
    Opened left (history ++ said) := by
  cases hsaid with
  | settled =>
    rw [List.append_nil]
    exact h
  | refused =>
    cases h with
    | closed hrefused =>
      exact .closed (List.forall_mem_append.mpr ⟨hrefused, List.forall_mem_singleton.mpr ⟨_, rfl⟩⟩)
  | opened =>
    cases h with
    | closed hrefused =>
      exact .connected hrefused (List.forall_mem_singleton.mpr ⟨_, _, _, rfl⟩)
  | reused =>
    cases h with
    | connected hrefused hreads =>
      rw [List.append_assoc, List.cons_append]
      exact .connected hrefused
        (List.forall_mem_append.mpr ⟨hreads, List.forall_mem_singleton.mpr ⟨_, _, _, rfl⟩⟩)

/-- **After any run**, attempts that failed were said, and then reads over one connection. -/
theorem opened_of_run (h : Run (perform rules) (none, []) steps s) : Opened s.1 s.2 := by
  induction h with
  | start => exact .closed (List.forall_mem_nil _)
  | call lookup _ hcall ih =>
    obtain ⟨said, hsaid, hconversation⟩ := conversation_of_gives hcall
    rw [hsaid]
    exact ih.after hconversation

/-! ## What is asked of the store -/

/-- Holds of attempts to connect. -/
def isAttempt : Exchange (Question C) Answer → Bool
  | ⟨.connect, _⟩ => true
  | _ => false

/-- Holds of attempts to connect that succeeded. -/
def opens : Exchange (Question C) Answer → Bool
  | ⟨.connect, .ok _⟩ => true
  | _ => false

/-- Holds of reads. -/
def isRead : Exchange (Question C) Answer → Bool
  | ⟨.read _ _ _, _⟩ => true
  | _ => false

/-- What is asked of the store in a run that ends with this connection. -/
structure ConnectsOnce (held : Option C) (history : History C) : Prop where
  /-- A connection is held exactly if it was opened. -/
  held_iff {c : C} : held = some c ↔ ⟨.connect, .ok c⟩ ∈ history
  /-- At most one attempt to connect succeeds. -/
  once : history.countP opens ≤ 1
  /-- It is the last one. -/
  last {before after : History C} {c : C} : history = before ++ ⟨.connect, .ok c⟩ :: after →
    ∀ exchange ∈ after, isAttempt exchange = false
  /-- Every read goes over a connection that was opened before it. -/
  reads {before after : History C} {c : C} {path : String} {version : Option Version}
    {answer : Except KeyError Secret} :
    history = before ++ ⟨.read c path version, answer⟩ :: after → ⟨.connect, .ok c⟩ ∈ before

/-- What is said in a lookup that begins and ends with these connections. -/
structure AsksOnDemand (rules : TopicResolver) (lookup : Lookup) (held : Option C)
    (said : History C) (left : Option C) : Prop where
  /-- The key to encrypt under is not asked for if the topic is not encrypted. -/
  unencrypted : lookup.isEncryption = true → rules.isEncrypted lookup.topic = false → said = []
  /-- No key is asked for if there is no path. -/
  pathless {fault : ConfigurationFault} : rules.path lookup.topic = .error fault → said = []
  /-- Without a connection, there is one attempt to connect if there is something to read. -/
  connects {path : String} : Resolves rules lookup path → held = none → said.countP isAttempt = 1
  /-- With a connection, there is none. -/
  keeps {c : C} : held = some c → said.countP isAttempt = 0
  /-- An attempt that fails is all that is said, and it leaves nothing behind. -/
  refused {e : KeyError} : ⟨.connect, .error e⟩ ∈ said →
    said = [⟨.connect, .error e⟩] ∧ left = none
  /-- There is at most one read. -/
  once : said.countP isRead ≤ 1
  /-- It goes over the connection that is held then, to the path of the topic and to the version
  that is looked up. -/
  reads {c : C} {path : String} {version : Option Version} {answer : Except KeyError Secret} :
    ⟨.read c path version, answer⟩ ∈ said →
      left = some c ∧ Resolves rules lookup path ∧ version = version? lookup
  /-- Only an attempt that fails keeps it from being sent. -/
  sends {path : String} : Resolves rules lookup path → (∃ e, ⟨.connect, .error e⟩ ∈ said) ∨
    ∃ c answer, ⟨.read c path (version? lookup), answer⟩ ∈ said

theorem IsRefusal.opens_eq {exchange : Exchange (Question C) Answer} (h : IsRefusal exchange) :
    opens exchange = false := by
  obtain ⟨e, rfl⟩ := h
  rfl

theorem IsRefusal.isRead_eq {exchange : Exchange (Question C) Answer} (h : IsRefusal exchange) :
    isRead exchange = false := by
  obtain ⟨e, rfl⟩ := h
  rfl

theorem IsReadOver.isAttempt_eq {c : C} {exchange : Exchange (Question C) Answer}
    (h : IsReadOver c exchange) : isAttempt exchange = false := by
  obtain ⟨path, version, answer, rfl⟩ := h
  rfl

theorem opens_eq_of_isAttempt {exchange : Exchange (Question C) Answer}
    (h : isAttempt exchange = false) : opens exchange = false := by
  obtain ⟨question, answer⟩ := exchange
  cases question with
  | connect => exact absurd h (by simp [isAttempt])
  | read => rfl

/-- Attempts that failed give no connection and do not need one. -/
theorem connectsOnce_of_forall_isRefusal (hrefused : ∀ exchange ∈ history, IsRefusal exchange) :
    ConnectsOnce none history := by
  have hclosed {c : C} : ⟨.connect, .ok c⟩ ∉ history := fun hmem =>
    absurd (hrefused _ hmem).opens_eq (by simp [opens])
  exact {
    held_iff := ⟨fun habsurd => absurd habsurd.symm (Option.some_ne_none _),
      fun hmem => absurd hmem hclosed⟩
    once := by
      rw [List.countP_eq_zero.mpr fun exchange hmem => by simp [(hrefused exchange hmem).opens_eq]]
      exact Nat.zero_le 1
    last := fun hsplit => absurd (hsplit ▸ List.mem_append_right _ List.mem_cons_self) hclosed
    reads := fun hsplit => by
      have hmem := hrefused _ (hsplit ▸ List.mem_append_right _ List.mem_cons_self)
      exact absurd hmem.isRead_eq (by simp [isRead]) }

/-- **The one that succeeded is the last one**, and what is read is read over its connection. -/
theorem connectsOnce_of_connected {c : C} {failed reads : History C}
    (hrefused : ∀ exchange ∈ failed, IsRefusal exchange)
    (hreads : ∀ exchange ∈ reads, IsReadOver c exchange) :
    ConnectsOnce (some c) (failed ++ ⟨.connect, .ok c⟩ :: reads) := by
  have hfailed {c' : C} : ⟨.connect, .ok c'⟩ ∉ failed := fun hmem =>
    absurd (hrefused _ hmem).opens_eq (by simp [opens])
  have hread {c' : C} : ⟨.connect, .ok c'⟩ ∉ reads := fun hmem =>
    absurd (hreads _ hmem).isAttempt_eq (by simp [isAttempt])
  exact {
    held_iff := by
      intro c'
      rw [List.mem_append, List.mem_cons, Option.some.injEq]
      constructor
      · rintro rfl
        exact .inr (.inl rfl)
      · rintro (hmem | hsame | hmem)
        · exact absurd hmem hfailed
        · cases hsame
          rfl
        · exact absurd hmem hread
    once := by
      have hbefore : failed.countP opens = 0 :=
        List.countP_eq_zero.mpr fun exchange hmem => by simp [(hrefused exchange hmem).opens_eq]
      have hafter : reads.countP opens = 0 := List.countP_eq_zero.mpr fun exchange hmem => by
        simp [opens_eq_of_isAttempt (hreads exchange hmem).isAttempt_eq]
      rw [List.countP_append, List.countP_cons, hbefore, hafter]
      exact Nat.le_refl 1
    last := by
      intro before after c' hsplit exchange hmem
      obtain ⟨-, -, rfl⟩ := (List.append_cons_inj_of_notMem hfailed hread).mp hsplit
      exact (hreads exchange hmem).isAttempt_eq
    reads := by
      intro before after c' path version answer hsplit
      -- a read is neither one of the attempts that failed nor the one that succeeded
      rcases List.append_eq_append_iff.mp hsplit with ⟨rest, rfl, htail⟩ | ⟨rest, rfl, htail⟩
      · obtain ⟨-, habsurd⟩ | ⟨opened, rfl, rfl⟩ := List.cons_eq_append_iff.mp htail
        · cases habsurd
        · obtain ⟨_, _, _, hsame⟩ := hreads _ (List.mem_append_right opened List.mem_cons_self)
          cases hsame
          exact List.mem_append_right failed List.mem_cons_self
      · obtain ⟨-, habsurd⟩ | ⟨_, rfl, -⟩ := List.cons_eq_append_iff.mp htail
        · cases habsurd
        · have hmem := hrefused _ (List.mem_append_right before List.mem_cons_self)
          exact absurd hmem.isRead_eq (by simp [isRead]) }

theorem Opened.connectsOnce (h : Opened held history) : ConnectsOnce held history := by
  cases h with
  | closed hrefused => exact connectsOnce_of_forall_isRefusal hrefused
  | connected hrefused hreads => exact connectsOnce_of_connected hrefused hreads

/-- Where there is something to read, the rules did not end the lookup. -/
theorem Resolves.encrypted {path : String} (h : Resolves rules lookup path)
    (hencryption : lookup.isEncryption = true) : rules.isEncrypted lookup.topic ≠ false := by
  rw [h.permitted hencryption]
  decide

theorem Resolves.path_ne {path : String} (h : Resolves rules lookup path)
    (fault : ConfigurationFault) :
    rules.path lookup.topic ≠ .error fault := by
  rw [h.path_eq]
  exact nofun

theorem Resolves.unique {path path' : String} (h : Resolves rules lookup path)
    (h' : Resolves rules lookup path') : path' = path :=
  Except.ok.inj (h'.path_eq.symm.trans h.path_eq)

theorem Conversation.asksOnDemand (h : Conversation rules lookup held said left) :
    AsksOnDemand rules lookup held said left := by
  cases h with
  | settled hrules =>
    exact {
      unencrypted := fun _ _ => rfl
      pathless := fun _ => rfl
      connects := fun hresolves => absurd hresolves (hrules _)
      keeps := fun _ => rfl
      refused := fun hmem => absurd hmem List.not_mem_nil
      once := Nat.zero_le 1
      reads := fun hmem => absurd hmem List.not_mem_nil
      sends := fun hresolves => absurd hresolves (hrules _) }
  | refused hrules =>
    exact {
      unencrypted := fun hencryption hplain => absurd hplain (hrules.encrypted hencryption)
      pathless := fun hfault => absurd hfault (hrules.path_ne _)
      connects := fun _ _ => rfl
      keeps := fun habsurd => absurd habsurd.symm (Option.some_ne_none _)
      refused := fun hmem => ⟨congrArg ([·]) (List.mem_singleton.mp hmem).symm, rfl⟩
      once := Nat.zero_le 1
      reads := fun hmem => by cases List.mem_singleton.mp hmem
      sends := fun _ => .inl ⟨_, List.mem_cons_self⟩ }
  | opened hrules =>
    exact {
      unencrypted := fun hencryption hplain => absurd hplain (hrules.encrypted hencryption)
      pathless := fun hfault => absurd hfault (hrules.path_ne _)
      connects := fun _ _ => rfl
      keeps := fun habsurd => absurd habsurd.symm (Option.some_ne_none _)
      refused := fun hmem => by simp at hmem
      once := Nat.le_refl 1
      reads := fun hmem => by
        rcases List.mem_cons.mp hmem with habsurd | hmem
        · cases habsurd
        · cases List.mem_singleton.mp hmem
          exact ⟨rfl, hrules, rfl⟩
      sends := fun hresolves => by
        rw [hrules.unique hresolves]
        exact .inr ⟨_, _, .tail _ List.mem_cons_self⟩ }
  | reused hrules =>
    exact {
      unencrypted := fun hencryption hplain => absurd hplain (hrules.encrypted hencryption)
      pathless := fun hfault => absurd hfault (hrules.path_ne _)
      connects := fun _ habsurd => absurd habsurd (Option.some_ne_none _)
      keeps := fun _ => rfl
      refused := fun hmem => by cases List.mem_singleton.mp hmem
      once := Nat.le_refl 1
      reads := fun hmem => by
        cases List.mem_singleton.mp hmem
        exact ⟨rfl, hrules, rfl⟩
      sends := fun hresolves => by
        rw [hrules.unique hresolves]
        exact .inr ⟨_, _, List.mem_cons_self⟩ }

/-- **Connections are opened on demand and kept.**  After any run, whatever the store answers, at
most one attempt to connect has succeeded, none came after it, and every read went over its
connection.  A lookup tries to connect exactly if no connection is held and the rules let it read,
and then once; an attempt that fails is forgotten, so the next such lookup tries again.  There is at
most one read in a lookup, at the path and the version that are looked up, and nothing is asked
where the rules end the lookup. -/
theorem connects_on_demand (hrun : Run (perform rules) (none, []) steps s)
    (h : Gives (perform rules lookup) s () t) :
    ConnectsOnce s.1 s.2 ∧ ConnectsOnce t.1 t.2 ∧
      ∃ said, t.2 = s.2 ++ said ∧ AsksOnDemand rules lookup s.1 said t.1 ∧
        ∀ {e : KeyError} {next : Lookup} {path : String} {u : Place C},
          ⟨.connect, .error e⟩ ∈ said → Resolves rules next path →
          Gives (perform rules next) t () u →
            ∃ rest, u.2 = t.2 ++ rest ∧ rest.countP isAttempt = 1 := by
  obtain ⟨said, hsaid, hconversation⟩ := conversation_of_gives h
  have hbefore := opened_of_run hrun
  have hafter := hbefore.after hconversation
  rw [← hsaid] at hafter
  refine ⟨hbefore.connectsOnce, hafter.connectsOnce, said, hsaid, hconversation.asksOnDemand, ?_⟩
  intro e next path u hrefused hresolves hnext
  obtain ⟨rest, hrest, hretry⟩ := conversation_of_gives hnext
  obtain ⟨-, hnone⟩ := hconversation.asksOnDemand.refused hrefused
  exact ⟨rest, hrest, hretry.asksOnDemand.connects hresolves hnone⟩

/-! ## A store that is reached at the second attempt -/

/-- Every topic has a key, and audits are not encrypted. -/
def auditRules : TopicResolver :=
  .multi [{ TopicRule.fallback with template := some "kv/%TOPICNAME%" },
    { TopicRule.forTopic "audit" with encrypted := some false }]

/-- Its first attempt to connect is refused. -/
def connectsTwice (history : History Nat) : (q : Question Nat) → Answer q
  | .connect => if history.any isAttempt then .ok 7 else .error (.store "refused")
  | .read _ _ _ => .ok ⟨[("value", "a2V5")], some ⟨4, .ofUnixNanos 0⟩⟩

/-- Carries lookups out with these answers. -/
def atSecondAttempt : Execution (StateT (Option Nat) (Outside Nat)) :=
  (Dialogue.responsive connectsTwice).layer

/-- A key to encrypt audits under is looked up. -/
def audited : List (Step Lookup (Place Nat)) × Place Nat :=
  atSecondAttempt.follow (perform auditRules) (none, []) [.encryption "audit"]

/-- Then one to encrypt orders under. -/
def refusedOnce : Place Nat :=
  (atSecondAttempt.run (perform auditRules (.encryption "orders")) audited.2).2

/-- Then an old one. -/
def reached : Place Nat :=
  (atSecondAttempt.run (perform auditRules (.decryption "orders" 4 none)) refusedOnce).2

/-- The first lookup asks nothing, the second one is refused a connection, and the third one tries
again. -/
theorem connects_on_demand_reached :
    Run (perform auditRules) (none, []) audited.1 audited.2 ∧
      Gives (perform auditRules (.encryption "orders")) audited.2 () refusedOnce ∧
      refusedOnce = (none, [⟨.connect, .error (.store "refused")⟩]) ∧ reached.1 = some 7 ∧
      ∃ rest, reached.2 = refusedOnce.2 ++ rest ∧ rest.countP isAttempt = 1 := by
  have hrun : Run (perform auditRules) (none, []) audited.1 audited.2 :=
    atSecondAttempt.run_follow (perform auditRules) (none, []) [.encryption "audit"]
  have hrefused : Gives (perform auditRules (.encryption "orders")) audited.2 () refusedOnce :=
    atSecondAttempt.gives_run (perform auditRules (.encryption "orders")) audited.2
  have hreached : Gives (perform auditRules (.decryption "orders" 4 none)) refusedOnce () reached :=
    atSecondAttempt.gives_run (perform auditRules (.decryption "orders" 4 none)) refusedOnce
  have hplace : refusedOnce = (none, [⟨.connect, .error (.store "refused")⟩]) := rfl
  have hresolves : Resolves auditRules (.decryption "orders" 4 none) "kv/orders" :=
    ⟨fun habsurd => absurd habsurd Bool.false_ne_true, by decide⟩
  obtain ⟨-, -, said, hsaid, -, hagain⟩ := connects_on_demand hrun hrefused
  have hmem : ⟨.connect, .error (.store "refused")⟩ ∈ said := by
    have hall : [⟨.connect, .error (.store "refused")⟩] = said := hsaid
    rw [← hall]
    exact List.mem_cons_self
  exact ⟨hrun, hrefused, hplace, rfl, hagain hmem hresolves hreached⟩

end TopicCipher.OnDemand
