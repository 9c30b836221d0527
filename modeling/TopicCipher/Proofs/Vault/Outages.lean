import TopicCipher.KeyCache.Source
import TopicCipher.Proofs.Answers
import TopicCipher.Proofs.KeyCache.Best
import TopicCipher.Proofs.KeyCache.FaultyStorage
import TopicCipher.Proofs.KeyCache.Lookups
import TopicCipher.Proofs.Vault.Exchanges
import TopicCipher.StoreKeys

/-!
# Only outages are bridged

A key cache over the keys of a store that is reached over HTTP.  When the stored keys of a topic
have expired, the store is asked, and an old key is used only if there was an outage.  Wrong
settings and senseless answers have to come through all layers as what they are: an old key would
hide them.

`Setup.Decides` says what settings and exchanges decide about a lookup in the store, with no regard
to the program that makes it: the settings are rejected and nothing is sent, or exactly one exchange
decides and every request is one that the settings stand for.  There is one such result, and the
cache answers as it says.

* `Setup.ends_of_read`, `Setup.ends_of_encryptionKey`: what the store and the keys in it answer.
* `outcome_of_gives`: what the cache answers.
-/

namespace TopicCipher

namespace Vault

open KeyCache (entriesOf loaded)

/-- All that is configured. -/
structure Setup where
  resolver : TopicResolver
  options : HttpOptions
  settings : AuthSettings
  caching : CachingOptions

/-- The storage of the cache. -/
def storage : FaultyStorage (Option String) (Dialogue Question Answer) where
  failure := .question Question.readText
  attempt text := .question (Question.writeText text)
  kept text := text
  keep text _ := some text

/-- The clock and the jitter of the cache. -/
def timing : Timing Outside where
  now := ask Question.time
  jitter bound := ask (Question.jitter bound)

namespace Setup

/-- The store. -/
def store (x : Setup) : SecretStore Outside Lease :=
  httpStore transport (ask Question.leaseTime) (ask Question.client) x.options x.settings

/-- The keys in the store. -/
def keys (x : Setup) : StoreKeys Outside Lease := ⟨x.resolver, x.store⟩

/-- The cache in front of the keys. -/
def cache (x : Setup) : CachedKeys (StateT (Option Lease) Outside) where
  inner := x.keys.source
  storage := storage.storage.lift
  timing := timing.lift
  options := x.caching

/-- The lookup of the key of a topic with the given credentials. -/
def lookup (x : Setup) (auth : Auth) (topic path : String) : StoreLookup :=
  ⟨x.options, auth, path, x.resolver.keyName topic⟩

/-- What settings and exchanges decide about a lookup: the settings are rejected, and nothing is
said, or the exchanges decide. -/
inductive Decides (x : Setup) (topic path : String) (held : Option Lease) (said : History) :
    Except LookupFailure KeyVersion → Prop where
  | credentials {fault : ConfigurationFault} (h : x.settings.Lacks fault)
      (hasked : StoreLookup.Aside said) : Decides x topic path held said (.error (.rejected fault))
  | address {auth : Auth} (hauth : x.settings.Names auth)
      (h : Text.isBlankText x.options.address = true) (hasked : StoreLookup.Aside said) :
      Decides x topic path held said (.error (.rejected .noAddress))
  | ended {auth : Auth} {result : Except LookupFailure KeyVersion} (hauth : x.settings.Names auth)
      (haddress : Text.isBlankText x.options.address = false)
      (h : (x.lookup auth topic path).Ends held said result) :
      Decides x topic path held said result

variable {x : Setup} {topic path : String} {held : Option Lease} {said first rest : History}
  {result : Except LookupFailure KeyVersion}

/-- **There is one result at most.** -/
theorem Decides.unique {other : Except LookupFailure KeyVersion}
    (h : x.Decides topic path held said result) (hother : x.Decides topic path held said other) :
    other = result := by
  have hnamed {auth : Auth} {fault : ConfigurationFault} (hauth : x.settings.Names auth)
      (hfault : x.settings.Lacks fault) : False := by
    have hok := AuthSettings.resolve_eq_ok_iff.mpr hauth
    exact absurd (hok.symm.trans (AuthSettings.resolve_eq_error_iff.mpr hfault)) (by simp)
  cases h with
  | credentials h _ =>
    cases hother with
    | credentials h' _ =>
      have herror := AuthSettings.resolve_eq_error_iff.mpr h
      rw [Except.error.inj ((AuthSettings.resolve_eq_error_iff.mpr h').symm.trans herror)]
    | address hauth _ _ => exact (hnamed hauth h).elim
    | ended hauth _ _ => exact (hnamed hauth h).elim
  | address hauth h _ =>
    cases hother with
    | credentials h' _ => exact (hnamed hauth h').elim
    | address _ _ _ => rfl
    | ended _ haddress _ => exact absurd (haddress.symm.trans h) (by simp)
  | ended hauth haddress h =>
    cases hother with
    | credentials h' _ => exact (hnamed hauth h').elim
    | address _ h' _ => exact absurd (haddress.symm.trans h') (by simp)
    | ended hauth' _ h' =>
      have hok := AuthSettings.resolve_eq_ok_iff.mpr hauth
      obtain rfl := Except.ok.inj ((AuthSettings.resolve_eq_ok_iff.mpr hauth').symm.trans hok)
      exact h.decided.unique h'.decided

/-- After a connection that decides nothing, the others decide. -/
theorem Decides.after {auth : Auth} {lease : Lease}
    (h : x.Decides topic path (some lease) rest result)
    (hauth : x.settings.Names auth) (haddress : Text.isBlankText x.options.address = false)
    (hfirst : (x.lookup auth topic path).Passes held first lease.token) :
    x.Decides topic path held (first ++ rest) result := by
  have hok := AuthSettings.resolve_eq_ok_iff.mpr hauth
  cases h with
  | credentials h _ =>
    exact absurd (hok.symm.trans (AuthSettings.resolve_eq_error_iff.mpr h)) (by simp)
  | address _ h _ => exact absurd (haddress.symm.trans h) (by simp)
  | ended hauth' _ h =>
    obtain rfl := Except.ok.inj ((AuthSettings.resolve_eq_ok_iff.mpr hauth').symm.trans hok)
    refine .ended hauth haddress (h.after hfirst.undecided hfirst.asks fun token hbefore => ?_)
    cases hbefore with
    | held hheld => exact Option.some.inj hheld ▸ hfirst.usable
    | fixed hheld _ => exact absurd hheld (Option.some_ne_none lease)
    | granted hmem _ _ _ => exact absurd hmem List.not_mem_nil

/-- What is not asked of the store may follow. -/
theorem Decides.before (h : x.Decides topic path held first result)
    (hrest : StoreLookup.Aside rest) : x.Decides topic path held (first ++ rest) result := by
  cases h with
  | credentials h hasked => exact .credentials h (hasked.append hrest)
  | address hauth h hasked => exact .address hauth h (hasked.append hrest)
  | ended hauth haddress h => exact .ended hauth haddress (h.before hrest)

end Setup

/-- The error that a failed lookup reports for what kept it from a key. -/
inductive Reports : KeyError → LookupFailure → Prop where
  | outage {reason : String} : Reports (.store reason) .outage
  | rejected {fault : ConfigurationFault} : Reports (.configuration fault) (.rejected fault)
  | senseless {fault : AnswerFault} : Reports (.format fault) (.senseless fault)

theorem reports_toKeyError (e : VaultError) : Reports e.toKeyError e.failure := by
  cases e with
  | configuration fault => exact .rejected
  | malformed fault => exact .senseless
  | login reason => exact .outage
  | transport reason => exact .outage
  | status code path => exact .outage

/-! ## The store -/

namespace Setup

variable {x : Setup} {topic path : String} {held : Option Lease} {said first rest : History}
  {result : Except LookupFailure KeyVersion}

/-- What the settings come to: a connection, or a rejection of every lookup. -/
theorem connection_or_rejected (x : Setup) :
    (∃ fault, httpConnection transport (ask Question.leaseTime) x.options x.settings =
        .error (.configuration fault) ∧
      ∀ topic path held, x.Decides topic path held [] (.error (.rejected fault))) ∨
    ∃ auth, x.settings.Names auth ∧ Text.isBlankText x.options.address = false ∧
      ∀ topic path, httpConnection transport (ask Question.leaseTime) x.options x.settings =
        .ok (x.lookup auth topic path).connection := by
  rw [httpConnection]
  rcases hauth : x.settings.resolve with fault | auth
  · exact .inl ⟨fault, rfl, fun _ _ _ =>
      .credentials (AuthSettings.resolve_eq_error_iff.mp hauth) StoreLookup.aside_nil⟩
  · have hnames := AuthSettings.resolve_eq_ok_iff.mp hauth
    rcases haddress : Text.isBlankText x.options.address with _ | _
    · refine .inr ⟨auth, hnames, rfl, fun topic path => ?_⟩
      show (HttpSession.ofOptions x.options >>= fun s => pure _) = _
      rw [HttpSession.ofOptions, haddress]
      rfl
    · refine .inl ⟨.noAddress, ?_, fun _ _ _ =>
        .address hnames haddress StoreLookup.aside_nil⟩
      show (HttpSession.ofOptions x.options >>= fun s => pure _) = _
      rw [HttpSession.ofOptions, haddress]
      rfl

/-- The ways in which opening a connection can go. -/
inductive Opening (x : Setup) (topic path : String) (said : History) :
    Except KeyError Lease → Prop where
  | failed {err : KeyError} {failure : LookupFailure} (hreports : Reports err failure)
      (hresult : x.Decides topic path none said (.error failure)) :
      Opening x topic path said (.error err)
  | opened {auth : Auth} {lease : Lease} (hauth : x.settings.Names auth)
      (haddress : Text.isBlankText x.options.address = false)
      (hpasses : (x.lookup auth topic path).Passes none said lease.token) :
      Opening x topic path said (.ok lease)

theorem opening_of_connect (topic path : String) {p q : Place} {r : Except KeyError Lease}
    (h : Gives x.store.connect p r q) : ∃ said, q = p.say said ∧ x.Opening topic path said r := by
  rw [store, httpStore] at h
  rcases x.connection_or_rejected with ⟨fault, herror, hresult⟩ | ⟨auth, hauth, haddress, hok⟩
  · simp only [herror] at h
    obtain ⟨rfl, rfl⟩ := gives_pure.mp h
    exact ⟨[], (Place.say_nil _).symm, .failed .rejected (hresult _ _ _)⟩
  · simp only [hok topic path] at h
    obtain ⟨client, t, hasked, h⟩ := gives_bind.mp h
    obtain rfl := gives_ask_iff_say.mp hasked
    have hsends (answer : Option String) :
        (x.lookup auth topic path).Asks none [⟨.client, answer⟩] := by
      intro request answer hmem
      cases List.mem_singleton.mp hmem
    rcases client with _ | reason
    · obtain ⟨answer, hopened, hconnect⟩ := gives_bind_pure.mp h
      obtain ⟨said, rfl, hcomes⟩ := comes_of_connect _ hconnect
      have hclient (token : String) (htoken : (x.lookup auth topic path).Usable none [] token) :
          (x.lookup auth topic path).Usable none [⟨.client, none⟩] token := htoken.before
      have hundecided := (x.lookup auth topic path).undecided_client
      refine ⟨[⟨.client, none⟩] ++ said, Place.say_say _ _ _, ?_⟩
      rw [hopened]
      cases hcomes with
      | failed hends =>
        exact .failed (reports_toKeyError _)
          (.ended hauth haddress (hends.after hundecided (hsends none) hclient))
      | passed hpasses =>
        exact .opened hauth haddress (hpasses.after hundecided (hsends none) hclient)
    · obtain ⟨rfl, rfl⟩ := gives_pure.mp h
      exact ⟨_, rfl, .failed .rejected
        (.ended hauth haddress ⟨StoreLookup.decided_singleton .clientless, hsends _⟩)⟩

/-- The ways in which a read can end. -/
inductive ReadEnd (x : Setup) (topic path : String) (held : Option Lease) (said : History) :
    Except KeyError Secret → Prop where
  | failed {err : KeyError} {failure : LookupFailure} (hreports : Reports err failure)
      (hresult : x.Decides topic path held said (.error failure)) :
      ReadEnd x topic path held said (.error err)
  | read {secret : Secret} {key : Except AnswerFault KeyVersion}
      (hkey : secret.currentKey path (x.resolver.keyName topic) = key)
      (hresult : x.Decides topic path held said (key.mapError .senseless)) :
      ReadEnd x topic path held said (.ok secret)

/-- A read over a lease goes as the exchanges decide. -/
theorem readEnd_of_read (topic : String) {p q : Lease × Place} {r : Except KeyError Secret}
    (h : Gives (x.store.read path none) p r q) :
    ∃ said, q.2 = p.2.say said ∧ x.ReadEnd topic path (some p.1) said r := by
  rw [store, httpStore] at h
  rcases x.connection_or_rejected with ⟨fault, herror, hresult⟩ | ⟨auth, hauth, haddress, hok⟩
  · simp only [herror] at h
    obtain ⟨rfl, rfl⟩ := gives_pure.mp h
    exact ⟨[], (Place.say_nil _).symm, .failed .rejected (hresult _ _ _)⟩
  · simp only [hok topic path] at h
    obtain ⟨answer, rfl, hread⟩ := gives_bind_pure.mp h
    obtain ⟨said, hsaid, hends⟩ := ends_of_connection_read (x := x.lookup auth topic path) hread
    refine ⟨said, hsaid, ?_⟩
    rcases hends with ⟨e, rfl, hends⟩ | ⟨secret, rfl, hends⟩
    · exact .failed (reports_toKeyError e) (.ended hauth haddress hends)
    · exact .read rfl (.ended hauth haddress hends)

/-- **A read goes as the settings and the exchanges decide**, whether the connection is open already
or not. -/
theorem ends_of_read (topic : String) {s t : Option Lease × Place} {r : Except KeyError Secret}
    (h : Gives (x.keys.read path none) s r t) :
    ∃ said, t.2 = s.2.say said ∧ x.ReadEnd topic path s.1 said r := by
  cases StoreKeys.reading_of_gives h with
  | refused hconnect =>
    obtain ⟨said, rfl, hopening⟩ := opening_of_connect topic path hconnect
    cases hopening with
    | failed hreports hresult => exact ⟨said, rfl, .failed hreports hresult⟩
  | opened hconnect hread =>
    obtain ⟨first, rfl, hopening⟩ := opening_of_connect topic path hconnect
    obtain ⟨rest, hrest, hend⟩ := readEnd_of_read topic hread
    refine ⟨first ++ rest, hrest.trans (Place.say_say _ _ _), ?_⟩
    cases hopening with
    | opened hauth haddress hpasses =>
      cases hend with
      | failed hreports hresult => exact .failed hreports (hresult.after hauth haddress hpasses)
      | read hkey hresult => exact .read hkey (hresult.after hauth haddress hpasses)
  | reused hread => exact readEnd_of_read topic hread

/-- The ways in which a lookup in the store can end. -/
inductive KeyEnd (x : Setup) (topic path : String) (held : Option Lease) (said : History) :
    Except KeyError (Option KeyVersion) → Prop where
  | failed {err : KeyError} {failure : LookupFailure} (hreports : Reports err failure)
      (hresult : x.Decides topic path held said (.error failure)) :
      KeyEnd x topic path held said (.error err)
  | found {key : KeyVersion} (hresult : x.Decides topic path held said (.ok key)) :
      KeyEnd x topic path held said (.ok (some key))

/-- **A lookup in the store goes as the settings and the exchanges decide.** -/
theorem ends_of_encryptionKey {s t : Option Lease × Place}
    {r : Except KeyError (Option KeyVersion)} (hrules : x.resolver.isEncrypted topic = true)
    (hpath : x.resolver.path topic = .ok path) (h : Gives (x.keys.encryptionKey topic) s r t) :
    ∃ said, t.2 = s.2.say said ∧ x.KeyEnd topic path s.1 said r := by
  cases StoreKeys.encryptionLookup_of_gives h with
  | unkeyed hfalse => exact absurd (hrules.symm.trans hfalse) (by simp)
  | pathless _ herror => exact absurd (hpath.symm.trans herror) (by simp)
  | refused _ hpath' hread =>
    obtain rfl := Except.ok.inj (hpath'.symm.trans hpath)
    obtain ⟨said, hsaid, hend⟩ := ends_of_read topic hread
    cases hend with
    | failed hreports hresult => exact ⟨said, hsaid, .failed hreports hresult⟩
  | unusable _ hpath' hread hkey =>
    obtain rfl := Except.ok.inj (hpath'.symm.trans hpath)
    obtain ⟨said, hsaid, hend⟩ := ends_of_read topic hread
    cases hend with
    | read hsame hresult =>
      obtain rfl := hsame.symm.trans hkey
      exact ⟨said, hsaid, .failed .senseless hresult⟩
  | fetched _ hpath' hread hkey =>
    obtain rfl := Except.ok.inj (hpath'.symm.trans hpath)
    obtain ⟨said, hsaid, hend⟩ := ends_of_read topic hread
    cases hend with
    | read hsame hresult =>
      obtain rfl := hsame.symm.trans hkey
      exact ⟨said, hsaid, .found hresult⟩

/-! ## The cache -/

theorem gives_load {s t : Option Lease × Place} {entries : List CacheEntry}
    (h : Gives x.cache.load s entries t) :
    ∃ failure, entries = loaded s.2.1 failure ∧ t = (s.1, s.2.say [⟨.readText, failure⟩]) := by
  obtain ⟨_, hread, rfl⟩ := CachedKeys.gives_load.mp h
  obtain ⟨hheld, hread⟩ := gives_lift.mp hread
  obtain ⟨failure, hasked, htext, rfl⟩ := FaultyStorage.gives_read.mp hread
  exact ⟨failure, KeyCache.entriesOf_read _ _,
    Prod.ext hheld (Prod.ext htext (Dialogue.gives_question.mp hasked))⟩

theorem gives_now {s t : Option Lease × Place} {now : Instant}
    (h : Gives x.cache.timing.now s now t) : t = (s.1, s.2.say [⟨.time, now⟩]) := by
  obtain ⟨hheld, hasked⟩ := gives_lift.mp h
  exact Prod.ext hheld (gives_ask_iff_say.mp hasked)

/-- Keeping a key asks nothing of the store. -/
theorem gives_keep {s t u : Option Lease × Place} {now expiresAt : Instant}
    {entries : List CacheEntry} (hexpiry : Gives (x.cache.expiry now) s expiresAt t)
    (hpersist : Gives (x.cache.persist entries) t () u) :
    ∃ said, u.2.2 = s.2.2 ++ said ∧ StoreLookup.Aside said := by
  obtain ⟨extra, -, hjitter⟩ := Timing.gives_expiry.mp hexpiry
  have ht := gives_ask_iff_say.mp (gives_lift.mp hjitter).2
  obtain ⟨_, hwrite⟩ := CachedKeys.gives_write.mp hpersist
  obtain ⟨answer, hasked, -, -⟩ := FaultyStorage.gives_write.mp (gives_lift.mp hwrite).2
  have hu := Dialogue.gives_question.mp hasked
  rw [ht] at hu
  refine ⟨_, hu.trans (List.append_assoc ..), List.forall_mem_cons.mpr ⟨⟨by simp, by simp⟩, ?_⟩⟩
  exact List.forall_mem_singleton.mpr ⟨by simp, by simp⟩

end Setup

/-- What the cache answers by the result of the lookup in the store, and which text it leaves
behind: the key of the best expired entry during an outage, a failure of the same kind with the text
as it was, or the key that was read. -/
inductive Outcome (topic : String) (text : Option String) (now : Instant) :
    Except LookupFailure KeyVersion → Except KeyError (Option KeyVersion) →
      Option String → Prop where
  | bridged {best : CacheEntry} {new : Option String}
      (hchosen : KeyCache.best? (KeyCache.encryptionEntries (entriesOf text) topic) = some best)
      (hbest : KeyCache.IsBest (entriesOf text) topic best)
      (hexpired : best.isExpiredAt now = true) :
      Outcome topic text now (.error .outage) (.ok (some best.key)) new
  | rejected {fault : ConfigurationFault} :
      Outcome topic text now (.error (.rejected fault)) (.error (.configuration fault)) text
  | senseless {fault : AnswerFault} :
      Outcome topic text now (.error (.senseless fault)) (.error (.format fault)) text
  | fetched {key : KeyVersion} {new : Option String} :
      Outcome topic text now (.ok key) (.ok (some key)) new

/-- The entry that bridges an outage is a best one, and it has expired. -/
theorem outcome_of_bridge {topic : String} {text new : Option String} {now : Instant}
    {position : Nat} {stale : CacheEntry}
    (hfind : KeyCache.findEncryption (entriesOf text) topic now = .expired (some position))
    (hstale : (entriesOf text)[position]? = some stale) :
    Outcome topic text now (.error .outage) (.ok (some stale.key)) new := by
  have hchosen : KeyCache.best? (KeyCache.encryptionEntries (entriesOf text) topic) =
      some stale := by
    rw [← KeyCache.newest?_bind_eq, KeyCache.newest?_eq_of_findEncryption hfind]
    exact hstale
  have hmem := KeyCache.mem_of_best? hchosen
  exact .bridged hchosen
    (KeyCache.isBest_of_isNotBetter hmem (KeyCache.isNotBetter_of_best? hchosen))
    (KeyCache.isExpiredAt_of_findEncryption hfind _ hmem)

/-- A failure that is no outage is the answer, and the text stays as it was. -/
theorem outcome_of_failure {topic : String} {text : Option String} {now : Instant} {err : KeyError}
    {failure : LookupFailure} (hreports : Reports err failure) (hkind : err.isOutage = false) :
    Outcome topic text now (.error failure) (.error err) text := by
  cases hreports with
  | outage => exact absurd hkind (by simp)
  | rejected => exact .rejected
  | senseless => exact .senseless

variable {x : Setup} {topic path : String}

/-- How a lookup begins is read off the history that it leaves behind. -/
theorem begun_of_gives {s p q : Option Lease × Place} {entries : List CacheEntry}
    {now reading : Instant} {said rest : History} (hload : Gives x.cache.load s entries p)
    (hnow : Gives x.cache.timing.now p reading q)
    (hsaid : s.2.2 ++ ⟨.readText, none⟩ :: ⟨.time, now⟩ :: said = q.2.2 ++ rest) :
    entries = entriesOf s.2.1 ∧ reading = now ∧ said = rest ∧ q.1 = s.1 ∧ q.2.1 = s.2.1 := by
  obtain ⟨failure, rfl, rfl⟩ := Setup.gives_load hload
  obtain rfl := Setup.gives_now hnow
  have hbegun : ⟨.readText, none⟩ :: ⟨.time, now⟩ :: said =
      ⟨.readText, failure⟩ :: ⟨.time, reading⟩ :: rest := by
    refine List.append_cancel_left (hsaid.trans ?_)
    rw [Place.say_say]
    exact List.append_assoc ..
  obtain ⟨hfailure, hbegun⟩ := List.cons.inj hbegun
  obtain ⟨hreading, hrest⟩ := List.cons.inj hbegun
  injection hfailure with _ hfailure
  injection hreading with _ hreading
  subst hfailure
  exact ⟨rfl, hreading.symm, hrest, rfl, rfl⟩

/-- **Only outages are bridged.**  The stored keys of an encrypted topic have expired, the settings
and the exchanges decide the result of a lookup in the store, and the cache answers by that
result. -/
theorem outcome_of_gives {held later : Option Lease} {text new : Option String}
    {history said : History} {now : Instant} {r : Except KeyError (Option KeyVersion)}
    (hrules : x.resolver.isEncrypted topic = true) (hpath : x.resolver.path topic = .ok path)
    (hlive : KeyCache.liveEntries (entriesOf text) topic now = [])
    (hexpired : ∃ e ∈ KeyCache.encryptionEntries (entriesOf text) topic, e.isExpiredAt now = true)
    (h : Gives (x.cache.encryptionKey topic) (held, text, history) r
      (later, new, history ++ ⟨.readText, none⟩ :: ⟨.time, now⟩ :: said)) :
    ∃ result, x.Decides topic path held said result ∧
      (∀ other, x.Decides topic path held said other → other = result) ∧
      Outcome topic text now result r new := by
  suffices ∃ result, x.Decides topic path held said result ∧ Outcome topic text now result r new by
    obtain ⟨result, hresult, houtcome⟩ := this
    exact ⟨result, hresult, fun _ => hresult.unique, houtcome⟩
  cases CachedKeys.encryptionLookup_of_gives h with
  | served hload hnow hfind =>
    obtain ⟨rfl, rfl, -⟩ := begun_of_gives hload hnow (List.append_nil _).symm
    obtain ⟨e, he, -⟩ := KeyCache.exists_mem_of_findEncryption hfind
    rw [hlive] at he
    exact absurd he List.not_mem_nil
  | ambiguous hload hnow hfind =>
    obtain ⟨rfl, rfl, -⟩ := begun_of_gives hload hnow (List.append_nil _).symm
    have htwo := KeyCache.two_le_length_of_findEncryption hfind
    rw [hlive] at htwo
    exact absurd htwo (by decide)
  | unkeyed _ _ _ hasked =>
    obtain ⟨asked, -, hend⟩ := Setup.ends_of_encryptionKey hrules hpath hasked
    cases hend
  | fetched hload hnow hfind hasked hexpiry hpersist =>
    obtain ⟨asked, hsaid, hend⟩ := Setup.ends_of_encryptionKey hrules hpath hasked
    obtain ⟨kept, hkept, hnone⟩ := Setup.gives_keep hexpiry hpersist
    rw [hsaid] at hkept
    obtain ⟨-, -, rfl, hheld, -⟩ :=
      begun_of_gives hload hnow (hkept.trans (List.append_assoc ..))
    rw [hheld] at hend
    cases hend with
    | found hresult => exact ⟨_, hresult.before hnone, .fetched⟩
  | failed hload hnow hfind hasked hlost =>
    obtain ⟨asked, hsaid, hend⟩ := Setup.ends_of_encryptionKey hrules hpath hasked
    obtain ⟨rfl, rfl, rfl, hheld, htext⟩ := begun_of_gives hload hnow (congrArg Prod.snd hsaid)
    obtain rfl : new = text := (congrArg Prod.fst hsaid).trans htext
    have hkind := hlost.resolve_left fun hnone => by
      obtain ⟨e, he, -⟩ := hexpired
      rw [← KeyCache.newest?_eq_of_findEncryption hfind, KeyCache.newest?_bind_eq,
        KeyCache.best?_eq_none_iff] at hnone
      exact absurd he (hnone ▸ List.not_mem_nil)
    rw [hheld] at hend
    cases hend with
    | failed hreports hresult => exact ⟨_, hresult, outcome_of_failure hreports hkind⟩
  | bridged hload hnow hfind hasked houtage hstale hexpiry hpersist =>
    obtain ⟨asked, hsaid, hend⟩ := Setup.ends_of_encryptionKey hrules hpath hasked
    obtain ⟨kept, hkept, hnone⟩ := Setup.gives_keep hexpiry hpersist
    rw [hsaid] at hkept
    obtain ⟨rfl, rfl, rfl, hheld, -⟩ :=
      begun_of_gives hload hnow (hkept.trans (List.append_assoc ..))
    rw [hheld] at hend
    cases hend with
    | failed hreports hresult =>
      cases hreports with
      | outage => exact ⟨_, hresult.before hnone, outcome_of_bridge hfind hstale⟩
      | rejected => exact absurd houtage Bool.false_ne_true
      | senseless => exact absurd houtage Bool.false_ne_true

/-! ## One topic whose keys have expired -/

/-- One topic and a role. -/
def oneTopic : Setup :=
  ⟨.single ⟨"t", "p", none⟩, { HttpOptions.standard with address := "http://store" },
    .ofRole "role" "word", .standard⟩

/-- A text with two keys of the topic. -/
def overdueText : String :=
  "topicseal-key-cache v1\ntopic\tt\n" ++
    "2\t1970-01-01T00:00:10Z\t\tnew\n1\t1970-01-01T00:00:20Z\t\told\n"

/-- A lease that has ended. -/
def endedLease : Lease := ⟨"token", some (.ofSecond 50), false⟩

/-- The store has one answer to logins and one to reads, and everything else works. -/
def answering (login read : Response) : (q : Question) → Answer q
  | .readText => none
  | .writeText _ => (true, .ok ())
  | .time => .ofSecond 100
  | .jitter _ => .ofSeconds 0
  | .client => none
  | .send request => .ok (match request.method with | .post => login | .get => read)
  | .leaseTime => .ofSecond 100

/-- The response of a store that is sealed. -/
def sealed : Response := ⟨503, []⟩

/-- A response that grants a token. -/
def granting : Response :=
  ⟨200, Bytes.ofText "\x7b\"auth\":\x7b\"client_token\":\"fresh\"\x7d\x7d"⟩

/-- A response with a secret of the given version. -/
def telling (version : String) : Response :=
  ⟨200, Bytes.ofText ("\x7b\"data\":\x7b\"data\":\x7b\"value\":\"k\"\x7d,\"metadata\":\x7b" ++
    "\"version\":" ++ version ++ ",\"created_time\":\"2026-03-22T02:24:06 UTC\"\x7d\x7d\x7d")⟩

/-- The lookup of the key at second 100 may come to this answer and leave this text behind, and
settings and exchanges have decided so. -/
def ComesTo (r : Except KeyError (Option KeyVersion)) (new : Option String) : Prop :=
  ∃ later said result,
    Gives (oneTopic.cache.encryptionKey "t") (some endedLease, some overdueText, []) r
      (later, new, ⟨.readText, none⟩ :: ⟨.time, .ofSecond 100⟩ :: said) ∧
    oneTopic.Decides "t" "p" (some endedLease) said result ∧
    (∀ other, oneTopic.Decides "t" "p" (some endedLease) said other → other = result) ∧
    Outcome "t" (some overdueText) (.ofSecond 100) result r new

/-- Both keys of the topic have expired, and the lease has ended.  A store that is sealed refuses
the login, and the newer key bridges that.  A store that grants a token may tell of a secret without
a version, which is an error and leaves the text alone, or of a new key, which is the answer. -/
theorem outcome_at_ended_lease :
    (∃ new, ComesTo (.ok (some ⟨2, none, "new"⟩)) new) ∧
    ComesTo (.error (.format (.versionZero "p"))) (some overdueText) ∧
    ∃ new, ComesTo (.ok (some ⟨3, some "value", "k"⟩)) new := by
  let outcome (login read : Response) := (Dialogue.execution (answering login read)).layer.layer.run
    (oneTopic.cache.encryptionKey "t") (some endedLease, some overdueText, [])
  have hexpired : ((KeyCache.encryptionEntries (entriesOf (some overdueText)) "t").any
      (·.isExpiredAt (.ofSecond 100))) = true := by decide +kernel
  have hcomes (login read : Response)
      (hbegun : (outcome login read).2.2.2.take 2 = [⟨.readText, none⟩, ⟨.time, .ofSecond 100⟩]) :
      ComesTo (outcome login read).1 (outcome login read).2.2.1 := by
    have hgives : Gives (oneTopic.cache.encryptionKey "t") (some endedLease, some overdueText, [])
        (outcome login read).1 ((outcome login read).2.1, (outcome login read).2.2.1,
          [⟨.readText, none⟩, ⟨.time, .ofSecond 100⟩] ++ (outcome login read).2.2.2.drop 2) := by
      rw [← hbegun, List.take_append_drop]
      exact Execution.gives_run _ _ _
    obtain ⟨result, houtcome⟩ := outcome_of_gives rfl rfl (by decide +kernel)
      (List.any_eq_true.mp hexpired) hgives
    exact ⟨_, _, result, hgives, houtcome⟩
  have hbridged : (outcome sealed sealed).1 = .ok (some ⟨2, none, "new"⟩) := by decide +kernel
  have hsenseless : (outcome granting (telling "0")).1 = .error (.format (.versionZero "p")) := by
    decide +kernel
  have hkept : (outcome granting (telling "0")).2.2.1 = some overdueText := by decide +kernel
  have hfetched : (outcome granting (telling "3")).1 = .ok (some ⟨3, some "value", "k"⟩) := by
    decide +kernel
  exact ⟨⟨_, hbridged ▸ hcomes sealed sealed rfl⟩,
    hsenseless ▸ hkept ▸ hcomes granting (telling "0") rfl,
    _, hfetched ▸ hcomes granting (telling "3") rfl⟩

end Vault

end TopicCipher
