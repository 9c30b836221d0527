import TopicCipher.KeyCache.Storage
import TopicCipher.Proofs.Dialogue
import TopicCipher.Proofs.Results
import TopicCipher.Proofs.Vault.Bodies
import TopicCipher.Proofs.Vault.Requests

/-!
# What decides a lookup over HTTP

A lookup in a secret store that is reached over HTTP may log in, and then it reads once.  Each of
these requests goes wrong in its own layer and is reported in its own words, and yet it should not
matter where something went wrong, only what: an outage is bridged with an old key, and nothing
else is.

So the exchanges are looked at by themselves.  `StoreLookup.Verdict` is what a single exchange
decides: a client that cannot be built, a request without an answer, a response that is no success,
and what the body of any other response tells.  A login that is granted decides nothing, and then
something else has to be said.  Everything else ends the lookup, so there is exactly one exchange
that decides, and the lookup comes to what it says.  What the exchanges are about is known as well:
every request is one that the settings stand for, and a read carries a token that the lookup was
given.

* `StoreLookup.Decided`, `StoreLookup.Decided.unique`: what the exchanges decide.
* `StoreLookup.Ends`, `StoreLookup.Passes`: the same with what the requests are about.
* `comes_of_login`, `comes_of_connect`, `comes_of_currentToken`: logins, first connections and
  renewals go on with a token after exchanges that decide nothing, and fail as they decide.
* `ends_of_read`, `ends_of_connection_read`: a read gives what the exchanges decide.
-/

namespace TopicCipher

namespace Vault

/-- What can keep a lookup from a key. -/
inductive LookupFailure where
  /-- A request got no answer, or one that is no success. -/
  | outage
  /-- Settings or credentials are wrong. -/
  | rejected (fault : ConfigurationFault)
  /-- An answer that is a success makes no sense. -/
  | senseless (fault : AnswerFault)

end Vault

/-- What a failure in the exchange with the secret store amounts to. -/
def VaultError.failure : VaultError → Vault.LookupFailure
  | .configuration fault => .rejected fault
  | .malformed fault => .senseless fault
  | _ => .outage

namespace Vault

/-! ## The outside -/

/-- What a lookup asks the outside. -/
inductive Question where
  | readText
  | writeText (text : String)
  | time
  | jitter (bound : Span)
  /-- Whether a client for HTTP can be built. -/
  | client
  | send (request : Request)
  /-- The clock by which leases end. -/
  | leaseTime

/-- How the outside may answer. -/
abbrev Answer : Question → Type
  /- Why the stored text cannot be read, if it cannot. -/
  | .readText => Option StorageError
  /- Whether the text was stored, and what the storage says about it. -/
  | .writeText _ => Bool × Except StorageError Unit
  | .time => Instant
  | .jitter _ => Span
  /- Why no client can be built, if none can. -/
  | .client => Option String
  | .send _ => Except String Response
  | .leaseTime => Instant

/-- All that was asked so far, with the answers. -/
abbrev History := List (Exchange Question Answer)

/-- Computations that ask the outside and keep a text. -/
abbrev Outside := StateT (Option String) (Dialogue Question Answer)

/-- A place: the stored text and the history. -/
abbrev Place := Option String × History

/-- The place when more was said. -/
def Place.say (s : Place) (said : History) : Place := (s.1, s.2 ++ said)

@[simp] theorem Place.say_nil (s : Place) : s.say [] = s := by
  rw [say, List.append_nil]

@[simp] theorem Place.say_say (s : Place) (first rest : History) :
    (s.say first).say rest = s.say (first ++ rest) := by
  rw [say, say, say, List.append_assoc]

theorem gives_ask_iff_say {q : Question} {s t : Place} {answer : Answer q} :
    Gives (ask q : Outside _) s answer t ↔ t = s.say [⟨q, answer⟩] :=
  gives_ask

/-- Requests go to the outside. -/
def transport : Transport Outside := fun request =>
  ask (Question.send request)

/-! ## Verdicts -/

/-- A response counts if its status is between 200 and 299. -/
def Response.IsSuccess (response : Response) : Prop := 200 ≤ response.status ∧ response.status < 300

/-- A lookup in a store that is reached over HTTP: where it asks, with which credentials, and for
which key. -/
structure StoreLookup where
  options : HttpOptions
  auth : Auth
  path : String
  keyName : String

variable {x : StoreLookup} {held : Option Lease} {token : String} {said first rest : History}

namespace StoreLookup

/-- The session of a lookup. -/
def session (x : StoreLookup) : HttpSession := ⟨x.options⟩

/-- What a single exchange decides about a lookup. -/
inductive Verdict (x : StoreLookup) :
    Exchange Question Answer → Except LookupFailure KeyVersion → Prop where
  /-- No client can be built. -/
  | clientless {reason : String} : Verdict x ⟨.client, some reason⟩
      (.error (.rejected (.other s!"failed to build HTTP client: {reason}")))
  /-- A request gets no response. -/
  | unanswered {request : Request} {reason : String} :
      Verdict x ⟨.send request, .error reason⟩ (.error .outage)
  /-- A response is no success. -/
  | refused {request : Request} {response : Response} (hstatus : ¬ response.IsSuccess) :
      Verdict x ⟨.send request, .ok response⟩ (.error .outage)
  /-- A login is answered, but no token is granted. -/
  | ungranted {request : Request} {response : Response} {fault : AnswerFault}
      (hmethod : request.method = .post) (hstatus : response.IsSuccess)
      (htells : LoginTells (Text.lossyText response.body) (.error fault)) :
      Verdict x ⟨.send request, .ok response⟩ (.error (.senseless fault))
  /-- A read is answered. -/
  | read {request : Request} {response : Response} {r : Except AnswerFault KeyVersion}
      (hmethod : request.method = .get) (hstatus : response.IsSuccess)
      (htells : ReadTells x.path x.keyName (Text.lossyText response.body) r) :
      Verdict x ⟨.send request, .ok response⟩ (r.mapError .senseless)

/-- A single exchange decides one thing at most. -/
theorem Verdict.unique {exchange : Exchange Question Answer}
    {result other : Except LookupFailure KeyVersion} (h : x.Verdict exchange result)
    (hother : x.Verdict exchange other) : other = result := by
  cases h with
  | clientless =>
    cases hother
    rfl
  | unanswered =>
    cases hother
    rfl
  | refused hstatus =>
    cases hother with
    | refused _ => rfl
    | ungranted _ hsuccess _ => exact absurd hsuccess hstatus
    | read _ hsuccess _ => exact absurd hsuccess hstatus
  | ungranted hpost hsuccess htells =>
    cases hother with
    | refused hstatus => exact absurd hsuccess hstatus
    | ungranted _ _ htells' => rw [Except.error.inj (htells.unique htells')]
    | read hget _ _ => exact absurd (hpost.symm.trans hget) (by simp)
  | read hget hsuccess htells =>
    cases hother with
    | refused hstatus => exact absurd hsuccess hstatus
    | ungranted hpost _ _ => exact absurd (hpost.symm.trans hget) (by simp)
    | read _ _ htells' => rw [htells.unique htells']

/-- No exchange decides anything. -/
def Undecided (x : StoreLookup) (said : History) : Prop :=
  ∀ exchange ∈ said, ∀ result, ¬ x.Verdict exchange result

/-- Exactly one exchange decides, and this is what it decides. -/
def Decided (x : StoreLookup) (said : History) (result : Except LookupFailure KeyVersion) : Prop :=
  ∃ above exchange below, said = above ++ exchange :: below ∧ x.Verdict exchange result ∧
    x.Undecided above ∧ x.Undecided below

/-- **At most one thing is decided**, since a deciding exchange is the only one. -/
theorem Decided.unique {result other : Except LookupFailure KeyVersion}
    (h : x.Decided said result) (hother : x.Decided said other) : other = result := by
  obtain ⟨above, exchange, below, rfl, hverdict, habove, hbelow⟩ := h
  obtain ⟨_, exchange', _, heq, hverdict', -, -⟩ := hother
  have hmem : exchange' ∈ above ++ exchange :: below := by simp [heq]
  rcases List.mem_append.mp hmem with hmem | hmem
  · exact absurd hverdict' (habove _ hmem _)
  · rcases List.mem_cons.mp hmem with rfl | hmem
    · exact hverdict.unique hverdict'
    · exact absurd hverdict' (hbelow _ hmem _)

/-- The tokens that a lookup may read with, if the given lease is held at first. -/
inductive Usable (x : StoreLookup) (held : Option Lease) (said : History) : String → Prop where
  | held {lease : Lease} (h : held = some lease) : Usable x held said lease.token
  | fixed {token : String} (hheld : held = none) (hauth : x.auth = .token token) :
      Usable x held said token
  | granted {request : Request} {response : Response} {grant : Grant}
      (hmem : ⟨.send request, .ok response⟩ ∈ said) (hmethod : request.method = .post)
      (hstatus : response.IsSuccess)
      (htells : LoginTells (Text.lossyText response.body) (.ok grant)) :
      Usable x held said grant.token

/-- The requests that a lookup may send. -/
inductive MaySend (x : StoreLookup) (held : Option Lease) (said : History) (request : Request) :
    Prop where
  | login {roleId secretId : String} (hauth : x.auth = .role roleId secretId)
      (h : IsLogin x.options roleId secretId request)
  | read {token : String} (htoken : x.Usable held said token)
      (h : IsRead x.options token x.path request)

/-- All requests that were sent are those of the lookup. -/
def Asks (x : StoreLookup) (held : Option Lease) (said : History) : Prop :=
  ∀ request answer, ⟨.send request, answer⟩ ∈ said → x.MaySend held said request

/-- What the exchanges decide: exactly one of them does, and all requests are those of the
lookup. -/
structure Ends (x : StoreLookup) (held : Option Lease) (said : History)
    (result : Except LookupFailure KeyVersion) : Prop where
  decided : x.Decided said result
  asks : x.Asks held said

/-- The exchanges decide nothing, and the lookup may read with the token now. -/
structure Passes (x : StoreLookup) (held : Option Lease) (said : History) (token : String) :
    Prop where
  undecided : x.Undecided said
  asks : x.Asks held said
  usable : x.Usable held said token

/-- Where a client can be built, that decides nothing. -/
theorem undecided_client (x : StoreLookup) : x.Undecided [⟨.client, none⟩] := by
  intro exchange hmem result hverdict
  obtain rfl := List.mem_singleton.mp hmem
  cases hverdict

/-! ### One after the other -/

theorem Undecided.append (hfirst : x.Undecided first) (hrest : x.Undecided rest) :
    x.Undecided (first ++ rest) :=
  List.forall_mem_append.mpr ⟨hfirst, hrest⟩

theorem decided_singleton {exchange : Exchange Question Answer}
    {result : Except LookupFailure KeyVersion} (h : x.Verdict exchange result) :
    x.Decided [exchange] result :=
  ⟨[], exchange, [], rfl, h, List.forall_mem_nil _, List.forall_mem_nil _⟩

theorem Decided.after {result : Except LookupFailure KeyVersion} (h : x.Decided rest result)
    (hfirst : x.Undecided first) : x.Decided (first ++ rest) result := by
  obtain ⟨above, exchange, below, rfl, hverdict, habove, hbelow⟩ := h
  exact ⟨first ++ above, exchange, below, (List.append_assoc ..).symm, hverdict,
    hfirst.append habove, hbelow⟩

theorem Decided.before {result : Except LookupFailure KeyVersion} (h : x.Decided first result)
    (hrest : x.Undecided rest) : x.Decided (first ++ rest) result := by
  obtain ⟨above, exchange, below, rfl, hverdict, habove, hbelow⟩ := h
  exact ⟨above, exchange, below ++ rest, List.append_assoc .., hverdict, habove,
    hbelow.append hrest⟩

/-- A token that was granted stays usable. -/
theorem Usable.before (h : x.Usable held first token) : x.Usable held (first ++ rest) token := by
  cases h with
  | held h => exact .held h
  | fixed hheld hauth => exact .fixed hheld hauth
  | granted hmem hmethod hstatus hgrant =>
    exact .granted (List.mem_append_left rest hmem) hmethod hstatus hgrant

/-- What is usable in the end is usable on the whole, if what is usable in between is. -/
theorem Usable.after {later : Option Lease} (h : x.Usable later rest token)
    (hlater : ∀ token, x.Usable later [] token → x.Usable held first token) :
    x.Usable held (first ++ rest) token := by
  cases h with
  | held h => exact (hlater _ (.held h)).before
  | fixed hheld hauth => exact (hlater _ (.fixed hheld hauth)).before
  | granted hmem hmethod hstatus hgrant =>
    exact .granted (List.mem_append_right first hmem) hmethod hstatus hgrant

theorem MaySend.before {request : Request} (h : x.MaySend held first request) :
    x.MaySend held (first ++ rest) request := by
  cases h with
  | login hauth h => exact .login hauth h
  | read htoken h => exact .read htoken.before h

theorem MaySend.after {later : Option Lease} {request : Request} (h : x.MaySend later rest request)
    (hlater : ∀ token, x.Usable later [] token → x.Usable held first token) :
    x.MaySend held (first ++ rest) request := by
  cases h with
  | login hauth h => exact .login hauth h
  | read htoken h => exact .read (htoken.after hlater) h

theorem Asks.append {later : Option Lease} (hfirst : x.Asks held first) (hrest : x.Asks later rest)
    (hlater : ∀ token, x.Usable later [] token → x.Usable held first token) :
    x.Asks held (first ++ rest) := by
  intro request answer hmem
  rcases List.mem_append.mp hmem with hmem | hmem
  · exact (hfirst request answer hmem).before
  · exact (hrest request answer hmem).after hlater

theorem Asks.concat {request : Request} {answer : Except String Response}
    (hfirst : x.Asks held first) (hsend : x.MaySend held first request) :
    x.Asks held (first ++ [⟨.send request, answer⟩]) := by
  intro request' answer' hmem
  rcases List.mem_append.mp hmem with hmem | hmem
  · exact (hfirst request' answer' hmem).before
  · cases List.mem_singleton.mp hmem
    exact hsend.before

/-- After exchanges that decide nothing, the others decide. -/
theorem Ends.after {later : Option Lease} {result : Except LookupFailure KeyVersion}
    (h : x.Ends later rest result) (hfirst : x.Undecided first) (hasks : x.Asks held first)
    (hlater : ∀ token, x.Usable later [] token → x.Usable held first token) :
    x.Ends held (first ++ rest) result where
  decided := h.decided.after hfirst
  asks := hasks.append h.asks hlater

theorem Passes.after {later : Option Lease} (h : x.Passes later rest token)
    (hfirst : x.Undecided first) (hasks : x.Asks held first)
    (hlater : ∀ token, x.Usable later [] token → x.Usable held first token) :
    x.Passes held (first ++ rest) token where
  undecided := hfirst.append h.undecided
  asks := hasks.append h.asks hlater
  usable := h.usable.after hlater

/-! ### What is not asked of the store -/

/-- Nothing was asked of the store. -/
def Aside (said : History) : Prop :=
  ∀ exchange ∈ said, exchange.question ≠ .client ∧ ∀ request, exchange.question ≠ .send request

theorem aside_nil : Aside [] := fun _ h => absurd h List.not_mem_nil

theorem Aside.append (hfirst : Aside first) (hrest : Aside rest) : Aside (first ++ rest) :=
  List.forall_mem_append.mpr ⟨hfirst, hrest⟩

theorem Aside.undecided (h : Aside said) (x : StoreLookup) : x.Undecided said := by
  intro exchange hmem result hverdict
  obtain ⟨hclient, hsend⟩ := h exchange hmem
  cases hverdict with
  | clientless => exact hclient rfl
  | _ => exact hsend _ rfl

theorem Aside.asks (h : Aside said) (x : StoreLookup) (held : Option Lease) : x.Asks held said :=
  fun request _ hmem => absurd rfl ((h _ hmem).2 request)

theorem Passes.before (h : x.Passes held first token) (hrest : Aside rest) :
    x.Passes held (first ++ rest) token where
  undecided := h.undecided.append (hrest.undecided x)
  asks := h.asks.append (hrest.asks x held) fun _ htoken => htoken.before
  usable := h.usable.before

/-- What is not asked of the store may follow. -/
theorem Ends.before {result : Except LookupFailure KeyVersion} (h : x.Ends held first result)
    (hrest : Aside rest) : x.Ends held (first ++ rest) result where
  decided := h.decided.before (hrest.undecided x)
  asks := h.asks.append (hrest.asks x held) fun _ htoken => htoken.before

end StoreLookup

open StoreLookup (aside_nil)

/-! ## Single requests -/

/-- The ways in which a request can go. -/
inductive Exchanged (request : Request) (target : String) (p : Place) :
    Except VaultError String → Place → Prop where
  | unanswered {reason : String} : Exchanged request target p (.error (.transport reason))
      (p.say [⟨.send request, .error reason⟩])
  | refused {response : Response} (hstatus : ¬ response.IsSuccess) :
      Exchanged request target p (.error (.status response.status target))
        (p.say [⟨.send request, .ok response⟩])
  | answered {response : Response} (hstatus : response.IsSuccess) :
      Exchanged request target p (.ok (Text.lossyText response.body))
        (p.say [⟨.send request, .ok response⟩])

theorem exchanged_of_gives {s : HttpSession} {method : Method} {target : String}
    {headers : List (String × String)} {body : Option Json} {p q : Place}
    {r : Except VaultError String}
    (h : Gives (s.exchange transport method target headers body) p r q) :
    Exchanged (s.request method target headers body) target p r q := by
  obtain ⟨answer, t, hsent, h⟩ := gives_bind.mp h
  obtain rfl := gives_ask_iff_say.mp hsent
  rcases answer with reason | response
  · obtain ⟨rfl, rfl⟩ := gives_pure.mp h
    exact .unanswered
  · dsimp only at h
    split at h
    next hstatus =>
      obtain ⟨rfl, rfl⟩ := gives_pure.mp h
      exact .answered hstatus
    next hstatus =>
      obtain ⟨rfl, rfl⟩ := gives_pure.mp h
      exact .refused hstatus

/-- A login that is granted decides nothing. -/
theorem undecided_granting (x : StoreLookup) {request : Request} {response : Response}
    {grant : Grant} (hmethod : request.method = .post) (hstatus : response.IsSuccess)
    (htells : LoginTells (Text.lossyText response.body) (.ok grant)) :
    x.Undecided [⟨.send request, .ok response⟩] := by
  intro exchange hmem result hverdict
  obtain rfl := List.mem_singleton.mp hmem
  cases hverdict with
  | refused hnot => exact hnot hstatus
  | ungranted _ _ hfault => exact absurd (htells.unique hfault) (by simp)
  | read hget _ _ => exact absurd (hmethod.symm.trans hget) (by simp)

/-! ## Logins -/

/-- A computation goes on with a token after exchanges that decide nothing, or it fails as they
decide. -/
inductive Comes {α : Type} (x : StoreLookup) (held : Option Lease) (tokenOf : α → String)
    (said : History) : Except VaultError α → Prop where
  | passed {a : α} (h : x.Passes held said (tokenOf a)) : Comes x held tokenOf said (.ok a)
  | failed {e : VaultError} (h : x.Ends held said (.error e.failure)) :
      Comes x held tokenOf said (.error e)

/-- **What a login decides.** -/
theorem comes_of_login (x : StoreLookup) (held : Option Lease) {roleId secretId : String}
    {p q : Place} {r : Except VaultError Grant} (hauth : x.auth = .role roleId secretId)
    (h : Gives (x.session.login transport roleId secretId) p r q) :
    ∃ said, q = p.say said ∧ Comes x held Grant.token said r := by
  have hasks (answer : Except String Response) :
      x.Asks held [⟨.send (x.session.loginRequest roleId secretId), answer⟩] :=
    (aside_nil.asks x held).concat (.login hauth (isLogin_loginRequest x.session roleId secretId))
  obtain ⟨answer, t, hsent, h⟩ := gives_bind.mp h
  cases exchanged_of_gives hsent with
  | unanswered =>
    obtain ⟨rfl, rfl⟩ := gives_pure.mp h
    exact ⟨_, rfl, .failed ⟨StoreLookup.decided_singleton .unanswered, hasks _⟩⟩
  | refused hstatus =>
    obtain ⟨rfl, rfl⟩ := gives_pure.mp h
    exact ⟨_, rfl, .failed ⟨StoreLookup.decided_singleton (.refused hstatus), hasks _⟩⟩
  | @answered response hstatus =>
    obtain ⟨rfl, rfl⟩ := gives_pure.mp h
    refine ⟨_, rfl, ?_⟩
    obtain ⟨answer, htells, hgrant⟩ := exists_loginTells (Text.lossyText response.body)
    rw [hgrant]
    cases answer with
    | error fault =>
      exact .failed ⟨StoreLookup.decided_singleton (.ungranted rfl hstatus htells), hasks _⟩
    | ok grant =>
      exact .passed ⟨undecided_granting x rfl hstatus htells, hasks _,
        .granted List.mem_cons_self rfl hstatus htells⟩

/-! ## Reads -/

/-- **What a read decides**, after exchanges that decide nothing: it fails as its exchange decides,
or the secret that it gives decides. -/
theorem ends_of_read {p q : Place} {r : Except VaultError Secret}
    (hfirst : x.Passes held first token)
    (h : Gives (x.session.read transport token x.path none) p r q) :
    ∃ said, q = p.say said ∧
      ((∃ e, r = .error e ∧ x.Ends held (first ++ said) (.error e.failure)) ∨
        ∃ secret, r = .ok secret ∧
          x.Ends held (first ++ said)
            ((secret.currentKey x.path x.keyName).mapError .senseless)) := by
  have hends {result : Except LookupFailure KeyVersion} {answer : Except String Response}
      (hverdict : x.Verdict ⟨.send (x.session.readRequest token x.path), answer⟩ result) :
      x.Ends held (first ++ [⟨.send (x.session.readRequest token x.path), answer⟩]) result :=
    { decided := (StoreLookup.decided_singleton hverdict).after hfirst.undecided
      asks := hfirst.asks.concat
        (.read hfirst.usable (isRead_readRequest x.session token x.path)) }
  obtain ⟨answer, t, hsent, h⟩ := gives_bind.mp h
  cases exchanged_of_gives hsent with
  | unanswered =>
    obtain ⟨rfl, rfl⟩ := gives_pure.mp h
    exact ⟨_, rfl, .inl ⟨_, rfl, hends .unanswered⟩⟩
  | refused hstatus =>
    obtain ⟨rfl, rfl⟩ := gives_pure.mp h
    exact ⟨_, rfl, .inl ⟨_, rfl, hends (.refused hstatus)⟩⟩
  | @answered response hstatus =>
    obtain ⟨rfl, rfl⟩ := gives_pure.mp h
    refine ⟨_, rfl, ?_⟩
    rcases hread : readSecret (Text.lossyText response.body) with e | secret
    · have htells : ReadTells x.path x.keyName (Text.lossyText response.body)
          (.error .readBody) := (readTells_iff_of_error hread).mpr rfl
      obtain rfl := eq_of_readSecret_eq_error hread
      exact .inl ⟨_, rfl, hends (.read rfl hstatus htells)⟩
    · have htells : ReadTells x.path x.keyName (Text.lossyText response.body)
          (secret.currentKey x.path x.keyName) := (readTells_iff_of_ok hread).mpr rfl
      exact .inr ⟨secret, rfl, hends (.read rfl hstatus htells)⟩

/-! ## Connections -/

/-- The connection of a lookup. -/
def StoreLookup.connection (x : StoreLookup) : Connection Outside where
  session := x.session.session transport
  auth := x.auth
  now := ask Question.leaseTime

/-- Reading the clock decides nothing. -/
theorem aside_leaseTime (now : Instant) : StoreLookup.Aside [⟨.leaseTime, now⟩] :=
  List.forall_mem_singleton.mpr ⟨by simp, by simp⟩

/-- **What a first connection decides.** -/
theorem comes_of_connect (x : StoreLookup) {p q : Place} {r : Except VaultError Lease}
    (h : Gives x.connection.connect p r q) :
    ∃ said, q = p.say said ∧ Comes x none Lease.token said r := by
  rw [Connection.connect] at h
  split at h
  next token hauth =>
    obtain ⟨rfl, rfl⟩ := gives_pure.mp h
    exact ⟨[], (Place.say_nil q).symm,
      .passed ⟨aside_nil.undecided x, aside_nil.asks x none, .fixed rfl hauth⟩⟩
  next roleId secretId hauth =>
    obtain ⟨answer, t, hlogin, h⟩ := gives_bind.mp h
    obtain ⟨said, rfl, hcomes⟩ := comes_of_login x none hauth hlogin
    cases hcomes with
    | failed hends =>
      obtain ⟨rfl, rfl⟩ := gives_pure.mp h
      exact ⟨said, rfl, .failed hends⟩
    | passed hpasses =>
      obtain ⟨now, u, hnow, h⟩ := gives_bind.mp h
      obtain rfl := gives_ask_iff_say.mp hnow
      obtain ⟨rfl, rfl⟩ := gives_pure.mp h
      exact ⟨_, Place.say_say _ _ _, .passed (hpasses.before (aside_leaseTime now))⟩

/-- **What a renewal decides**, if there is one. -/
theorem comes_of_currentToken (x : StoreLookup) {p q : Lease × Place} {r : Except VaultError String}
    (h : Gives x.connection.currentToken p r q) :
    ∃ said, q.2 = p.2.say said ∧ Comes x (some p.1) id said r := by
  obtain ⟨now, t, hnow, hget⟩ := gives_bind.mp h
  obtain ⟨hkept, hasked⟩ := gives_lift.mp hnow
  have ht : t.2 = p.2.say [⟨.leaseTime, now⟩] := gives_ask_iff_say.mp hasked
  obtain ⟨lease, u, hlease, hrest⟩ := gives_bind.mp hget
  obtain ⟨rfl, rfl⟩ := gives_get.mp hlease
  have hclock := aside_leaseTime now
  have hpassed : Comes x (some p.1) id [⟨.leaseTime, now⟩] (.ok u.1.token) := by
    rw [hkept]
    exact .passed ⟨hclock.undecided x, hclock.asks x _, .held rfl⟩
  split at hrest
  next =>
    split at hrest
    next =>
      obtain ⟨rfl, rfl⟩ := gives_pure.mp hrest
      exact ⟨_, ht, hpassed⟩
    next roleId secretId hauth =>
      obtain ⟨answer, v, hlogin, hrest⟩ := gives_bind.mp hrest
      obtain ⟨-, hlogin⟩ := gives_lift.mp hlogin
      obtain ⟨said, hv, hcomes⟩ := comes_of_login x (some p.1) hauth hlogin
      have hsay : v.2 = p.2.say ([⟨.leaseTime, now⟩] ++ said) := by
        rw [hv, ht, Place.say_say]
      have hlater (token : String) (htoken : x.Usable (some p.1) [] token) :
          x.Usable (some p.1) [⟨.leaseTime, now⟩] token := htoken.before
      cases hcomes with
      | failed hends =>
        obtain ⟨rfl, rfl⟩ := gives_pure.mp hrest
        exact ⟨_, hsay, .failed (hends.after (hclock.undecided x) (hclock.asks x _) hlater)⟩
      | passed hpasses =>
        obtain ⟨_, w, hset, hrest⟩ := gives_bind.mp hrest
        obtain rfl := gives_set.mp hset
        obtain ⟨rfl, rfl⟩ := gives_pure.mp hrest
        exact ⟨_, hsay, .passed (hpasses.after (hclock.undecided x) (hclock.asks x _) hlater)⟩
  next =>
    obtain ⟨rfl, rfl⟩ := gives_pure.mp hrest
    exact ⟨_, ht, hpassed⟩

/-- **What a read over a connection decides.** -/
theorem ends_of_connection_read {p q : Lease × Place} {r : Except VaultError Secret}
    (h : Gives (x.connection.read x.path none) p r q) :
    ∃ said, q.2 = p.2.say said ∧
      ((∃ e, r = .error e ∧ x.Ends (some p.1) said (.error e.failure)) ∨
        ∃ secret, r = .ok secret ∧
          x.Ends (some p.1) said ((secret.currentKey x.path x.keyName).mapError .senseless)) := by
  obtain ⟨answer, t, hrenewed, h⟩ := gives_bind.mp h
  obtain ⟨first, ht, hcomes⟩ := comes_of_currentToken x hrenewed
  cases hcomes with
  | failed hends =>
    obtain ⟨rfl, rfl⟩ := gives_pure.mp h
    exact ⟨first, ht, .inl ⟨_, rfl, hends⟩⟩
  | passed hpasses =>
    obtain ⟨rest, hq, hread⟩ := ends_of_read hpasses (gives_lift.mp h).2
    exact ⟨first ++ rest, by rw [hq, ht, Place.say_say], hread⟩

end Vault

end TopicCipher
