import TopicCipher.Proofs.Dialogue
import TopicCipher.Proofs.Results
import TopicCipher.Proofs.Time.Instant
import TopicCipher.Vault.Connection

/-!
# Leases over whole runs

A connection reads with a token that it was granted for a while.  So here logins, reads and the
clock are questions to the outside, and a statement about all histories is a statement about all
sessions and all clocks, also such that go back.  Of the answers only one thing is known: the clock
is never at the last instant of the calendar, which is the end of leases that are too long to be
counted.

What is said in a read depends on the lease and on one reading of the clock alone (`Turn`).  What
the lease is depends on the history: with a role, it is the one of the last login that was granted,
and of the reading of the clock that belongs to this login (`Holds`), because a login that is
refused leaves it alone.  Both together say which token every request carries, and that its time has
not come.

* `isExpiredAt_ofGrant`: a token that was granted now has not ended now.
* `endsAt_ofGrant`: when it ends is counted exactly.
* `turn_of_gives`: what is said in a read, word for word.
* `holds_of_run`, `fixed_of_run`: what the lease is after any run.
* `reads_with_live_lease`: what that means for logins and reads.
-/

namespace TopicCipher.Vault

namespace Lease

/-- The end of a lease does not go away. -/
theorem isExpiredAt_mono {l : Lease} {now later : Instant} (h : l.isExpiredAt now = true)
    (hlater : now ≤ later) : l.isExpiredAt later = true := by
  obtain ⟨endsAt, hends, hnow⟩ := (Option.any_eq_true _ _).mp h
  refine (Option.any_eq_true _ _).mpr ⟨endsAt, hends, ?_⟩
  exact decide_eq_true (Instant.le_trans (of_decide_eq_true hnow) hlater)

/-- **A token that was granted now has not ended now**, before the end of the calendar. -/
theorem isExpiredAt_ofGrant (grant : Grant) {now : Instant} (hnow : now < .last) :
    (ofGrant grant now).isExpiredAt now = false := by
  rw [isExpiredAt, ofGrant, endOf]
  split
  · rfl
  next hlease =>
    rw [Option.any_some, decide_eq_false_iff_not, Instant.not_le]
    cases hafter : now.after? grant.lease with
    | none => exact hnow
    | some u =>
      obtain ⟨-, -, rfl⟩ := Instant.after?_eq_some_iff.mp hafter
      exact Instant.lt_add now (Nat.pos_of_ne_zero hlease)

/-- A token that was granted for no time never ends. -/
theorem isExpiredAt_of_endless {grant : Grant} (h : grant.lease.nanos = 0)
    (recorded now : Instant) : (ofGrant grant recorded).isExpiredAt now = false := by
  rw [isExpiredAt, ofGrant, endOf, if_pos h]
  rfl

/-- The end of a lease of so many nanoseconds, counted without bounds: the sum, or the end of the
calendar if that comes first.  A lease of no time has no end. -/
def countedEnd (recorded : Instant) (nanos : Nat) : Option Instant :=
  if nanos = 0 then none
  else some (.ofUnixNanos (min Instant.last.unixNanos (recorded.unixNanos + nanos)))

/-- **The end of a lease is counted exactly**, from every reading of the calendar.  Less than a
second might end inside the leap second in which it begins, which has no number of its own. -/
theorem endsAt_ofGrant (grant : Grant) {recorded : Instant} (htold : recorded.IsTold)
    (hwhole : recorded.isLeap = false ∨ nanosPerSecond ≤ grant.lease.nanos) :
    (ofGrant grant recorded).endsAt = countedEnd recorded grant.lease.nanos := by
  have hsum : recorded.add grant.lease =
      .ofUnixNanos (recorded.unixNanos + grant.lease.nanos) := by
    refine dif_neg fun ⟨hleap, hroom⟩ => ?_
    have hover : nanosPerSecond ≤ recorded.nano := of_decide_eq_true hleap
    rcases hwhole with hnone | hwhole
    · exact absurd (hnone.symm.trans hleap) Bool.false_ne_true
    · omega
  have hlast : Instant.last.unixNanos = 8210266876799999999999 := by decide
  show endOf grant.lease recorded = _
  rw [endOf, countedEnd]
  split
  · rfl
  next hlease =>
    congr 1
    cases hafter : recorded.after? grant.lease with
    | some u =>
      obtain ⟨-, hend, rfl⟩ := Instant.after?_eq_some_iff.mp hafter
      rw [hsum] at hend ⊢
      have hend : (recorded.unixNanos + grant.lease.nanos) / 1000000000 ≤ 8210266876799 := hend
      rw [Int.min_eq_right (by omega), Option.getD_some]
    | none =>
      -- a span that is too long to step by leads out of the calendar, wherever it begins
      have hbeyond : Instant.last.unixNanos ≤ recorded.unixNanos + grant.lease.nanos := by
        rcases Instant.after?_eq_none_iff.mp hafter with hstep | hend
        · have hlong : 9223372036854775807000000 < grant.lease.nanos :=
            Nat.not_le.mp (of_decide_eq_false hstep)
          have hfirst : -8334601228800 ≤ recorded.second := htold.first_le
          have hnanos : recorded.second * 1000000000 ≤ recorded.unixNanos :=
            Int.le_add_of_nonneg_right (Int.natCast_nonneg _)
          omega
        · rw [hsum] at hend
          have hend : 8210266876799 < (recorded.unixNanos + grant.lease.nanos) / 1000000000 := hend
          omega
      rw [Int.min_eq_left hbeyond, Option.getD_none]
      decide

end Lease

namespace Renewal

/-! ## The outside -/

/-- What a connection asks the outside. -/
inductive Question where
  | time
  | login (roleId secretId : String)
  | read (token path : String) (version : Option Version)

/-- A reading of the clock. -/
abbrev Reading := { now : Instant // now < .last }

/-- How the outside may answer. -/
abbrev Answer : Question → Type
  | .time => Reading
  | .login _ _ => Except VaultError Grant
  | .read _ _ _ => Except VaultError Secret

/-- All that was asked so far, with the answers. -/
abbrev History := List (Exchange Question Answer)

/-- Computations that ask the outside. -/
abbrev Outside := Dialogue Question Answer

/-- The lease that is held, and the history. -/
abbrev Place := Lease × History

/-- A connection that leaves everything but its lease to the outside. -/
def connection (auth : Auth) : Connection Outside where
  session :=
    { login := fun roleId secretId => .question (Question.login roleId secretId)
      read := fun token path version => .question (Question.read token path version) }
  auth := auth
  now := do return (← Dialogue.question Question.time).1

/-- A read: where, and which version. -/
structure Call where
  path : String
  version : Option Version

/-- Reads over the connection. -/
def read (auth : Auth) (call : Call) : StateT Lease Outside (Except KeyError Secret) :=
  (connection auth).store.read call.path call.version

/-- Reads and leaves the answer alone. -/
def perform (auth : Auth) (call : Call) : StateT Lease Outside Unit := do
  let _ ← read auth call

theorem gives_now {auth : Auth} {history later : History} {now : Instant} :
    Gives (connection auth).now history now later ↔
      ∃ reading : Reading, now = reading.1 ∧ later = history ++ [⟨.time, reading⟩] :=
  gives_bind_pure.trans (exists_congr fun _ => and_congr_right fun _ => Dialogue.gives_question)

/-! ## Turns -/

variable {auth : Auth} {call : Call} {s t u : Place} {r : Except KeyError Secret}

/-- What can be said for a token after the clock was read, what comes of it, and which lease is
left. -/
inductive Renews (auth : Auth) (lease : Lease) (now : Instant) :
    History → Except VaultError String → Lease → Prop where
  | held (hlive : lease.isExpiredAt now = false ∨ ∃ token, auth = .token token) :
      Renews auth lease now [] (.ok lease.token) lease
  | refused {roleId secretId : String} {e : VaultError} (hauth : auth = .role roleId secretId)
      (hended : lease.isExpiredAt now = true) :
      Renews auth lease now [⟨.login roleId secretId, .error e⟩] (.error e) lease
  | renewed {roleId secretId : String} {grant : Grant} (hauth : auth = .role roleId secretId)
      (hended : lease.isExpiredAt now = true) :
      Renews auth lease now [⟨.login roleId secretId, .ok grant⟩] (.ok grant.token)
        (.ofGrant grant now)

theorem renews_of_currentToken {r : Except VaultError String}
    (h : Gives (connection auth).currentToken s r t) :
    ∃ (now : Reading) (said : History), t.2 = s.2 ++ ⟨.time, now⟩ :: said ∧
      Renews auth s.1 now.1 said r t.1 := by
  obtain ⟨_, u, hclock, h⟩ := gives_bind.mp h
  obtain ⟨hkept, hclock⟩ := gives_lift.mp hclock
  obtain ⟨now, rfl, hu⟩ := gives_now.mp hclock
  obtain ⟨lease, v, hlease, h⟩ := gives_bind.mp h
  obtain ⟨rfl, rfl⟩ := gives_get.mp hlease
  refine ⟨now, ?_⟩
  rw [hkept] at h
  split at h
  next hended =>
    split at h
    next token hauth =>
      obtain ⟨rfl, rfl⟩ := gives_pure.mp h
      rw [hkept]
      exact ⟨[], hu, .held (.inr ⟨token, hauth⟩)⟩
    next roleId secretId hauth =>
      obtain ⟨answer, w, hlogin, h⟩ := gives_bind.mp h
      obtain ⟨hheld, hlogin⟩ := gives_lift.mp hlogin
      have hw : w.2 = s.2 ++ ⟨.time, now⟩ :: [⟨.login roleId secretId, answer⟩] := by
        rw [Dialogue.gives_question.mp hlogin, hu, List.append_assoc]
        rfl
      rcases answer with e | grant
      · obtain ⟨rfl, rfl⟩ := gives_pure.mp h
        rw [hheld, hkept]
        exact ⟨_, hw, .refused hauth hended⟩
      · obtain ⟨_, x, hset, h⟩ := gives_bind.mp h
        obtain rfl := gives_set.mp hset
        obtain ⟨rfl, rfl⟩ := gives_pure.mp h
        exact ⟨_, hw, .renewed hauth hended⟩
  next hlive =>
    obtain ⟨rfl, rfl⟩ := gives_pure.mp h
    rw [hkept]
    exact ⟨[], hu, .held (.inl (Bool.eq_false_of_not_eq_true hlive))⟩

/-- What can be said in a read after the clock was read, what it gives, and which lease it
leaves. -/
inductive Turn (auth : Auth) (call : Call) (lease : Lease) (now : Instant) :
    History → Except KeyError Secret → Lease → Prop where
  | sent {answer : Except VaultError Secret}
      (hlive : lease.isExpiredAt now = false ∨ ∃ token, auth = .token token) :
      Turn auth call lease now [⟨.read lease.token call.path call.version, answer⟩]
        (answer.mapError VaultError.toKeyError) lease
  | refused {roleId secretId : String} {e : VaultError} (hauth : auth = .role roleId secretId)
      (hended : lease.isExpiredAt now = true) :
      Turn auth call lease now [⟨.login roleId secretId, .error e⟩] (.error e.toKeyError) lease
  | renewed {roleId secretId : String} {grant : Grant} {answer : Except VaultError Secret}
      (hauth : auth = .role roleId secretId) (hended : lease.isExpiredAt now = true) :
      Turn auth call lease now
        [⟨.login roleId secretId, .ok grant⟩, ⟨.read grant.token call.path call.version, answer⟩]
        (answer.mapError VaultError.toKeyError) (.ofGrant grant now)

/-- **Every read is one of the three turns**, after one reading of the clock. -/
theorem turn_of_gives (h : Gives (read auth call) s r t) :
    ∃ (now : Reading) (said : History), t.2 = s.2 ++ ⟨.time, now⟩ :: said ∧
      Turn auth call s.1 now.1 said r t.1 := by
  obtain ⟨result, u, h, hdone⟩ := gives_bind.mp h
  obtain ⟨rfl, rfl⟩ := gives_pure.mp hdone
  obtain ⟨token?, v, htoken, h⟩ := gives_bind.mp h
  obtain ⟨now, said, hv, hrenews⟩ := renews_of_currentToken htoken
  refine ⟨now, ?_⟩
  generalize hlease : v.1 = lease at hrenews
  cases hrenews with
  | held hlive =>
    obtain ⟨hkept, hread⟩ := gives_lift.mp h
    rw [hkept, hlease, Dialogue.gives_question.mp hread, hv, List.append_assoc]
    exact ⟨_, rfl, .sent hlive⟩
  | refused hauth hended =>
    obtain ⟨rfl, rfl⟩ := gives_pure.mp h
    rw [hlease]
    exact ⟨_, hv, .refused hauth hended⟩
  | renewed hauth hended =>
    obtain ⟨hkept, hread⟩ := gives_lift.mp h
    rw [hkept, hlease, Dialogue.gives_question.mp hread, hv, List.append_assoc]
    exact ⟨_, rfl, .renewed hauth hended⟩

/-! ## What is recorded -/

/-- The logins that were tried. -/
def logins (history : History) : List (String × String) :=
  history.filterMap fun
    | ⟨.login roleId secretId, _⟩ => some (roleId, secretId)
    | _ => none

/-- No login was granted. -/
def Ungranted (history : History) : Prop :=
  ∀ exchange ∈ history, ∀ roleId secretId grant,
    exchange ≠ ⟨.login roleId secretId, .ok grant⟩

/-- The last login that was granted, and the reading of the clock that belongs to it: the one after
the first login, or the one of the read that needed another login. -/
inductive Recorded (roleId secretId : String) (grant : Grant) (reading : Reading) :
    History → Prop where
  | opened {rest : History} (hrest : Ungranted rest) :
      Recorded roleId secretId grant reading
        (⟨.login roleId secretId, .ok grant⟩ :: ⟨.time, reading⟩ :: rest)
  | renewed {first rest : History} (hrest : Ungranted rest) :
      Recorded roleId secretId grant reading
        (first ++ ⟨.time, reading⟩ :: ⟨.login roleId secretId, .ok grant⟩ :: rest)

variable {roleId secretId token : String} {grant : Grant} {reading : Reading}
  {history said : History} {lease : Lease} {steps : List (Step Call Place)}

theorem ungranted_nil : Ungranted [] := fun _ h => absurd h List.not_mem_nil

theorem Ungranted.cons (h : Ungranted said) {exchange : Exchange Question Answer}
    (hexchange : ∀ roleId secretId grant, exchange ≠ ⟨.login roleId secretId, .ok grant⟩) :
    Ungranted (exchange :: said) :=
  List.forall_mem_cons.mpr ⟨hexchange, h⟩

theorem Ungranted.time (h : Ungranted said) (now : Reading) : Ungranted (⟨.time, now⟩ :: said) :=
  h.cons (by simp)

theorem ungranted_read (token path : String) (version : Option Version)
    (answer : Except VaultError Secret) : Ungranted [⟨.read token path version, answer⟩] :=
  ungranted_nil.cons (by simp)

theorem Ungranted.append (h : Ungranted history) (hsaid : Ungranted said) :
    Ungranted (history ++ said) :=
  List.forall_mem_append.mpr ⟨h, hsaid⟩

/-- What is no granted login does not matter. -/
theorem Recorded.append (h : Recorded roleId secretId grant reading history)
    (hsaid : Ungranted said) : Recorded roleId secretId grant reading (history ++ said) := by
  cases h with
  | opened hrest => exact .opened (hrest.append hsaid)
  | renewed hrest =>
    rw [List.append_assoc]
    exact .renewed (hrest.append hsaid)

/-- The lease that is held is the one of the last login that was granted. -/
structure Holds (roleId secretId : String) (grant : Grant) (reading : Reading)
    (s : Place) : Prop where
  recorded : Recorded roleId secretId grant reading s.2
  lease : s.1 = .ofGrant grant reading.1

/-- What is asked of the outside when there is a fixed token. -/
def IsFixed (token : String) (exchange : Exchange Question Answer) : Prop :=
  exchange.question = .time ∨ ∃ path version, exchange.question = .read token path version

/-! ## First connections -/

theorem opened_of_connect_token
    (h : Gives (connection (.token token)).connect [] (.ok lease) history) :
    lease = .permanent token ∧ history = [] := by
  obtain ⟨hlease, rfl⟩ := gives_pure.mp h
  exact ⟨Except.ok.inj hlease, rfl⟩

theorem holds_of_connect_role
    (h : Gives (connection (.role roleId secretId)).connect [] (.ok lease) history) :
    ∃ grant reading, Holds roleId secretId grant reading (lease, history) := by
  obtain ⟨answer, later, hlogin, h⟩ := gives_bind.mp h
  obtain rfl := Dialogue.gives_question.mp hlogin
  rcases answer with e | grant
  · exact absurd (gives_pure.mp h).1 (by simp)
  · obtain ⟨_, last, hclock, h⟩ := gives_bind.mp h
    obtain ⟨reading, rfl, rfl⟩ := gives_now.mp hclock
    obtain ⟨hlease, rfl⟩ := gives_pure.mp h
    exact ⟨grant, reading, .opened ungranted_nil, Except.ok.inj hlease⟩

/-! ## Runs -/

theorem gives_read_of_perform (h : Gives (perform auth call) s () t) :
    ∃ r, Gives (read auth call) s r t :=
  gives_bind_unit.mp h

/-- **A read keeps a recorded lease or records a new one.** -/
theorem Holds.after (hs : Holds roleId secretId grant reading s)
    (h : Gives (read (.role roleId secretId) call) s r t) :
    ∃ grant reading, Holds roleId secretId grant reading t := by
  obtain ⟨now, said, ht, hturn⟩ := turn_of_gives h
  have hkept (hsaid : Ungranted said) (hlease : t.1 = s.1) :
      ∃ grant reading, Holds roleId secretId grant reading t := by
    refine ⟨grant, reading, ?_, hlease.trans hs.lease⟩
    rw [ht]
    exact hs.recorded.append (hsaid.time now)
  generalize hlease : t.1 = lease at hturn
  cases hturn with
  | sent => exact hkept (ungranted_read _ _ _ _) hlease
  | refused => exact hkept (ungranted_nil.cons (by simp)) hlease
  | @renewed roleId' secretId' grant' answer hauth _ =>
    obtain ⟨rfl, rfl⟩ := Auth.role.inj hauth
    refine ⟨grant', now, ?_, hlease⟩
    rw [ht]
    exact .renewed (ungranted_read _ _ _ _)

/-- **With a role, the lease is recorded from the last login that was granted**, after any run. -/
theorem holds_of_run (hs : Holds roleId secretId grant reading s)
    (h : Run (perform (.role roleId secretId)) s steps t) :
    ∃ grant reading, Holds roleId secretId grant reading t := by
  induction h with
  | start => exact ⟨grant, reading, hs⟩
  | call call _ hcall ih =>
    obtain ⟨grant', reading', hu⟩ := ih
    obtain ⟨r, hread⟩ := gives_read_of_perform hcall
    exact hu.after hread

/-- A read with a fixed token asks for the time and for the secret. -/
theorem fixed_of_read (hlease : s.1 = .permanent token)
    (h : Gives (read (.token token) call) s r t) :
    t.1 = s.1 ∧ ∃ now answer,
      t.2 = s.2 ++ [⟨.time, now⟩, ⟨.read token call.path call.version, answer⟩] ∧
        r = answer.mapError VaultError.toKeyError := by
  obtain ⟨now, said, ht, hturn⟩ := turn_of_gives h
  generalize hleft : t.1 = left at hturn
  cases hturn with
  | refused hauth _ => exact absurd hauth (by simp)
  | renewed hauth _ => exact absurd hauth (by simp)
  | @sent answer _ =>
    rw [hlease] at ht
    exact ⟨rfl, now, answer, ht, rfl⟩

/-- What is said in such a read is no login. -/
theorem forall_isFixed_append (h : ∀ exchange ∈ history, IsFixed token exchange) (now : Reading)
    (path : String) (version : Option Version) (answer : Except VaultError Secret) :
    ∀ exchange ∈ history ++ [⟨.time, now⟩, ⟨.read token path version, answer⟩],
      IsFixed token exchange := by
  refine List.forall_mem_append.mpr ⟨h, List.forall_mem_cons.mpr ⟨.inl rfl, ?_⟩⟩
  exact List.forall_mem_singleton.mpr (.inr ⟨path, version, rfl⟩)

/-- **With a fixed token, there is never a login**, after any run. -/
theorem fixed_of_run (hlease : s.1 = .permanent token)
    (hs : ∀ exchange ∈ s.2, IsFixed token exchange) (h : Run (perform (.token token)) s steps t) :
    t.1 = .permanent token ∧ ∀ exchange ∈ t.2, IsFixed token exchange := by
  induction h with
  | start => exact ⟨hlease, hs⟩
  | call call _ hcall ih =>
    obtain ⟨hheld, hfixed⟩ := ih
    obtain ⟨r, hread⟩ := gives_read_of_perform hcall
    obtain ⟨hkept, now, answer, hsaid, -⟩ := fixed_of_read hheld hread
    refine ⟨hkept.trans hheld, ?_⟩
    rw [hsaid]
    exact forall_isFixed_append hfixed now _ _ answer

/-! ## What a turn says -/

namespace Turn

variable {now : Instant} {left : Lease} {path : String} {version : Option Version}
  {answer : Except VaultError Secret} {before after : History}

/-- The clock is read once in a read. -/
theorem question_ne_time (h : Turn auth call lease now said r left) :
    ∀ exchange ∈ said, exchange.question ≠ .time := by
  cases h <;> simp

/-- **A login is tried exactly if the lease has ended**, and once. -/
theorem logins_eq (h : Turn (.role roleId secretId) call lease now said r left) :
    logins said = if lease.isExpiredAt now then [(roleId, secretId)] else [] := by
  cases h with
  | sent hlive =>
    obtain hlive | ⟨token, hauth⟩ := hlive
    · rw [hlive]
      rfl
    · exact absurd hauth (by simp)
  | refused hauth hended =>
    obtain ⟨rfl, rfl⟩ := Auth.role.inj hauth
    rw [if_pos hended]
    rfl
  | renewed hauth hended =>
    obtain ⟨rfl, rfl⟩ := Auth.role.inj hauth
    rw [if_pos hended]
    rfl

/-- Only a login that is refused keeps a read from being sent. -/
theorem refused_or_sent (h : Turn (.role roleId secretId) call lease now said r left) :
    (∃ e, ⟨.login roleId secretId, .error e⟩ ∈ said) ∨
      ∃ token answer, ⟨.read token call.path call.version, answer⟩ ∈ said := by
  cases h with
  | sent => exact .inr ⟨_, _, .head _⟩
  | refused hauth =>
    obtain ⟨rfl, rfl⟩ := Auth.role.inj hauth
    exact .inl ⟨_, .head _⟩
  | renewed => exact .inr ⟨_, _, .tail _ (.head _)⟩

/-- **A login that is refused ends the read with its error**, and leaves the lease alone. -/
theorem of_refused (h : Turn auth call lease now said r left) {e : VaultError}
    (hmem : ⟨.login roleId secretId, .error e⟩ ∈ said) :
    said = [⟨.login roleId secretId, .error e⟩] ∧ r = .error e.toKeyError ∧ left = lease ∧
      lease.isExpiredAt now = true := by
  cases h with
  | sent => simp at hmem
  | refused _ hended =>
    cases List.mem_singleton.mp hmem
    exact ⟨rfl, rfl, rfl, hended⟩
  | renewed => simp at hmem

/-- **A read is the last thing that is said**, with the token of the lease that is left, and it
gives the answer. -/
theorem of_read (h : Turn (.role roleId secretId) call lease now said r left)
    (hsaid : said = before ++ ⟨.read token path version, answer⟩ :: after) :
    (before = [] ∧ left = lease ∧ lease.isExpiredAt now = false ∨
      ∃ grant, before = [⟨.login roleId secretId, .ok grant⟩] ∧ left = .ofGrant grant now) ∧
      token = left.token ∧ path = call.path ∧ version = call.version ∧ after = [] ∧
        r = answer.mapError VaultError.toKeyError := by
  cases h with
  | sent hheld =>
    have hlive : lease.isExpiredAt now = false :=
      hheld.resolve_right fun ⟨_, hauth⟩ => absurd hauth (by simp)
    obtain ⟨rfl, hsaid⟩ | ⟨_, _, hsaid⟩ := List.cons_eq_append_iff.mp hsaid
    · cases hsaid
      exact ⟨.inl ⟨rfl, rfl, hlive⟩, rfl, rfl, rfl, rfl, rfl⟩
    · exact absurd hsaid (by simp)
  | refused =>
    obtain ⟨rfl, hsaid⟩ | ⟨_, _, hsaid⟩ := List.cons_eq_append_iff.mp hsaid
    · cases hsaid
    · exact absurd hsaid (by simp)
  | @renewed _ _ grant _ hauth _ =>
    obtain ⟨rfl, rfl⟩ := Auth.role.inj hauth
    obtain ⟨rfl, hfirst⟩ | ⟨rest, rfl, hrest⟩ := List.cons_eq_append_iff.mp hsaid
    · cases hfirst
    · obtain ⟨rfl, hlast⟩ | ⟨_, _, hsaid⟩ := List.cons_eq_append_iff.mp hrest
      · cases hlast
        exact ⟨.inr ⟨grant, rfl, rfl⟩, rfl, rfl, rfl, rfl, rfl⟩
      · exact absurd hsaid (by simp)

end Turn

/-! ## The discipline -/

/-- The lease ends as counted from the reading of the clock: after the time that was granted, and at
the end of the calendar at the latest.  Without any time it has no end. -/
def EndsAsCounted (grant : Grant) (reading : Reading) (lease : Lease) : Prop :=
  reading.1.IsTold → (reading.1.isLeap = false ∨ nanosPerSecond ≤ grant.lease.nanos) →
    lease.endsAt = Lease.countedEnd reading.1 grant.lease.nanos

theorem endsAsCounted_ofGrant (grant : Grant) (reading : Reading) :
    EndsAsCounted grant reading (.ofGrant grant reading.1) :=
  fun htold hwhole => Lease.endsAt_ofGrant grant htold hwhole

/-- What a read over a connection with a role does, that begins at the one place and ends at the
other, and what is said in it after the clock was read. -/
structure Disciplined (roleId secretId : String) (call : Call) (s t : Place)
    (r : Except KeyError Secret) (now : Reading) (said : History) : Prop where
  /-- The clock is not read again. -/
  clock : ∀ exchange ∈ said, exchange.question ≠ .time
  /-- The lease that is held is the one of the last login that was granted; if it was granted for no
  time, there is no login. -/
  held : ∃ grant reading, Holds roleId secretId grant reading s ∧
    (grant.lease.nanos = 0 → logins said = [])
  /-- A login is tried exactly if the lease has ended, and once. -/
  renews : logins said = if s.1.isExpiredAt now.1 then [(roleId, secretId)] else []
  /-- A request for a secret carries the token of the last login that was granted before it.  The
  lease of this login, which is held from then on, ends as counted from the reading of the clock
  that belongs to the login, and it has not ended. -/
  live {token path : String} {version : Option Version} {answer : Except VaultError Secret}
    {before after : History} : said = before ++ ⟨.read token path version, answer⟩ :: after →
      ∃ grant reading, Recorded roleId secretId grant reading (s.2 ++ ⟨.time, now⟩ :: before) ∧
        token = grant.token ∧ t.1 = .ofGrant grant reading.1 ∧ EndsAsCounted grant reading t.1 ∧
          t.1.isExpiredAt now.1 = false
  /-- It asks for what is to be read and comes last, and its answer is given. -/
  answered {token path : String} {version : Option Version} {answer : Except VaultError Secret}
    {before after : History} : said = before ++ ⟨.read token path version, answer⟩ :: after →
      path = call.path ∧ version = call.version ∧ after = [] ∧
        r = answer.mapError VaultError.toKeyError
  /-- Only a login that is refused keeps it from being sent. -/
  sends : (∃ e, ⟨.login roleId secretId, .error e⟩ ∈ said) ∨
    ∃ token answer, ⟨.read token call.path call.version, answer⟩ ∈ said
  /-- A login that is refused is all that is said.  Its error is given, and the lease stays. -/
  refused {e : VaultError} : ⟨.login roleId secretId, .error e⟩ ∈ said →
    said = [⟨.login roleId secretId, .error e⟩] ∧ r = .error e.toKeyError ∧ t.1 = s.1
  /-- So the next read tries again: it logs in exactly if this lease has ended for it, as it has
  unless the clock goes back. -/
  again {e : VaultError} {next : Call} {u : Place} {r' : Except KeyError Secret} :
    ⟨.login roleId secretId, .error e⟩ ∈ said →
    Gives (read (.role roleId secretId) next) t r' u →
      ∃ later rest, u.2 = t.2 ++ ⟨.time, later⟩ :: rest ∧
        logins rest = (if s.1.isExpiredAt later.1 then [(roleId, secretId)] else []) ∧
          (now.1 ≤ later.1 → logins rest = [(roleId, secretId)])

/-- **A request for a secret carries a token whose lease has not ended**, be it the one that is held
or a new one. -/
theorem Holds.live (hs : Holds roleId secretId grant reading s) {now : Reading}
    (hturn : Turn (.role roleId secretId) call s.1 now.1 said r t.1) {path : String}
    {version : Option Version} {answer : Except VaultError Secret} {before after : History}
    (hsaid : said = before ++ ⟨.read token path version, answer⟩ :: after) :
    ∃ grant reading, Recorded roleId secretId grant reading (s.2 ++ ⟨.time, now⟩ :: before) ∧
      token = grant.token ∧ t.1 = .ofGrant grant reading.1 ∧ EndsAsCounted grant reading t.1 ∧
        t.1.isExpiredAt now.1 = false := by
  obtain ⟨hbefore, rfl, -⟩ := hturn.of_read hsaid
  obtain ⟨rfl, hleft, hlive⟩ | ⟨grant', rfl, hleft⟩ := hbefore
  · have hlease : t.1 = .ofGrant grant reading.1 := hleft.trans hs.lease
    refine ⟨grant, reading, hs.recorded.append (ungranted_nil.time now), ?_, hlease, ?_, ?_⟩
    · rw [hlease]
      rfl
    · rw [hlease]
      exact endsAsCounted_ofGrant grant reading
    · rw [hleft, hlive]
  · refine ⟨grant', now, .renewed ungranted_nil, ?_⟩
    rw [hleft]
    exact ⟨rfl, rfl, endsAsCounted_ofGrant grant' now, Lease.isExpiredAt_ofGrant grant' now.2⟩

/-- A lease that has ended and was not replaced has ended for the next read too, unless the clock
goes back. -/
theorem logins_of_retry {now : Reading} {next : Call} (hended : s.1.isExpiredAt now.1 = true)
    (hkept : t.1 = s.1) (h : Gives (read (.role roleId secretId) next) t r u) :
    ∃ later rest, u.2 = t.2 ++ ⟨.time, later⟩ :: rest ∧
      logins rest = (if s.1.isExpiredAt later.1 then [(roleId, secretId)] else []) ∧
        (now.1 ≤ later.1 → logins rest = [(roleId, secretId)]) := by
  obtain ⟨later, rest, hu, hturn⟩ := turn_of_gives h
  have hlogins := hturn.logins_eq
  rw [hkept] at hlogins
  refine ⟨later, rest, hu, hlogins, fun hforward => ?_⟩
  rw [hlogins, if_pos (Lease.isExpiredAt_mono hended hforward)]

/-- **With a recorded lease, a read is disciplined.** -/
theorem Holds.disciplined (hs : Holds roleId secretId grant reading s)
    (h : Gives (read (.role roleId secretId) call) s r t) :
    ∃ now said, t.2 = s.2 ++ ⟨.time, now⟩ :: said ∧
      Disciplined roleId secretId call s t r now said := by
  obtain ⟨now, said, ht, hturn⟩ := turn_of_gives h
  refine ⟨now, said, ht, ?_⟩
  exact {
    clock := hturn.question_ne_time
    held := by
      refine ⟨grant, reading, hs, fun hendless => ?_⟩
      rw [hturn.logins_eq, hs.lease, Lease.isExpiredAt_of_endless hendless]
      rfl
    renews := hturn.logins_eq
    live := hs.live hturn
    answered := fun hsaid => (hturn.of_read hsaid).2.2
    sends := hturn.refused_or_sent
    refused := fun hmem => by
      obtain ⟨hsaid, hr, hkept, -⟩ := hturn.of_refused hmem
      exact ⟨hsaid, hr, hkept⟩
    again := fun hmem hnext => by
      obtain ⟨-, -, hkept, hended⟩ := hturn.of_refused hmem
      exact logins_of_retry hended hkept hnext }

/-- **Every read of a connection carries a token whose lease has not ended**, after any run and for
all sessions and clocks.  With a role, it is the token of the last login that was granted, and a
login is tried exactly if the lease has ended.  With a fixed token, there is no login. -/
theorem reads_with_live_lease
    (hopened : Gives (connection auth).connect [] (.ok lease) history)
    (hrun : Run (perform auth) (lease, history) steps s) (h : Gives (read auth call) s r t) :
    (∀ roleId secretId, auth = .role roleId secretId → ∃ now said,
      t.2 = s.2 ++ ⟨.time, now⟩ :: said ∧ Disciplined roleId secretId call s t r now said) ∧
    ∀ token, auth = .token token → (∀ exchange ∈ t.2, IsFixed token exchange) ∧
      ∃ now answer, t.2 = s.2 ++ [⟨.time, now⟩, ⟨.read token call.path call.version, answer⟩] ∧
        r = answer.mapError VaultError.toKeyError := by
  constructor
  · rintro roleId secretId rfl
    obtain ⟨grant, reading, hfirst⟩ := holds_of_connect_role hopened
    obtain ⟨grant', reading', hs⟩ := holds_of_run hfirst hrun
    exact hs.disciplined h
  · rintro token rfl
    obtain ⟨rfl, rfl⟩ := opened_of_connect_token hopened
    obtain ⟨hheld, hfixed⟩ := fixed_of_run rfl (fun _ hmem => absurd hmem List.not_mem_nil) hrun
    obtain ⟨-, now, answer, ht, hr⟩ := fixed_of_read hheld h
    refine ⟨?_, now, answer, ht, hr⟩
    rw [ht]
    exact forall_isFixed_append hfixed now _ _ answer

/-! ## A login that is refused -/

/-- A role. -/
def workerRole : Auth := .role "worker" "secret"

/-- Its first login is granted for a minute. -/
def minuteGrant : Grant := ⟨"first", .ofSeconds 60, true⟩

/-- Every half minute, the clock is read. -/
def halfMinutes (readings : Nat) : Reading :=
  if h : Instant.ofSecond (100 + 30 * readings) < .last then ⟨_, h⟩ else ⟨.ofSecond 0, by decide⟩

/-- Only the first login is granted. -/
def grantOnce (history : History) : (q : Question) → Answer q
  | .time => halfMinutes (history.countP fun exchange => exchange.question matches .time)
  | .login _ _ => if logins history = [] then .ok minuteGrant else .error (.login "denied")
  | .read _ _ _ => .ok ⟨[("key", "a2V5")], none⟩

/-- Carries reads out with these answers. -/
def grantingOnce : Execution (StateT Lease Outside) := (Dialogue.responsive grantOnce).layer

/-- The lease and the history after the first login. -/
def firstLogin : Place :=
  (.ofGrant minuteGrant (halfMinutes 0).1,
    [⟨.login "worker" "secret", .ok minuteGrant⟩, ⟨.time, halfMinutes 0⟩])

/-- The newest key is read after half a minute. -/
def halfway : List (Step Call Place) × Place :=
  grantingOnce.follow (perform workerRole) firstLogin [⟨"kv/orders", none⟩]

/-- An old one is to be read after the whole minute. -/
def minuteLater : Except KeyError Secret × Place :=
  grantingOnce.run (read workerRole ⟨"kv/orders", some 3⟩) halfway.2

theorem gives_firstLogin :
    Gives (connection workerRole).connect [] (.ok firstLogin.1) firstLogin.2 :=
  (Dialogue.responsive grantOnce).gives_run (connection workerRole).connect []

/-- The minute is over, so another login is tried, and it is refused. -/
theorem reads_with_live_lease_refused :
    Gives (connection workerRole).connect [] (.ok firstLogin.1) firstLogin.2 ∧
      Run (perform workerRole) firstLogin halfway.1 halfway.2 ∧
      Gives (read workerRole ⟨"kv/orders", some 3⟩) halfway.2 minuteLater.1 minuteLater.2 ∧
      minuteLater.1 = .error (VaultError.login "denied").toKeyError ∧
      ∃ now said, minuteLater.2.2 = halfway.2.2 ++ ⟨.time, now⟩ :: said ∧
        Disciplined "worker" "secret" ⟨"kv/orders", some 3⟩ halfway.2 minuteLater.2
          minuteLater.1 now said := by
  have hrun : Run (perform workerRole) firstLogin halfway.1 halfway.2 :=
    grantingOnce.run_follow (perform workerRole) firstLogin [⟨"kv/orders", none⟩]
  have hread : Gives (read workerRole ⟨"kv/orders", some 3⟩) halfway.2 minuteLater.1
      minuteLater.2 :=
    grantingOnce.gives_run (read workerRole ⟨"kv/orders", some 3⟩) halfway.2
  refine ⟨gives_firstLogin, hrun, hread, rfl, ?_⟩
  exact (reads_with_live_lease gives_firstLogin hrun hread).1 "worker" "secret" rfl

end Renewal

end TopicCipher.Vault
