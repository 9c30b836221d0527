import TopicCipher.StoreKeys
import TopicCipher.Vault.Answers
import TopicCipher.Vault.Auth

/-!
# Authenticated connections

A session carries out single requests and knows nothing of tokens.  A connection is a session
with a lease: the token in use and the time when it ends.  Before every read the clock is read
once; if the lease has ended and there is a role to log in with, a new one is taken first.  A
login that fails leaves the old lease in place, so the next read tries again.

A fixed token never ends, and neither does a token that was granted for no time at all.
-/

namespace TopicCipher.Vault

/-- Single requests to the secret store. -/
structure Session (m : Type → Type) where
  login (roleId secretId : String) : m (Except VaultError Grant)
  /-- Reads the secret at a path: the given version of it, or the newest. -/
  read (token path : String) (version : Option Version) : m (Except VaultError Secret)

/-- A token in use.  Without an end it lasts forever. -/
structure Lease where
  token : String
  endsAt : Option Instant
  renewable : Bool
  deriving DecidableEq

namespace Lease

/-- The lease of a fixed token. -/
def permanent (token : String) : Lease := ⟨token, none, false⟩

/-- The end of a lease that begins now; none for a lease of no time.  An end that is too far away
to be counted is the end of the calendar. -/
def endOf (lease : Span) (now : Instant) : Option Instant :=
  if lease.nanos = 0 then none else some ((now.after? lease).getD .last)

/-- The lease of a token granted now. -/
def ofGrant (grant : Grant) (now : Instant) : Lease :=
  ⟨grant.token, endOf grant.lease now, grant.renewable⟩

/-- Holds of leases whose end has come. -/
def isExpiredAt (l : Lease) (now : Instant) : Bool := l.endsAt.any (· ≤ now)

end Lease

/-- A session with credentials and a clock. -/
structure Connection (m : Type → Type) where
  session : Session m
  auth : Auth
  now : m Instant

namespace Connection

variable {m : Type → Type} [Monad m]

/-- Authenticates, with a first login if there is a role. -/
def connect (c : Connection m) : m (Except VaultError Lease) := do
  match c.auth with
  | .token token => return .ok (.permanent token)
  | .role roleId secretId =>
    match ← c.session.login roleId secretId with
    | .error e => return .error e
    | .ok grant => return .ok (.ofGrant grant (← c.now))

/-- The token to read with, after a new login if the lease has ended. -/
def currentToken (c : Connection m) : StateT Lease m (Except VaultError String) := do
  let now ← c.now
  let lease ← get
  if lease.isExpiredAt now then
    match c.auth with
    | .token _ => return .ok lease.token
    | .role roleId secretId =>
      match ← c.session.login roleId secretId with
      | .error e => return .error e
      | .ok grant =>
        set (Lease.ofGrant grant now)
        return .ok grant.token
  else return .ok lease.token

/-- Reads the secret at a path. -/
def read (c : Connection m) (path : String) (version : Option Version) :
    StateT Lease m (Except VaultError Secret) := do
  match ← c.currentToken with
  | .error e => return .error e
  | .ok token => c.session.read token path version

/-- The connection as a secret store whose connections are leases. -/
def store (c : Connection m) : SecretStore m Lease where
  connect := do return (← c.connect).mapError VaultError.toKeyError
  read path version := do return (← c.read path version).mapError VaultError.toKeyError

end Connection

end TopicCipher.Vault
