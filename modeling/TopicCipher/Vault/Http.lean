import TopicCipher.Text.Lossy
import TopicCipher.Vault.Connection

/-!
# Sessions over HTTP

`HttpSession` makes the requests of a session and hands them to a transport, which carries one
request out and returns one response.  How an address is read, which texts can be the value of a
header and whom to reach over which network is the business of the transport.  Whatever goes wrong
with a request there, it got no response.

A response counts if its status is between 200 and 299; its body is read as text whatever it is.
A login that fails on the way is reported as a failed login, but a login response that makes no
sense is not.
-/

namespace TopicCipher.Vault

/-- The settings of a session over HTTP. -/
structure HttpOptions where
  /-- The base of all addresses. -/
  address : String
  /-- Where the secrets are mounted. -/
  mount : String
  namespaceName : Option String
  /-- How long a request may take, in seconds. -/
  timeoutSeconds : Nat
  deriving DecidableEq, Repr

namespace HttpOptions

/-- The settings when nothing is configured. -/
def standard : HttpOptions := ⟨"", "secret", none, 15⟩

/-- The settings that a JSON value stands for. -/
def ofJson? (j : Json) : Option HttpOptions :=
  match j.record? ["address", "mount", "namespace", "requestTimeoutSecs"] 0 with
  | some [address, mount, namespaceName, timeout] => do
    some
      { address := ← Json.withDefault standard.address Json.text? address
        mount := ← Json.withDefault standard.mount Json.text? mount
        namespaceName := ← Json.optional Json.text? namespaceName
        timeoutSeconds := ← Json.withDefault standard.timeoutSeconds Json.word64? timeout }
  | _ => none

/-- The settings in a text. -/
def ofText? (text : String) : Option HttpOptions := (Json.ofText? text).bind ofJson?

end HttpOptions

/-- The method of a request. -/
inductive Method where
  | get
  | post
  deriving DecidableEq, Repr

/-- A request. -/
structure Request where
  method : Method
  address : String
  headers : List (String × String)
  /-- What is sent along, as JSON. -/
  body : Option Json

/-- A response. -/
structure Response where
  status : Nat
  body : Bytes
  deriving DecidableEq, Repr

/-- Carries a request out and returns its response, or says why there is none. -/
abbrev Transport (m : Type → Type) := Request → m (Except String Response)

/-- The header of the token. -/
def tokenHeader : String := "X-Vault-Token"

/-- The header of the namespace. -/
def namespaceHeader : String := "X-Vault-Namespace"

/-- A session over HTTP, by its settings. -/
structure HttpSession where
  options : HttpOptions
  deriving DecidableEq, Repr

namespace HttpSession

/-- The session with the given settings, which have to name an address. -/
def ofOptions (options : HttpOptions) : Except VaultError HttpSession :=
  if Text.isBlankText options.address then .error (.configuration .noAddress) else .ok ⟨options⟩

/-- Drops slashes in front. -/
def dropSlashes (text : String) : List Char := text.toList.dropWhile (· = '/')

/-- The address of a path of the interface. -/
def address (s : HttpSession) (path : String) : String :=
  String.ofList
    (Text.dropEndWhile (· = '/') s.options.address.toList ++ '/' :: dropSlashes path)

/-- The path of the interface for the secret at a path. -/
def dataPath (s : HttpSession) (path : String) (version : Option Version) : String :=
  let mount := String.ofList (Text.dropEndWhile (· = '/') (dropSlashes s.options.mount))
  s!"v1/{mount}/data/{String.ofList (dropSlashes path)}" ++
    version.elim "" fun v => s!"?version={v.text}"

/-- The path of the interface for logins. -/
def loginPath : String := "v1/auth/approle/login"

/-- The request for a path of the interface. -/
def request (s : HttpSession) (method : Method) (path : String)
    (headers : List (String × String)) (body : Option Json) : Request :=
  { method
    address := s.address path
    headers := headers ++ (s.options.namespaceName.map (namespaceHeader, ·)).toList
    body }

variable {m : Type → Type} [Monad m]

/-- Makes a request and returns the body of its response. -/
def exchange (s : HttpSession) (transport : Transport m) (method : Method) (path : String)
    (headers : List (String × String)) (body : Option Json) : m (Except VaultError String) := do
  match ← transport (s.request method path headers body) with
  | .error reason => return .error (.transport reason)
  | .ok response =>
    if 200 ≤ response.status ∧ response.status < 300 then
      return .ok (Text.lossyText response.body)
    else return .error (.status response.status path)

/-- Exchanges the credentials of a role for a token. -/
def login (s : HttpSession) (transport : Transport m) (roleId secretId : String) :
    m (Except VaultError Grant) := do
  let credentials : Json :=
    .object [(some "role_id", .string roleId), (some "secret_id", .string secretId)]
  match ← s.exchange transport .post loginPath [] (some credentials) with
  | .error e => return .error (.login e.message)
  | .ok body => return readGrant body

/-- Reads the secret at a path. -/
def read (s : HttpSession) (transport : Transport m) (token path : String)
    (version : Option Version) : m (Except VaultError Secret) := do
  match ← s.exchange transport .get (s.dataPath path version) [(tokenHeader, token)] none with
  | .error e => return .error e
  | .ok body => return readSecret body

/-- The session over a transport. -/
def session (s : HttpSession) (transport : Transport m) : Session m where
  login := s.login transport
  read := s.read transport

end HttpSession

/-- The connection with the given settings over a transport, not yet authenticated.  Wrong
credentials are found before a missing address. -/
def httpConnection {m : Type → Type} [Monad m] (transport : Transport m) (now : m Instant)
    (options : HttpOptions) (settings : AuthSettings) : Except VaultError (Connection m) := do
  let auth ← settings.resolve.mapError VaultError.configuration
  let s ← HttpSession.ofOptions options
  return { session := s.session transport, auth, now }

/-- The secret store that is reached by such connections.  All of an open connection but its lease
is in the settings.  `client` tells why no client for HTTP can be built, if so. -/
def httpStore {m : Type → Type} [Monad m] (transport : Transport m) (now : m Instant)
    (client : m (Option String)) (options : HttpOptions) (settings : AuthSettings) :
    SecretStore m Lease where
  connect := do
    match httpConnection transport now options settings with
    | .error e => return .error e.toKeyError
    | .ok c =>
      match ← client with
      | some reason =>
        return .error (.configuration (.other s!"failed to build HTTP client: {reason}"))
      | none => c.store.connect
  read path version := do
    match httpConnection transport now options settings with
    | .error e => return .error e.toKeyError
    | .ok c => c.store.read path version

end TopicCipher.Vault
