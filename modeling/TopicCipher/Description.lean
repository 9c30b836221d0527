import TopicCipher.KeyCache.Entry
import TopicCipher.Text.Quoted
import TopicCipher.Time.Timestamp
import TopicCipher.TopicKey
import TopicCipher.Vault.Connection

/-!
# Descriptions for logs

A description names a value's type and its fields.  It never shows key material, tokens or secret
identifiers: a mark stands in their place, so that descriptions may go into logs.
-/

namespace TopicCipher.Description

/-- The mark in the place of a secret. -/
def redacted : String := "<redacted>"

/-- A value with named fields. -/
def record (name : String) (fields : List (String × String)) : String :=
  let body := ", ".intercalate (fields.map fun (field, value) => field ++ ": " ++ value)
  name ++ " \x7b " ++ body ++ " \x7d"

/-- A value that may be missing. -/
def optional (describe : α → String) : Option α → String
  | none => "None"
  | some a => "Some(" ++ describe a ++ ")"

/-- Values in a row. -/
def list (describe : α → String) (values : List α) : String :=
  "[" ++ ", ".intercalate (values.map describe) ++ "]"

/-- A truth value. -/
def ofBool (b : Bool) : String := if b then "true" else "false"

/-- A fraction of so many digits without trailing zeros, with a point in front. -/
def fraction (width n : Nat) : String :=
  match Text.dropEndWhile (· = '0') (Timestamp.paddedDigits width n) with
  | [] => ""
  | digits => String.ofList ('.' :: digits)

/-- A span in its largest whole unit. -/
def ofSpan (d : Span) : String :=
  if 0 < d.seconds then s!"{d.seconds}{fraction 9 d.subsecond}s"
  else if nanosPerMilli ≤ d.nanos then
    s!"{d.millis}{fraction 6 (d.nanos % nanosPerMilli)}ms"
  else if 1000 ≤ d.nanos then s!"{d.nanos / 1000}{fraction 3 (d.nanos % 1000)}µs"
  else s!"{d.nanos}ns"

/-- A secret text, of which only its presence shows. -/
def secret (_ : String) : String := Text.quote redacted

/-- A generation of a key. -/
def ofKeyVersion (k : KeyVersion) : String :=
  record "KeyVersion"
    [("version", k.version.text), ("key_attribute_name", optional Text.quote k.keyName),
      ("encoded_key", secret k.material)]

/-- An entry of the key cache. -/
def ofCacheEntry (e : CacheEntry) : String :=
  record "CacheEntry"
    [("topic", Text.quote e.topic), ("version", e.key.version.text),
      ("key_attribute_name", optional Text.quote e.key.keyName),
      ("encoded_key", secret e.key.material),
      ("expire_at", optional Timestamp.text e.expiresAt)]

/-- The metadata of a secret. -/
def ofMetadata (m : SecretMetadata) : String :=
  record "SecretMetadata"
    [("version", m.version.text), ("created_time", Timestamp.text m.created)]

/-- A secret, of which only the names show, in order. -/
def ofSecret (s : Secret) : String :=
  record "SecretResponse"
    [("attributes", list Text.quote ((s.attributes.map (·.1)).mergeSort (· ≤ ·))),
      ("metadata", optional ofMetadata s.metadata)]

/-- A key, of which nothing shows. -/
def ofTopicKey (_ : TopicKey) : String := "TopicKey(..)"

/-- Configured credentials. -/
def ofAuthSettings (s : Vault.AuthSettings) : String :=
  record "AuthSettings"
    [("token", optional secret s.token), ("role_id", optional Text.quote s.roleId),
      ("secret_id", optional secret s.secretId)]

/-- Credentials in use. -/
def ofAuth : Vault.Auth → String
  | .token _ => "Token(" ++ redacted ++ ")"
  | .role roleId secretId =>
    record "AppRole" [("role_id", Text.quote roleId), ("secret_id", secret secretId)]

/-- A grant. -/
def ofGrant (g : Vault.Grant) : String :=
  record "LoginGrant"
    [("client_token", secret g.token), ("lease_duration", ofSpan g.lease),
      ("renewable", ofBool g.renewable)]

/-- An authenticated connection. -/
def ofConnection (auth : Vault.Auth) (lease : Vault.Lease) : String :=
  record "TokenRenewingConnection"
    [("auth", ofAuth auth), ("expires_at", optional Timestamp.text lease.endsAt),
      ("renewable", ofBool lease.renewable)]

end TopicCipher.Description
