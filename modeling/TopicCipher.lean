import TopicCipher.Description
import TopicCipher.Engine.Fields
import TopicCipher.Envelope.Field
import TopicCipher.Envelope.Headers
import TopicCipher.Error
import TopicCipher.KeyCache.Source
import TopicCipher.Proofs.Cipher.KeyMaterial
import TopicCipher.Proofs.Determined
import TopicCipher.Proofs.Engine.Authenticity
import TopicCipher.Proofs.Engine.Conversations
import TopicCipher.Proofs.Engine.Freshness
import TopicCipher.Proofs.Engine.HeaderRoundTrip
import TopicCipher.Proofs.Engine.PlainFields
import TopicCipher.Proofs.Envelope.Descriptor
import TopicCipher.Proofs.Json.Records
import TopicCipher.Proofs.KeyCache.Best
import TopicCipher.Proofs.KeyCache.Blocks
import TopicCipher.Proofs.KeyCache.Damage
import TopicCipher.Proofs.KeyCache.Litter
import TopicCipher.Proofs.KeyCache.RoundTrip
import TopicCipher.Proofs.Shared.Ambiguity
import TopicCipher.Proofs.Shared.Containment
import TopicCipher.Proofs.Shared.Frame
import TopicCipher.Proofs.Shared.Lifetime
import TopicCipher.Proofs.Shared.Outage
import TopicCipher.Proofs.Shared.Provenance
import TopicCipher.Proofs.Shared.Refresh
import TopicCipher.Proofs.Shared.Rotation
import TopicCipher.Proofs.Shared.Smooth
import TopicCipher.Proofs.Shared.Transparency
import TopicCipher.Proofs.Stack.FailClosed
import TopicCipher.Proofs.Stack.FieldRoundTrip
import TopicCipher.Proofs.Store.Agreement
import TopicCipher.Proofs.Store.OnDemand
import TopicCipher.Proofs.Time.Expiry
import TopicCipher.Proofs.Topic.Substitution
import TopicCipher.Proofs.Vault.Leases
import TopicCipher.Proofs.Vault.Outages
import TopicCipher.Topic.Settings
import TopicCipher.Vault.Http
