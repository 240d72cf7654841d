import Pzdr.Enclave.Transparency
import Pzdr.Tools.Transparency
import Pzdr.Sdk.Transparency
import Pzdr.Log.Consistency
import Pzdr.Log.Inclusion
import Pzdr.Audit.Policy
import Pzdr.Sdk.Client
import Pzdr.Audit.Commitment
import Pzdr.Audit.Checkpoints
import Pzdr.Audit.Heads
import Pzdr.Audit.Kinds
import Pzdr.Audit.Receipt
import Pzdr.Audit.Reply
import Pzdr.Audit.Request
import Pzdr.Run
import Pzdr.Enclave.Machine
import Pzdr.Log.Agreement
import Pzdr.Audit.Chain
import Pzdr.Cbor
import Pzdr.Nitro.Document
import Pzdr.Audit.Measurement
import Pzdr.Tools.Python
import Pzdr.Tools.Verify
import Pzdr.Enclave.Attestation
import Pzdr.Audit.Auditor
import Pzdr.Log.Digests
import Pzdr.Audit.Bundle
import Pzdr.Audit.CertificatePath
import Pzdr.Audit.Attestation
import Pzdr.Audit.Canonical
import Pzdr.Lines
import Pzdr.Metering.Event
import Pzdr.Metering.Queue
import Pzdr.Metering.Faults
import Pzdr.Interleave
import Pzdr.Metering.Concurrent
import Pzdr.Metering.Payload
import Pzdr.Audit.BundleOrder
import Pzdr.Log.Position
import Pzdr.Audit.Pipeline
import Pzdr.Audit.PolicyAscii
import Pzdr.Audit.Freshness
import Pzdr.BigEndian
import Pzdr.Metering.Scope
import Pzdr.Log.Reference
import Pzdr.Enclave.Descent
import Pzdr.Text
import Pzdr.Vsock
import Pzdr.Enclave.Dispatch
import Pzdr.Proxy.Forward
import Pzdr.Audit.Base64
import Pzdr.Sdk.HexDecode
import Pzdr.Enclave.Server
import Pzdr.Audit.Service
import Pzdr.Json.Read
import Pzdr.Proxy.Handlers
import Pzdr.Gateway
import Pzdr.Audit.Gateway
import Pzdr.Audit.Bundles
import Pzdr.Audit.Script
import Pzdr.Audit.Passed
import Pzdr.Enclave.Boot
import Pzdr.Fleet
import Pzdr.Sdk.Trust
import Pzdr.Audit.Trust
import Pzdr.Audit.Published
import Pzdr.Json.Width
import Pzdr.Audit.Delivery
import Pzdr.Audit.Verifier
