import MlsTls.EncryptionProvider.Accounting
import MlsTls.EncryptionProvider.Connect
import MlsTls.EncryptionProvider.Delivery
import MlsTls.EncryptionProvider.Duplex
import MlsTls.EncryptionProvider.Hub
import MlsTls.EncryptionProvider.Intruder
import MlsTls.EncryptionProvider.Link
import MlsTls.EncryptionProvider.Lockstep
import MlsTls.EncryptionProvider.PolicyArithmetic
import MlsTls.EncryptionProvider.Provider
import MlsTls.EncryptionProvider.ReadInterfaces
import MlsTls.EncryptionProvider.ResumedKeys
import MlsTls.EncryptionProvider.ServerKeys
import MlsTls.EncryptionProvider.Settling
import MlsTls.EncryptionProvider.Stream
import MlsTls.EncryptionProvider.StreamEnd
import MlsTls.EncryptionProvider.UpdatePolicy
import MlsTls.EncryptionProvider.Values
import MlsTls.Lib.Directory
import MlsTls.Lib.Exec
import MlsTls.Lib.Framing
import MlsTls.Lib.Noninterference
import MlsTls.Lib.Queues
import MlsTls.Lib.Run
import MlsTls.Lib.Sink
import MlsTls.Lib.Steps
import MlsTls.Lib.Wire
import MlsTls.Lib.Xor
import MlsTls.MlsHandshake.Agreement
import MlsTls.MlsHandshake.Atomicity
import MlsTls.MlsHandshake.Client
import MlsTls.MlsHandshake.ClientProcess
import MlsTls.MlsHandshake.ClientSpec
import MlsTls.MlsHandshake.Epochs
import MlsTls.MlsHandshake.Establish
import MlsTls.MlsHandshake.Exchange
import MlsTls.MlsHandshake.Handshake
import MlsTls.MlsHandshake.Invariant
import MlsTls.MlsHandshake.Isolation
import MlsTls.MlsHandshake.Locality
import MlsTls.MlsHandshake.Messages
import MlsTls.MlsHandshake.MlsGroup
import MlsTls.MlsHandshake.OldVersions
import MlsTls.MlsHandshake.OpenMls
import MlsTls.MlsHandshake.OtherVersions
import MlsTls.MlsHandshake.Panics
import MlsTls.MlsHandshake.Persisted
import MlsTls.MlsHandshake.Persistence
import MlsTls.MlsHandshake.Processing
import MlsTls.MlsHandshake.Profiles
import MlsTls.MlsHandshake.Reaction
import MlsTls.MlsHandshake.Recovery
import MlsTls.MlsHandshake.Rekey
import MlsTls.MlsHandshake.Resumption
import MlsTls.MlsHandshake.Roster
import MlsTls.MlsHandshake.Sample
import MlsTls.MlsHandshake.Server
import MlsTls.MlsHandshake.ServerEpochs
import MlsTls.MlsHandshake.ServerHost
import MlsTls.MlsHandshake.ServerSpec
import MlsTls.MlsHandshake.System
import MlsTls.MlsHandshake.TwoParty
import MlsTls.MlsHandshake.WireTypes
import MlsTls.PreHandshake
import MlsTls.PskConnections
import MlsTls.TlsAead.Aead
import MlsTls.TlsAead.Backpressure
import MlsTls.TlsAead.ChannelNonces
import MlsTls.TlsAead.Codec
import MlsTls.TlsAead.Headers
import MlsTls.TlsAead.Integrity
import MlsTls.TlsAead.KeyGeneration
import MlsTls.TlsAead.KeySwitch
import MlsTls.TlsAead.Nonces
import MlsTls.TlsAead.Pipeline
import MlsTls.TlsAead.Receive
import MlsTls.TlsAead.RecordNonce
import MlsTls.TlsAead.Sample
import MlsTls.TlsAead.StreamSink
