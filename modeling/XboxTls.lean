import XboxTls.Analysis.Aes
import XboxTls.Analysis.AesGcm
import XboxTls.Analysis.AlpnSelection
import XboxTls.Analysis.ByteStrings
import XboxTls.Analysis.CertificateExtensions
import XboxTls.Analysis.CertificateList
import XboxTls.Analysis.CertificateTimes
import XboxTls.Analysis.CertificateView
import XboxTls.Analysis.ChainVerification
import XboxTls.Analysis.ChangeCipherSpec
import XboxTls.Analysis.ClientHelloEncoding
import XboxTls.Analysis.Connected
import XboxTls.Analysis.ConnectionCounts
import XboxTls.Analysis.ConsoleResources
import XboxTls.Analysis.ConsoleTrust
import XboxTls.Analysis.Deframing
import XboxTls.Analysis.Delivery
import XboxTls.Analysis.DerElements
import XboxTls.Analysis.DerEncoding
import XboxTls.Analysis.DerReaders
import XboxTls.Analysis.EcdsaSignatures
import XboxTls.Analysis.EnvironmentUse
import XboxTls.Analysis.FlightMessages
import XboxTls.Analysis.FlightRun
import XboxTls.Analysis.Fragmentation
import XboxTls.Analysis.Frames
import XboxTls.Analysis.FullDeframer
import XboxTls.Analysis.GcmStandard
import XboxTls.Analysis.Ghash
import XboxTls.Analysis.HandshakeMemory
import XboxTls.Analysis.HandshakeRun
import XboxTls.Analysis.HelloFits
import XboxTls.Analysis.HelloRun
import XboxTls.Analysis.HonestHandshake
import XboxTls.Analysis.HonestHello
import XboxTls.Analysis.HonestSession
import XboxTls.Analysis.HostNames
import XboxTls.Analysis.JacobianGroup
import XboxTls.Analysis.KeyChange
import XboxTls.Analysis.KeyExpansion
import XboxTls.Analysis.Keystream
import XboxTls.Analysis.Lifecycle
import XboxTls.Analysis.Memory
import XboxTls.Analysis.NativeCrypto
import XboxTls.Analysis.NonceUse
import XboxTls.Analysis.Overrun
import XboxTls.Analysis.P256Agreement
import XboxTls.Analysis.P256Points
import XboxTls.Analysis.P256Verify
import XboxTls.Analysis.PeerLink
import XboxTls.Analysis.PeerSession
import XboxTls.Analysis.PeerTraffic
import XboxTls.Analysis.PendingData
import XboxTls.Analysis.PlaintextLimit
import XboxTls.Analysis.RawExtensions
import XboxTls.Analysis.RecordInverse
import XboxTls.Analysis.RecordLayer
import XboxTls.Analysis.RepeatedExtensions
import XboxTls.Analysis.RsaKeys
import XboxTls.Analysis.RsaPkcs1
import XboxTls.Analysis.RsaPss
import XboxTls.Analysis.ScriptedHandshake
import XboxTls.Analysis.SecondHello
import XboxTls.Analysis.Segmentation
import XboxTls.Analysis.SendDelivery
import XboxTls.Analysis.ServerFlight
import XboxTls.Analysis.ServerHelloParsing
import XboxTls.Analysis.SessionRun
import XboxTls.Analysis.Sha256
import XboxTls.Analysis.SignatureMemory
import XboxTls.Analysis.SignedBytes
import XboxTls.Analysis.StandardSchedule
import XboxTls.Analysis.Steady
import XboxTls.Analysis.StreamIntegrity
import XboxTls.Analysis.TlvMemory
import XboxTls.Analysis.TrustAnchors
import XboxTls.Analysis.TrustStoreFormat
import XboxTls.Analysis.TwoRuns
import XboxTls.Analysis.WordNumbers
import XboxTls.Analysis.X25519
import XboxTls.Analysis.X25519Agreement
import XboxTls.Analysis.X25519Field
import XboxTls.Analysis.X509Memory
import XboxTls.Analysis.XboxMethods
import XboxTls.Interface.AesGcm
import XboxTls.Interface.AlpnSelection
import XboxTls.Interface.AppData
import XboxTls.Interface.BlankServer
import XboxTls.Interface.CertificateList
import XboxTls.Interface.CertificateParts
import XboxTls.Interface.CertificateTimes
import XboxTls.Interface.ChangeCipherSpec
import XboxTls.Interface.ClientHelloGrammar
import XboxTls.Interface.ConnectionCounts
import XboxTls.Interface.ConsoleResources
import XboxTls.Interface.ConsoleTrust
import XboxTls.Interface.Curve25519
import XboxTls.Interface.Deframing
import XboxTls.Interface.Delivery
import XboxTls.Interface.EcdsaSignatures
import XboxTls.Interface.Fragmentation
import XboxTls.Interface.Ghash
import XboxTls.Interface.HandshakeLog
import XboxTls.Interface.HandshakeMemory
import XboxTls.Interface.HonestServer
import XboxTls.Interface.HonestSession
import XboxTls.Interface.HostNames
import XboxTls.Interface.JacobianPoints
import XboxTls.Interface.KeyChange
import XboxTls.Interface.KeyExpansion
import XboxTls.Interface.Keystream
import XboxTls.Interface.Lifecycle
import XboxTls.Interface.NonceUse
import XboxTls.Interface.Overrun
import XboxTls.Interface.P256
import XboxTls.Interface.PathValidation
import XboxTls.Interface.PeerLink
import XboxTls.Interface.PeerTraffic
import XboxTls.Interface.PlainCrypto
import XboxTls.Interface.PlaintextLimit
import XboxTls.Interface.RecordStream
import XboxTls.Interface.RepeatedExtensions
import XboxTls.Interface.RsaSignatures
import XboxTls.Interface.ScriptedServer
import XboxTls.Interface.SecondHello
import XboxTls.Interface.Segmentation
import XboxTls.Interface.ServerFlight
import XboxTls.Interface.ServerHelloGrammar
import XboxTls.Interface.Sha256
import XboxTls.Interface.SignedBytes
import XboxTls.Interface.StandardSchedule
import XboxTls.Interface.StreamIntegrity
import XboxTls.Interface.TrustAnchors
import XboxTls.Interface.TrustStoreFormat
import XboxTls.Interface.WordNumbers
import XboxTls.Interface.X25519
import XboxTls.Interface.X509Memory
import XboxTls.Model.AesGcm
import XboxTls.Model.Api
import XboxTls.Model.Authentication
import XboxTls.Model.Bytes
import XboxTls.Model.Client
import XboxTls.Model.ClientHello
import XboxTls.Model.Connection
import XboxTls.Model.Crypto
import XboxTls.Model.Deframer
import XboxTls.Model.DerReaders
import XboxTls.Model.Handshake
import XboxTls.Model.HandshakeMemory
import XboxTls.Model.Hkdf
import XboxTls.Model.KeySchedule
import XboxTls.Model.Memory
import XboxTls.Model.NativeVerifier
import XboxTls.Model.P256Verify
import XboxTls.Model.Record
import XboxTls.Model.RsaVerify
import XboxTls.Model.ServerHello
import XboxTls.Model.Sha256
import XboxTls.Model.TrustStore
import XboxTls.Model.WordNumbers
import XboxTls.Model.X25519
import XboxTls.Model.X509
import XboxTls.Model.X509Memory
import XboxTls.Model.Xbox360Platform
import XboxTls.Model.XboxClient
import XboxTls.Programs.BinaryPolynomials
import XboxTls.Programs.Calendar
import XboxTls.Programs.Checked
import XboxTls.Programs.Coupled
import XboxTls.Programs.Framing
import XboxTls.Programs.Guarded
import XboxTls.Programs.Jacobian
import XboxTls.Programs.JacobianNumbers
import XboxTls.Programs.Limbs
import XboxTls.Programs.Lucas
import XboxTls.Programs.MontgomeryLadder
import XboxTls.Programs.Octets
import XboxTls.Programs.Presentation
import XboxTls.Programs.Prog
import XboxTls.Programs.Related
import XboxTls.Programs.Residues
import XboxTls.Programs.SignedLimbs
import XboxTls.Programs.WordArrays
