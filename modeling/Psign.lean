import Psign.CodeLib.Outcome
import Psign.CodeLib.Subslice
import Psign.CodeLib.Unicode
import Psign.CodeLib.Base64
import Psign.CodeLib.RustStr
import Psign.CodeLib.Slice
import Psign.CodeLib.Bytes
import Psign.CodeLib.Der
import Psign.Trust.TrustVerify
import Psign.Sip.PsScript
import Psign.Sip.PeHeader
import Psign.Sip.PeDigest
import Psign.Sip.PeEmbed
import Psign.Sip.PeCoverage
import Psign.Sip.PeReplace
import Psign.Sip.PeChecksum
import Psign.Sip.WshScript
import Psign.Sip.PsScriptTamper
import Psign.Portable.ScriptResign
import Psign.Trust.ChainOnline
import Psign.Trust.ChainAgreement
import Psign.Trust.ReportedAnchor
import Psign.Trust.ArtifactIdentity
import Psign.Trust.TimestampRewrite
import Psign.Trust.TimestampInserted
import Psign.Trust.RevocationPolicy
import Psign.CodeLib.Xml
import Psign.CodeLib.SortedMap
import Psign.Sip.RdpSign
import Psign.Sip.ZipSign
import Psign.Sip.ZipScript
import Psign.Sip.CabTamper
import Psign.Sip.CabRelocate
import Psign.Sip.CertificateBag
import Psign.Sip.Pkcs7Normalize
import Psign.Opc.EndRecords
import Psign.Sip.AppxVerify
import Psign.Portable.FileCatalogVerdict
import Psign.Sip.CatalogRoundTrip
import Psign.Sip.MsiSign
import Psign.Sip.MsiOrder
import Psign.Rest.CodesigningRun
import Psign.CertStore.Isolation
import Psign.CertStore.Runs
import Psign.Server.TimestampExchange
import Psign.Code.PlanExecution
import Psign.Code.ClickOnce
import Psign.Sip.AppxStagedTypes
import Psign.Sip.AppxNormalized
import Psign.Cli.ResponseArgv
import Psign.Cli.NativeArgv
import Psign.Code.GlobSearch
import Psign.Code.PatternRules
import Psign.Trust.UriNames
import Psign.Trust.AuthrootTrustList
import Psign.Code.PublisherExact
import Psign.CodeLib.Stream
import Psign.Server.Http
