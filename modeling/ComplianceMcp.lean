import ComplianceMcp.JsonRoundTrip
import ComplianceMcp.Steps
import ComplianceMcp.AuditHead
import ComplianceMcp.AuditCrash
import ComplianceMcp.AuditDelivery
import ComplianceMcp.DraftRuns
import ComplianceMcp.DirectoryFresh
import ComplianceMcp.DirectoryVersion
import ComplianceMcp.DraftHonest
import ComplianceMcp.EvidencePack
import ComplianceMcp.HeaderIdentity
import ComplianceMcp.DraftRecords
import ComplianceMcp.PurgeRuns
import ComplianceMcp.TailRecord
import ComplianceMcp.RotationStamps
import ComplianceMcp.ExtractionScore
import ComplianceMcp.VerifyFaults
import ComplianceMcp.PolicySearch
import ComplianceMcp.FeedRefetch
import ComplianceMcp.FourEyes
import ComplianceMcp.ReviewRecords
import ComplianceMcp.DraftTrail
import ComplianceMcp.RateFairness
import ComplianceMcp.SpoolDrain
import ComplianceMcp.CallerIsolation
import ComplianceMcp.PolicyTimeline
import ComplianceMcp.DateWindows
import ComplianceMcp.PrettyJson
import ComplianceMcp.PackBinding
import ComplianceMcp.CacheBytes
import ComplianceMcp.EdgeRuns
import ComplianceMcp.ArchiveProof
import ComplianceMcp.EvidenceFlow
import ComplianceMcp.DraftLists
import ComplianceMcp.EvalGate
import ComplianceMcp.LogLines
import ComplianceMcp.PackLibrary
