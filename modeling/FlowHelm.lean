import FlowHelm.Lib.Runs
import FlowHelm.Lib.Js
import FlowHelm.Lib.Parties
import FlowHelm.Orchestrator.MessageQueue
import FlowHelm.Orchestrator.Attempts
import FlowHelm.Orchestrator.Task
import FlowHelm.Orchestrator.Machine
import FlowHelm.Orchestrator.Slots
import FlowHelm.Orchestrator.Drain
import FlowHelm.Orchestrator.Holders
import FlowHelm.Orchestrator.Delivery
import FlowHelm.Orchestrator.Retry
import FlowHelm.Orchestrator.Stop
import FlowHelm.Agent.CliResponse
import FlowHelm.Agent.Outcome
import FlowHelm.Channels.ChannelDb
import FlowHelm.Channels.Ingest
import FlowHelm.Channels.TelegramAdapter
import FlowHelm.Channels.PollLoop
import FlowHelm.Lib.RelyGuarantee
import FlowHelm.Lib.Sweeps
import FlowHelm.Memory.Tables
import FlowHelm.Memory.Statements
import FlowHelm.Memory.Profiles
import FlowHelm.Memory.Consolidation
import FlowHelm.Memory.Reflection
import FlowHelm.Memory.World
import FlowHelm.Memory.Footprint
import FlowHelm.Memory.Isolation
import FlowHelm.Memory.Completion
import FlowHelm.Memory.Partition
import FlowHelm.Memory.Atomicity
import FlowHelm.Memory.Thresholds
import FlowHelm.Memory.Watermark
import FlowHelm.Memory.MetaDag
import FlowHelm.Memory.Trace
import FlowHelm.Memory.Suppression
import FlowHelm.Memory.Cascade
import FlowHelm.Lib.History
import FlowHelm.Memory.Provenance
import FlowHelm.Lib.Transaction
import FlowHelm.Profiles.Store
import FlowHelm.Profiles.Statements
import FlowHelm.Profiles.Manager
import FlowHelm.Lib.Renaming
import FlowHelm.Profiles.Clone
import FlowHelm.Profiles.Deletion
import FlowHelm.Lib.Connections
import FlowHelm.Profiles.DefaultProfile
import FlowHelm.Orchestrator.ProfileCache
import FlowHelm.Lib.Reading
import FlowHelm.Mcp.Tools
import FlowHelm.Mcp.Noninterference
import FlowHelm.Mcp.Leaks
import FlowHelm.Lib.Utf8
import FlowHelm.Mcp.Framing
import FlowHelm.Lib.JsText
import FlowHelm.Mcp.JsonRpc
import FlowHelm.Lib.Xml
import FlowHelm.Lib.JsFormat
import FlowHelm.Lib.XmlLines
import FlowHelm.Memory.AgentContext
import FlowHelm.Memory.ContextTree
import FlowHelm.Memory.ContextMarkup
import FlowHelm.Agent.WarmContainers
import FlowHelm.Agent.IdleTimeout
import FlowHelm.Agent.Orphans
import FlowHelm.Agent.Sessions
import FlowHelm.Lib.PosixPath
import FlowHelm.Agent.SessionFiles
import FlowHelm.Agent.Snapshots
import FlowHelm.Lib.JsNumber
import FlowHelm.Lib.SlidingWindow
import FlowHelm.Proxy.CredentialSchema
import FlowHelm.Proxy.RateLimiter
import FlowHelm.Lib.Url
import FlowHelm.Proxy.Server
import FlowHelm.Proxy.BillingMethod
import FlowHelm.Proxy.BodySize
import FlowHelm.Proxy.BothPaths
import FlowHelm.Proxy.Main
import FlowHelm.Proxy.RateBound
import FlowHelm.Proxy.Revocation
import FlowHelm.Lib.UrlCase
import FlowHelm.Proxy.FailedReload
import FlowHelm.Proxy.HostCase
import FlowHelm.Proxy.CertCache
import FlowHelm.AuthBridge.Store
import FlowHelm.AuthBridge.Relay
import FlowHelm.AuthBridge.KvStore
import FlowHelm.AuthBridge.Agreement
import FlowHelm.AuthBridge.Workers
import FlowHelm.Channels.GmailWatch
import FlowHelm.Lib.FifoSet
import FlowHelm.Channels.GmailTransport
import FlowHelm.Channels.GmailHistory
import FlowHelm.Lib.JsDouble
import FlowHelm.Lib.JsonNumber
import FlowHelm.Lib.JsonText
import FlowHelm.Proxy.CredentialStore
import FlowHelm.Proxy.Vault
import FlowHelm.Lib.Utf16
import FlowHelm.Channels.AuthState
import FlowHelm.Lib.SharedFile
import FlowHelm.Lib.BitString
import FlowHelm.Lib.Filling
import FlowHelm.Lib.QrReader
import FlowHelm.AuthBridge.QrData
import FlowHelm.AuthBridge.QrMatrix
import FlowHelm.AuthBridge.QrRoundTrip
import FlowHelm.Lib.FirstFit
import FlowHelm.Admin.PortRegistry
import FlowHelm.Lib.JsParseInt
import FlowHelm.Admin.BackupFiles
import FlowHelm.Admin.Ownership
import FlowHelm.Container.Lifecycle
import FlowHelm.Lib.Lines
import FlowHelm.Lib.JsInteger
import FlowHelm.Admin.SubIds
import FlowHelm.AuthBridge.QrPatterns
import FlowHelm.Lib.Dependencies
import FlowHelm.Skills.Manifest
import FlowHelm.Skills.Store
import FlowHelm.Lib.FileTree
import FlowHelm.Skills.Sync
import FlowHelm.Admin.Backup
import FlowHelm.Channels.SinglePoller
import FlowHelm.Agent.ContainerNames
import FlowHelm.Channels.ImapDisconnect
import FlowHelm.Channels.WhatsAppDisconnect
import FlowHelm.Lib.Finality
import FlowHelm.Proxy.RateWindow
import FlowHelm.AuthBridge.RateLimit
import FlowHelm.Channels.GwsCommand
import FlowHelm.Lib.Recency
import FlowHelm.Proxy.CertCacheRuns
import FlowHelm.Lib.ByteField
import FlowHelm.Lib.ReedSolomon
import FlowHelm.AuthBridge.QrErrorCorrection
import FlowHelm.Proxy.CostLog
import FlowHelm.Lib.JsObject
import FlowHelm.Config.Merge
import FlowHelm.Config.Loader
import FlowHelm.Config.Args
import FlowHelm.Lib.JsSlice
import FlowHelm.Channels.SplitMessage
import FlowHelm.Lib.Buffer
import FlowHelm.Lib.CrlfLines
import FlowHelm.Lib.MailText
import FlowHelm.Channels.RawEmail
import FlowHelm.Channels.SmtpData
import FlowHelm.Lib.Utf8Chunks
import FlowHelm.Channels.ImapSession
import FlowHelm.Channels.EmailFilter
import FlowHelm.Skills.Upgrade
import FlowHelm.Memory.SummaryRange
import FlowHelm.Lib.Tally
import FlowHelm.Memory.ReflectionCount
import FlowHelm.Memory.Confidence
import FlowHelm.AuthBridge.QrText
import FlowHelm.Identity.Observations
import FlowHelm.Orchestrator.ChatOrder
import FlowHelm.Identity.KeyValuePairs
import FlowHelm.Identity.AgentEdits
import FlowHelm.Channels.GmailRenewals
import FlowHelm.Channels.PullDaemon
import FlowHelm.Channels.TelegramRecovery
import FlowHelm.Orchestrator.HealthChains
import FlowHelm.Lib.Ranking
import FlowHelm.Memory.MetaRetrieval
import FlowHelm.Lib.RoundRobin
import FlowHelm.Proxy.KeyRotation
import FlowHelm.Proxy.RotationRuns
import FlowHelm.Lib.WebText
import FlowHelm.Container.Managers
import FlowHelm.Container.Supervision
import FlowHelm.Memory.SummaryContainer
import FlowHelm.Memory.SummaryOverlap
import FlowHelm.AuthBridge.VmClient
import FlowHelm.AuthBridge.AuthPage
import FlowHelm.AuthBridge.TokenTransfer
import FlowHelm.Proxy.CaFiles
import FlowHelm.Proxy.CaLoss
import FlowHelm.Skills.Download
import FlowHelm.Lib.RingBuffer
import FlowHelm.Proxy.Metrics
import FlowHelm.Channels.Outbound
import FlowHelm.Channels.OutboundParts
import FlowHelm.Proxy.TokenBoots
import FlowHelm.Lib.Rejection
import FlowHelm.AuthBridge.Tokens
import FlowHelm.Service.Transcription
