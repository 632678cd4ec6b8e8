import MoltenPour.NumberFormat
import MoltenPour.BinaryRounding
import MoltenPour.BinaryFormat
import MoltenPour.Fnv
import MoltenPour.Printing
import MoltenPour.Artifact
import MoltenPour.ClientPipeline
import MoltenPour.ServerPipeline
import MoltenPour.Pour
import MoltenPour.KeyedLog
import MoltenPour.Store
import MoltenPour.MemoryLedger
import MoltenPour.SqlTable
import MoltenPour.SqliteLedger
import MoltenPour.StoreAgreement
import MoltenPour.LedgerDurability
import MoltenPour.LedgerContinuity
import MoltenPour.PipelineAgreement
import MoltenPour.WatchedIsMinted
import MoltenPour.LedgerFile
import MoltenPour.LedgerLives
import MoltenPour.MetaballRig
import MoltenPour.RigReport
import MoltenPour.RigDroplets
import MoltenPour.RigTilt
import MoltenPour.RigFlow
import MoltenPour.RigVelocity
import MoltenPour.RigWatch
import MoltenPour.RigSettling
import MoltenPour.PourScreen
import MoltenPour.SealGate
import MoltenPour.Session
import MoltenPour.Handlers
import MoltenPour.MintDelivery
import MoltenPour.DeliverySteps
import MoltenPour.MintedRecords
import MoltenPour.MintOnce
import MoltenPour.SignedIn
import MoltenPour.SelfCertified
import MoltenPour.ClockGrinding
import MoltenPour.ReachableRarity
import MoltenPour.OwnerIsolation
import MoltenPour.MintStatus
import MoltenPour.AccessControl
import MoltenPour.TierFixed
import MoltenPour.CarriedAnswers
import MoltenPour.KeptCollection
import MoltenPour.RefusedMint
import MoltenPour.LateListing
import MoltenPour.ClampProjection
import MoltenPour.ClampOrder
import MoltenPour.HashedScore
import MoltenPour.TierLaw
import MoltenPour.SeedWords
import MoltenPour.RigFrozen
import MoltenPour.RigDescent
import MoltenPour.RigRing
import MoltenPour.PourSettles
import MoltenPour.ShortestDecimal
import MoltenPour.JsonTokens
import MoltenPour.Json
import MoltenPour.AnswerText
import MoltenPour.RequestText
import MoltenPour.WireRuns
import MoltenPour.UrlPath
import MoltenPour.ServeMux
import MoltenPour.Routes
import MoltenPour.StaticFiles
import MoltenPour.StageScale
import MoltenPour.TokenBucket
import MoltenPour.MintLimit
import MoltenPour.LimiterMemory
import MoltenPour.RetryAfter
import MoltenPour.BurstOrder
import MoltenPour.ClientAddress
import MoltenPour.Serving
import MoltenPour.Sigil
import MoltenPour.SigilDigest
import MoltenPour.WholeScore
import MoltenPour.CertificateText
import MoltenPour.Middleware
import MoltenPour.Panics
