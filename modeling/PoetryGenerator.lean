import PoetryGenerator.Lib.Runs
import PoetryGenerator.Lib.Tables
import PoetryGenerator.Lib.Numerals
import PoetryGenerator.Lib.SlidingWindow
import PoetryGenerator.Models
import PoetryGenerator.System
import PoetryGenerator.Rows
import PoetryGenerator.Steps
import PoetryGenerator.Reachable
import PoetryGenerator.Lifecycle
import PoetryGenerator.NoLoss
import PoetryGenerator.Recovery
import PoetryGenerator.Duplicates
import PoetryGenerator.RetryBudget
import PoetryGenerator.Deletion
import PoetryGenerator.RateLimiter
import PoetryGenerator.LimiterThreads
import PoetryGenerator.Lib.FixedWindow
import PoetryGenerator.RedisRateLimiter
import PoetryGenerator.LimiterAnswers
import PoetryGenerator.LimiterMemory
import PoetryGenerator.Lib.Unwinding
import PoetryGenerator.IpAddress
import PoetryGenerator.AddressText
import PoetryGenerator.Clients
import PoetryGenerator.ClientMatching
import PoetryGenerator.ResolverErrors
import PoetryGenerator.ClientCache
import PoetryGenerator.Buckets
import PoetryGenerator.ImageModels
import PoetryGenerator.Generation
import PoetryGenerator.Schema
import PoetryGenerator.Extraction
import PoetryGenerator.Json
import PoetryGenerator.Prompts
import PoetryGenerator.ClaudeClient
import PoetryGenerator.PoemRuns
import PoetryGenerator.FailedDeletion
import PoetryGenerator.OrphanFiles
import PoetryGenerator.HomeAnswers
import PoetryGenerator.HomePage
import PoetryGenerator.AssetOrigins
import PoetryGenerator.ComfyUi
import PoetryGenerator.ModelChoice
import PoetryGenerator.Synthesizers
import PoetryGenerator.AudioProvenance
import PoetryGenerator.Downloads
import PoetryGenerator.VoiceCache
import PoetryGenerator.ClientRuleText
import PoetryGenerator.PromptTags
import PoetryGenerator.AssetServing
import PoetryGenerator.Lib.Patterns
import PoetryGenerator.CorsOrigins
import PoetryGenerator.PoemListing
import PoetryGenerator.Gallery
import PoetryGenerator.GalleryPaging
import PoetryGenerator.HomeRaces
import PoetryGenerator.Lib.RunLaws
import PoetryGenerator.Drain
import PoetryGenerator.QueueOrder
import PoetryGenerator.Lib.Semaphore
import PoetryGenerator.GenerationSlots
import PoetryGenerator.TtsCapabilities
import PoetryGenerator.GenerateForm
import PoetryGenerator.LogLines
import PoetryGenerator.ComfyHttp
import PoetryGenerator.PoemReads
import PoetryGenerator.Lib.Grouping
import PoetryGenerator.Stats
import PoetryGenerator.BothWorkers
import PoetryGenerator.KeptFiles
