import NdpSmb.Interaction
import NdpSmb.Lookup
import NdpSmb.ByteString
import NdpSmb.ReturnCodes
import NdpSmb.Data
import NdpSmb.Calls
import NdpSmb.Smbwrp
import NdpSmb.DirCache
import NdpSmb.PathParser
import NdpSmb.ListFiles
import NdpSmb.EaList
import NdpSmb.PathCalls
import NdpSmb.FileCalls
import NdpSmb.Mount
import NdpSmb.System
import NdpSmb.EaWalk
import NdpSmb.CacheLookup
import NdpSmb.ListingCommit
import NdpSmb.CachedAnswer
import NdpSmb.CallRule
import NdpSmb.LockBalance
import NdpSmb.HandleLife
import NdpSmb.ShareTarget
import NdpSmb.CacheAge
import NdpSmb.Staleness
import NdpSmb.Coherence
import NdpSmb.SharedCache
import NdpSmb.SessionOverlap
import NdpSmb.ListingLife
import NdpSmb.CacheKeys
import NdpSmb.SessionReplay
import NdpSmb.DoublyLinked
import NdpSmb.Simulation
import NdpSmb.LinkedCache
import NdpSmb.EvictionOrder
import NdpSmb.LostInvalidation
import NdpSmb.EaAnswer
import NdpSmb.ListingSign
import NdpSmb.OpenFile
import NdpSmb.FileLink
import NdpSmb.FileLife
import NdpSmb.CloseOnce
import NdpSmb.AcceptedChange
import NdpSmb.PathSplit
import NdpSmb.MoveTarget
import NdpSmb.CreateEas
import NdpSmb.MountOptions
import NdpSmb.CacheDepth
import NdpSmb.DiskSize
import NdpSmb.FilePointer
import NdpSmb.EaOverflow
import NdpSmb.EaSelection
import NdpSmb.CacheRefresh
import NdpSmb.StoredPassword
import NdpSmb.EaAgreement
import NdpSmb.ListingFailure
import NdpSmb.FindRequest
import NdpSmb.ListedNames
import NdpSmb.DeferredInfo
import NdpSmb.PathStatus
import NdpSmb.HiddenSteps
import NdpSmb.ListingMemory
import NdpSmb.TwoRuns
import NdpSmb.InfoAnswers
import NdpSmb.Invalidation
import NdpSmb.ArrayRoom
import NdpSmb.RsrcCompare
import NdpSmb.Calendar
import NdpSmb.DosDate
import NdpSmb.Realization
import NdpSmb.Connect
import NdpSmb.SessionSetup
import NdpSmb.Plugin
import NdpSmb.SessionLink
import NdpSmb.SessionOwners
import NdpSmb.WiredRuns
import NdpSmb.Environment
import NdpSmb.ByteFile
import NdpSmb.FileData
import NdpSmb.DirHandles
import NdpSmb.MountKept
import NdpSmb.ListingOrigin
import NdpSmb.MutualExclusion
import NdpSmb.GuardedCalls
import NdpSmb.Emission
import NdpSmb.ReadingCalls
import NdpSmb.ServerEdits
import NdpSmb.Completion
import NdpSmb.CompleteCalls
import NdpSmb.CalmSearch
import NdpSmb.CrashFree
import NdpSmb.Ownership
import NdpSmb.CacheMemory
import NdpSmb.CacheInvariant
import NdpSmb.FreedArray
