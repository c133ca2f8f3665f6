import ScMachine.Runs
import ScMachine.ScTypes
import ScMachine.ScSegment
import ScMachine.SegmentHoles
import ScMachine.SegmentSoundness
import ScMachine.SegmentCounters
import ScMachine.SegmentSearch
import ScMachine.SegmentReload
import ScMachine.SegmentLoaded
import ScMachine.ScStorage
import ScMachine.ContextIds
import ScMachine.SectionLock
import ScMachine.ScElements
import ScMachine.ElementFree
import ScMachine.StorageAppend
import ScMachine.LockBalance
import ScMachine.StorageAllocation
import ScMachine.SubtypeChange
import ScMachine.ArcLists
import ScMachine.Worklist
import ScMachine.ArcRemoval
import ScMachine.StoreInvariant
import ScMachine.ArcInvariant
import ScMachine.ReferenceCounts
import ScMachine.CascadeErase
import ScMachine.CascadeCollect
import ScMachine.CascadeDelete
import ScMachine.OperationEffects
import ScMachine.OwnRuns
import ScMachine.DeletionExact
import ScMachine.ContentIndex
import ScMachine.LinkContents
import ScMachine.ByteFormat
import ScMachine.ScFsStorage
import ScMachine.SegmentsFile
import ScMachine.StoreRestart
import ScMachine.ScIterator3
import ScMachine.ScIterator5
import ScMachine.Enumeration
import ScMachine.IteratorCounts
import ScMachine.IteratorWalk
import ScMachine.IteratorSessions
import ScMachine.IteratorExact
import ScMachine.EdgeIterators
import ScMachine.IteratorJoin
import ScMachine.IteratorConservation
import ScMachine.ReferenceHolders
import ScMachine.IteratorReferences
import ScMachine.ScEvent
import ScMachine.ScSystem
import ScMachine.HeldReferences
import ScMachine.IteratorMutation
import ScMachine.EventReferences
import ScMachine.EventLifetime
import ScMachine.EventDelivery
import ScMachine.PendingMode
import ScMachine.DeletionNotices
import ScMachine.LockThreads
import ScMachine.EventLocks
import ScMachine.ScTemplate
import ScMachine.ParseNumber
import ScMachine.ScTemplateGenerate
import ScMachine.ScTemplateSearch
import ScMachine.TemplateItems
import ScMachine.TripleNames
import ScMachine.GenerateSteps
import ScMachine.GenerateParameters
import ScMachine.GenerateExact
import ScMachine.Backtracking
import ScMachine.SearchOrder
import ScMachine.SearchPaths
import ScMachine.SearchRuns
import ScMachine.SearchSound
import ScMachine.SearchComplete
import ScMachine.SearchTypes
import ScMachine.SearchAnchors
import ScMachine.SearchGenerated
import ScMachine.ScTemplateStructBuilder
import ScMachine.StructTemplates
import ScMachine.StructOrders
import ScMachine.SctpRoundTrip
import ScMachine.SctpEventManager
import ScMachine.SctpEventLocks
import ScMachine.SctpEventClients
import ScMachine.CascadeLocks
import ScMachine.ScAgent
import ScMachine.AgentCommands
import ScMachine.ScpJoins
import ScMachine.SctpFraming
import ScMachine.SctpCommand
import ScMachine.ArcRanks
import ScMachine.ArcTotality
import ScMachine.ScpSearch
import ScMachine.ScpSearchSound
import ScMachine.ScpMatches
import ScMachine.ScpSearchResults
import ScMachine.ScsTypes
import ScMachine.ScsParser
import ScMachine.PartialMerge
import ScMachine.TypeStatements
import ScMachine.ParserRuns
import ScMachine.Contours
import ScMachine.CreationSteps
import ScMachine.IteratorsAtRest
import ScMachine.ScpLib
import ScMachine.ScpElementSearch
import ScMachine.ScpOperands
import ScMachine.ScpOperandValues
import ScMachine.ConstructionIterators
import ScMachine.ConstructionJoin
import ScMachine.ConstructionSteps
import ScMachine.ConstructionRequests
import ScMachine.ConstructionSafety
import ScMachine.DepthFirst
import ScMachine.SCnSentences
import ScMachine.CommandParameters
import ScMachine.SystemIdentifiers
import ScMachine.GenerateCleanup
import ScMachine.TextEdits
import ScMachine.StringUtils
import ScMachine.ScpSupersets
import ScMachine.SearchVectors
import ScMachine.ScpSystemGen
import ScMachine.GraphMemory
import ScMachine.StoreGraph
import ScMachine.ElementsStat
import ScMachine.ScpProcessCreator
import ScMachine.ScpProcessCopies
import ScMachine.ScpProcessTemplates
import ScMachine.ScpProcesses
import ScMachine.ArcAges
import ScMachine.ErasedArcs
import ScMachine.ScSet
import ScMachine.SetRemoval
import ScMachine.SetRuns
