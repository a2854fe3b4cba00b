import SymFind.Lib.InsertionMap
import SymFind.Lib.RecordCodec
import SymFind.Lib.CutRecords
import SymFind.Lib.FilePatch
import SymFind.Lib.BufferSlices
import SymFind.Lib.WordSplit
import SymFind.Lib.SelfDelimiting
import SymFind.Lib.LexPrefix
import SymFind.Lib.StepWalk
import SymFind.Lib.BoundedLoop
import SymFind.Lib.LinearProbing
import SymFind.Lib.NearestEven
import SymFind.Lib.SortedUnique
import SymFind.Lib.Interleaving
import SymFind.Lib.FatalInterleaving
import SymFind.Lib.DescriptorTable
import SymFind.Lib.Shuffle
import SymFind.Lib.OverlappingWriters
import SymFind.Lib.SharedOutput
import SymFind.Lib.CappedStream
import SymFind.Lib.EventRun
import SymFind.Lib.Outcome
import SymFind.Core.Machine
import SymFind.Core.SymbolData
import SymFind.Core.SymbolPrinting
import SymFind.Core.TrigramCodes
import SymFind.Core.TrigramPostings
import SymFind.Core.TrigramWindows
import SymFind.Core.TrigramEnds
import SymFind.Core.StringComparators
import SymFind.Core.Compression
import SymFind.Core.TrainingSamples
import SymFind.Config.ConfigParser
import SymFind.Config.ConfigParsing
import SymFind.Config.ConfigEffects
import SymFind.Config.OptionParser
import SymFind.Config.CommandLines
import SymFind.Config.DocumentedOptions
import SymFind.Utils.Threading
import SymFind.Elf.ElfParser
import SymFind.Elf.ElfFiles
import SymFind.Elf.ElfEntries
import SymFind.Filesystem.PathCache
import SymFind.Filesystem.PathCacheHistory
import SymFind.Filesystem.PathStrings
import SymFind.Filesystem.PathCursor
import SymFind.Filesystem.DirectoryOrder
import SymFind.Filesystem.DirTimes
import SymFind.Filesystem.ExtensionGrammar
import SymFind.Filesystem.TreeScan
import SymFind.Filesystem.PruneAsDelete
import SymFind.Filesystem.UnknownTypes
import SymFind.Filesystem.ScanSelection
import SymFind.Filesystem.DirHandles
import SymFind.Filesystem.DescriptorShortage
import SymFind.Filesystem.MountInfo
import SymFind.Filesystem.MountFormat
import SymFind.Filesystem.BindMounts
import SymFind.Filesystem.BindMountMatching
import SymFind.Filesystem.MountNotices
import SymFind.Filesystem.PrunedInheritance
import SymFind.Database.DatabaseLayout
import SymFind.Database.TrigramTable
import SymFind.Database.TrigramCapacity
import SymFind.Database.TrigramExact
import SymFind.Database.DatabaseBlocks
import SymFind.Database.BlockOverflow
import SymFind.Database.DatabaseWriting
import SymFind.Database.WritePlan
import SymFind.Database.ExactWrites
import SymFind.Database.DatabaseReading
import SymFind.Database.ConfigBlock
import SymFind.Database.ConfigChanges
import SymFind.Database.LookupEnds
import SymFind.Database.DatabaseRoundTrip
import SymFind.Database.FailedTraining
import SymFind.Database.SymbolLookup
import SymFind.Database.ReaderBounds
import SymFind.Database.StoppedStore
import SymFind.Database.VisibilityModes
import SymFind.Database.InterruptedStore
import SymFind.Build.ParallelBuild
import SymFind.Build.WorkDistribution
import SymFind.Build.ThreadCount
import SymFind.Build.MergeTables
import SymFind.Build.SearchAgreement
import SymFind.Build.ReproducibleBuild
import SymFind.Build.OverlappingBuilds
import SymFind.Build.FatalFiles
import SymFind.Program.SearchPipeline
import SymFind.Program.FreeRunOutput
import SymFind.Program.FreeRunSteps
import SymFind.Program.PrintedOutput
import SymFind.Program.MainProgram
import SymFind.Program.ProgramRuns
import SymFind.Program.ReadAfterBuild
import SymFind.Program.ChangeNotice
import SymFind.Program.AlikeBuilds
import SymFind.Program.TrainingSet
import SymFind.Program.StoppedBuilds
