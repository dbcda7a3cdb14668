import GccXml.Lib.Trace
import GccXml.Lib.Worklist
import GccXml.Xml.Tree
import GccXml.Xml.AddNode
import GccXml.Xml.Print
import GccXml.Xml.Output
import GccXml.Xml.Attributes
import GccXml.Xml.Requests
import GccXml.Xml.Dump
import GccXml.Xml.State
import GccXml.Xml.Run
import GccXml.Xml.CompletePhase
import GccXml.Lib.Interference
import GccXml.Xml.Synthesis
import GccXml.Xml.Resolution
import GccXml.Xml.Undisturbed
import GccXml.Xml.Printed
import GccXml.Xml.ExactlyOnce
import GccXml.Xml.Elements
import GccXml.Xml.Document
import GccXml.Xml.References
import GccXml.Xml.TypeReferences
import GccXml.Xml.Answer
import GccXml.Xml.Members
import GccXml.Lib.XmlGrammar
import GccXml.Xml.SafeText
import GccXml.Xml.WellFormed
import GccXml.Front.Configuration
import GccXml.Front.Precedence
import GccXml.Front.FlagsParser
import GccXml.Front.ScannerBounds
import GccXml.Front.FlagSplitting
import GccXml.Front.RunCommand
import GccXml.Front.PrintColumn
import GccXml.Front.ColumnEnds
import GccXml.Front.WordWrap
import GccXml.Lib.Interning
import GccXml.Xml.FileTable
import GccXml.Xml.Conformance
import GccXml.Xml.Described
import GccXml.Lib.Search
import GccXml.Xml.TemplateSearch
import GccXml.Lib.Cycles
import GccXml.Xml.Aliases
import GccXml.Xml.Addresses
import GccXml.Xml.Renumbering
import GccXml.Cpp.Files
import GccXml.Cpp.Include
import GccXml.Lib.Chain
import GccXml.Cpp.Lookup
import GccXml.Cpp.SearchState
import GccXml.Cpp.Reading
import GccXml.Lib.IStream
import GccXml.VcInstall.PatchScan
import GccXml.Front.ConfigFile
import GccXml.Front.Documented
import GccXml.Front.CommandLine
import GccXml.Lib.NearestSearch
import GccXml.Xml.Overrides
import GccXml.Xml.Numbers
import GccXml.Xml.ArgumentLists
import GccXml.Xml.StartNodes
import GccXml.Lib.XmlReader
import GccXml.Xml.AttributeText
import GccXml.Cpp.SearchPaths
import GccXml.Cpp.CachedLookup
import GccXml.Cpp.WrapperSearch
import GccXml.Front.QuotedFlags
import GccXml.Front.FindFlags
import GccXml.Front.FlagsText
import GccXml.Front.FlagsReadBack
import GccXml.Lib.Block
import GccXml.Xml.EscapeBuffer
import GccXml.Xml.DumpQueue
import GccXml.Cpp.IncludeCache
import GccXml.Cpp.Stackings
import GccXml.Cpp.CacheDisabled
import GccXml.Cpp.CacheRuns
import GccXml.Lib.SearchTree
import GccXml.Libiberty.SplayTree
import GccXml.Libiberty.SplayRuns
import GccXml.Xml.DumpMemory
import GccXml.Lib.KeepFirst
import GccXml.Cpp.IncludeChains
import GccXml.Cpp.IncludeOptions
import GccXml.Cpp.IncludePaths
import GccXml.Cpp.CommandLine
import GccXml.Lib.Division
import GccXml.Lib.Probing
import GccXml.Libiberty.HashTable
import GccXml.Libiberty.HashSearch
import GccXml.Libiberty.HashRuns
import GccXml.Cpp.DirTable
import GccXml.Lib.XmlDocument
import GccXml.Xml.ReadBack
import GccXml.Xml.Following
import GccXml.Lib.BinarySearch
import GccXml.Lib.Memory
import GccXml.Lib.Digest
import GccXml.Libiberty.Md5
import GccXml.Libiberty.Md5Pieces
import GccXml.Libiberty.Md5Stream
import GccXml.Cpp.PchEntries
import GccXml.Lib.Moves
import GccXml.Front.Paths
import GccXml.Front.FullPaths
