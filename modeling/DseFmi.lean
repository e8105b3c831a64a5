import DseFmi.FmiGateway.BusReferences
import DseFmi.FmiGateway.CollectedParameters
import DseFmi.FmiGateway.ExportedNumbers
import DseFmi.FmiGateway.Fmi2Parameters
import DseFmi.FmiGateway.Fmi3Parameters
import DseFmi.FmiGateway.ModelCommands
import DseFmi.FmiGateway.ModelDescription
import DseFmi.FmiGateway.ModelEnvironment
import DseFmi.FmiGateway.ModelStacks
import DseFmi.FmiGateway.NodeEnvironments
import DseFmi.FmiGateway.ParseFmi
import DseFmi.FmiGateway.ScriptNodes
import DseFmi.FmiGateway.ScriptParameters
import DseFmi.FmiGateway.Session
import DseFmi.FmiGateway.SessionCleanup
import DseFmi.FmiGateway.SessionExports
import DseFmi.FmiGateway.SessionWin32
import DseFmi.FmiGateway.SignalIndex
import DseFmi.FmiGateway.SimerCommand
import DseFmi.FmiGateway.SimerCommands
import DseFmi.FmiGateway.StepResults
import DseFmi.FmiModelC.BusTopology
import DseFmi.FmiModelC.ModelEnv
import DseFmi.FmiModelC.Runtime
import DseFmi.FmiModelC.ScalarSignals
import DseFmi.FmiModelC.TextEncoding
import DseFmi.Fmu.Binary
import DseFmi.Fmu.BinaryFmi3
import DseFmi.Fmu.BothVersions
import DseFmi.Fmu.CodecTrace
import DseFmi.Fmu.Data
import DseFmi.Fmu.DebugLogging
import DseFmi.Fmu.DirectAccess
import DseFmi.Fmu.Exchange
import DseFmi.Fmu.FreeList
import DseFmi.Fmu.Period
import DseFmi.Fmu.Real
import DseFmi.Fmu.RoundTrip
import DseFmi.Fmu.SameButLog
import DseFmi.Fmu.ScalarIndex
import DseFmi.Fmu.Signal
import DseFmi.Fmu.StaleText
import DseFmi.Fmu.StartValue
import DseFmi.Fmu.Stream
import DseFmi.Fmu.StreamRefinement
import DseFmi.Fmu.VarTable
import DseFmi.Fmu.VarTableRun
import DseFmi.Fmu.Variable
import DseFmi.Fmu.VariableCount
import DseFmi.Generate.Agreement
import DseFmi.Generate.AnnotateGroups
import DseFmi.Generate.AnnotatedReferences
import DseFmi.Generate.AnnotatedSignals
import DseFmi.Generate.ChannelRanges
import DseFmi.Generate.Collection
import DseFmi.Generate.DirectIndex
import DseFmi.Generate.FirstMatch
import DseFmi.Generate.Fmi2
import DseFmi.Generate.Fmi3
import DseFmi.Generate.FmuPackage
import DseFmi.Generate.FmuPackageResult
import DseFmi.Generate.GatewayFmu
import DseFmi.Generate.MapLayout
import DseFmi.Generate.MergedGroups
import DseFmi.Generate.ModelStructure
import DseFmi.Generate.PanicFree
import DseFmi.Generate.ParameterEntries
import DseFmi.Generate.PatchedGroups
import DseFmi.Generate.ReadableStack
import DseFmi.Generate.Schema
import DseFmi.Generate.SignalEntries
import DseFmi.Generate.SignalGroupIndex
import DseFmi.Generate.SignalVector
import DseFmi.Generate.SimBusChannel
import DseFmi.Generate.SimulationCopy
import DseFmi.Generate.SkippedGroups
import DseFmi.Generate.UniqueReferences
import DseFmi.Generate.ValueReferences
import DseFmi.Generate.VersionAgreement
import DseFmi.Importer.ArrayAccesses
import DseFmi.Importer.Cosim
import DseFmi.Importer.Csv
import DseFmi.Importer.DrivenReals
import DseFmi.Importer.FieldColumns
import DseFmi.Importer.FollowedFields
import DseFmi.Importer.FollowedTexts
import DseFmi.Importer.GeneratedVariables
import DseFmi.Importer.GeneratedXml
import DseFmi.Importer.Loopback
import DseFmi.Importer.ParseXml
import DseFmi.Importer.ParsedReals
import DseFmi.Importer.SampleFile
import DseFmi.Importer.SampleSchedule
import DseFmi.Importer.SampleValues
import DseFmi.Importer.Samples
import DseFmi.Importer.SignalBus
import DseFmi.Importer.TextLines
import DseFmi.Library.Annotated
import DseFmi.Library.Attempt
import DseFmi.Library.BucketSort
import DseFmi.Library.ByteFile
import DseFmi.Library.Compaction
import DseFmi.Library.Correspondence
import DseFmi.Library.Decimal
import DseFmi.Library.Effect
import DseFmi.Library.FileSystem
import DseFmi.Library.FileTree
import DseFmi.Library.FirstOccurrence
import DseFmi.Library.Heap
import DseFmi.Library.IdSupply
import DseFmi.Library.InPlace
import DseFmi.Library.Index
import DseFmi.Library.IntegerLiteral
import DseFmi.Library.JoinedNames
import DseFmi.Library.KeyedList
import DseFmi.Library.Layout
import DseFmi.Library.LazyBuffers
import DseFmi.Library.LexicalPath
import DseFmi.Library.Memory
import DseFmi.Library.PackedStrings
import DseFmi.Library.PathsBelow
import DseFmi.Library.Positions
import DseFmi.Library.Protocol
import DseFmi.Library.Releases
import DseFmi.Library.RunLength
import DseFmi.Library.Success
import DseFmi.Library.TakeWhile
import DseFmi.Mcl.EncoderFuncs
import DseFmi.Mcl.Engine
import DseFmi.Mcl.FmiCalls
import DseFmi.Mcl.FmuModel
import DseFmi.Mcl.GeneratedSignals
import DseFmi.Mcl.LifeCycle
import DseFmi.Mcl.Marshal
import DseFmi.Mcl.Model
import DseFmi.Mcl.Parser
import DseFmi.Mcl.Step
import DseFmi.Operations.CopyDirectory
import DseFmi.Operations.CopyExact
import DseFmi.Operations.CopyInside
import DseFmi.Operations.CopyResult
import DseFmi.Operations.Locate
import DseFmi.Operations.Unzip
import DseFmi.Operations.UnzipFiles
import DseFmi.Operations.UnzipSafety
import DseFmi.Operations.Zip
import DseFmi.Operations.ZipEntries
import DseFmi.Operations.ZipRoundTrip
import DseFmi.Patch.SignalGroup
