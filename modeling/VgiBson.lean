import VgiBson.MachineBytes
import VgiBson.CursorWalks
import VgiBson.CursorLanguages
import VgiBson.CursorBounds
import VgiBson.CursorAgreement
import VgiBson.CursorErrors
import VgiBson.CursorTwins
import VgiBson.PrefixCodes
import VgiBson.BsonGrammar
import VgiBson.StructuralValidator
import VgiBson.ValidatorGrammar
import VgiBson.ValidatorBounds
import VgiBson.ValidatorStrictness
import VgiBson.ValidatorErrors
import VgiBson.NestingLimit
import VgiBson.SequenceSplitter
import VgiBson.SplitterBounds
import VgiBson.ArrowColumns
import VgiBson.ProducerRuns
import VgiBson.DumpReader
import VgiBson.SequenceTable
import VgiBson.DumpOutcomes
import VgiBson.BsonValues
import VgiBson.BsonEncoding
import VgiBson.CivilDates
import VgiBson.ProlepticCalendar
import VgiBson.DateTimeText
import VgiBson.DateRendering
import VgiBson.DateOrder
import VgiBson.DocumentDecoding
import VgiBson.FieldProjection
import VgiBson.CrateAssumptions
import VgiBson.DocumentLocality
import VgiBson.TruncatedStreams
import VgiBson.DeliveredRows
import VgiBson.LengthEquations
import VgiBson.ExtendedJsonRoundTrip
import VgiBson.PathWalks
import VgiBson.DottedPaths
import VgiBson.TypeRegistry
import VgiBson.ProjectedJson
import VgiBson.ProjectedKeys
import VgiBson.TargetIndependence
import VgiBson.ColumnEncoding
import VgiBson.InsertionOrder
import VgiBson.EncodedDocuments
import VgiBson.DecimalNumerals
import VgiBson.Decimal128Format
import VgiBson.DecimalColumns
import VgiBson.TimestampColumns
import VgiBson.MapEntries
import VgiBson.ReplicationClock
import VgiBson.ClockDelivery
import VgiBson.HexText
import VgiBson.ObjectIds
import VgiBson.TypedTexts
import VgiBson.ScalarColumns
import VgiBson.ScalarFunctions
import VgiBson.ArgumentChoices
import VgiBson.ScalarRows
import VgiBson.ScalarCalls
import VgiBson.ObjectIdColumns
import VgiBson.EncodedColumns
import VgiBson.EncodedStreams
import VgiBson.EncodedPaths
import VgiBson.EncodedKeys
import VgiBson.EncodedTypes
import VgiBson.JsonColumns
import VgiBson.EntryTimes
