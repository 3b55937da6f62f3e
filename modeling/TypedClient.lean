import TypedClient.Document.Writing
import TypedClient.Main
import TypedClient.Proofs.TypeRoundTrip
import TypedClient.Proofs.UrlTemplate
import TypedClient.Proofs.Imports
import TypedClient.Proofs.ImportCompleteness
import TypedClient.Proofs.Prose
import TypedClient.Proofs.FunctionNames
import TypedClient.Proofs.Dialects
import TypedClient.Proofs.Hygiene
import TypedClient.Proofs.SignatureNames
import TypedClient.Proofs.ArgumentLists
import TypedClient.Proofs.TopLevelNames
import TypedClient.Proofs.PlacedParts
import TypedClient.Proofs.TemplateReading
import TypedClient.Proofs.UrlReading
import TypedClient.Proofs.CommentEnds
import TypedClient.Proofs.SchemaPlaces
import TypedClient.Proofs.VendorExtensions
import TypedClient.Proofs.StatusKeys
import TypedClient.Proofs.ReservedFunctions
import TypedClient.Proofs.DocumentOrder
import TypedClient.Proofs.WrittenFiles
import TypedClient.Proofs.TrackedTypes
import TypedClient.Proofs.EmptiedTypes
import TypedClient.Proofs.ReachableTypes
import TypedClient.Proofs.ReferenceChains
import TypedClient.Proofs.ParameterChains
import TypedClient.Proofs.PointerSegments
import TypedClient.Proofs.ListFlags
import TypedClient.Proofs.WellFormedTypes
import TypedClient.Proofs.ReadDocuments
import TypedClient.Proofs.QuotedNames
import TypedClient.Proofs.QueryMeaning
import TypedClient.Proofs.SanitizedNames
import TypedClient.Proofs.SignatureOrder
import TypedClient.Proofs.SchemaRoundTrip
import TypedClient.Proofs.ConfigLayers
import TypedClient.Proofs.OutermostMarks
import TypedClient.Proofs.PathTokens
