import TypeModel.Catalog.Basic
import TypeModel.Store.Registration
import TypeModel.Proofs.Metadata
import TypeModel.Proofs.ProxyMarker
import TypeModel.Proofs.ProxyIndex
import TypeModel.Catalog.Request
import TypeModel.Proofs.CatalogRun
import TypeModel.Proofs.ProxyLookup
import TypeModel.Proofs.IdentifierMap
import TypeModel.Proofs.Isolation
import TypeModel.Proofs.Overlay
import TypeModel.Proofs.WellFormed
import TypeModel.Proofs.Slots
import TypeModel.Proofs.Following
import TypeModel.Proofs.IgnoreCascade
import TypeModel.Proofs.OverloadNames
import TypeModel.Proofs.Listing
import TypeModel.Proofs.Coverage
import TypeModel.Proofs.Positions
import TypeModel.Proofs.InRange
import TypeModel.Proofs.LinearScan
import TypeModel.Proofs.Substitution
import TypeModel.Proofs.WholeStore
import TypeModel.Proofs.Alike
import TypeModel.Proofs.Skeleton
import TypeModel.Proofs.Gains
import TypeModel.Proofs.IgnoreMonotone
import TypeModel.Proofs.CommonInstance
import TypeModel.Proofs.SoleAnnotation
import TypeModel.Proofs.MarkerGrammar
import TypeModel.Proofs.RecordFailures
import TypeModel.Proofs.OverloadGroups
import TypeModel.Proofs.MergedMetadata
import TypeModel.Proofs.AccessorLinks
import TypeModel.Proofs.HiddenName
import TypeModel.Proofs.HiddenMembers
import TypeModel.Proofs.MetadataHistory
import TypeModel.Proofs.EnumTables
import TypeModel.Proofs.FlagsMark
import TypeModel.Proofs.StaticConstructor
import TypeModel.Proofs.HiddenNamePattern
import TypeModel.Proofs.RegistrationRun
import TypeModel.Proofs.FilledStore
