import Depot.Text.Blank
import Depot.Text.Lowercase
import Depot.Text.Hex
import Depot.Numeral.Shortest
import Depot.Numeral.Long
import Depot.Numeral.Double
import Depot.Version.Basic
import Depot.Version.Range
import Depot.Table
import Depot.Attribute.Basic
import Depot.Attribute.Codec
import Depot.Filter.Basic
import Depot.Filter.Parser
import Depot.Filter.Match
import Depot.Filter.Glob
import Depot.Digest.Sha256
import Depot.Digest.Basic
import Depot.Resource.Basic
import Depot.Resource.Builder
import Depot.Index
import Depot.Provider
import Depot.Query
import Depot.Store
import Depot.Config.Toml
import Depot.Config
import Depot.Repository
import Depot.Proofs.Index
import Depot.Proofs.Providers
import Depot.Proofs.Builder
import Depot.Proofs.Query
import Depot.Proofs.FilterReading
import Depot.Proofs.FilterText
import Depot.Proofs.Negation
import Depot.Proofs.QueryErrors
import Depot.Proofs.StreamDigest
import Depot.Proofs.References
import Depot.Proofs.StoreReads
import Depot.Proofs.Assembly
import Depot.Proofs.RangeFilter
import Depot.Proofs.IdentityRequirement
import Depot.Proofs.ScalarText
import Depot.Proofs.AttributeText
import Depot.Proofs.VersionText
import Depot.Proofs.GarbageCollection
import Depot.Proofs.FilterBlanks
