import Overpass.Ident
import Overpass.MessageIssuer
import Overpass.AggregateStore
import Overpass.Attributes
import Overpass.Catalog
import Overpass.UpdateLoop
import Overpass.CatalogUpdate
import Overpass.ClearLoop
import Overpass.CatalogInvariant
import Overpass.CatalogCounters
import Overpass.CatalogCompose
import Overpass.CatalogBounded
import Overpass.CatalogClear
import Overpass.Payload
import Overpass.PayloadRefCount
import Overpass.PayloadCache
import Overpass.Response
import Overpass.ResponseOnce
import Overpass.Trace
import Overpass.AttrmetaRange
import Overpass.RemoteLog
import Overpass.Localsession
import Overpass.LocalsessionUpdate
import Overpass.LocalsessionRuns
import Overpass.LocalsessionDiff
import Overpass.LocalsessionMirror
