import Overpass.LocalsessionRuns
import Overpass.AttrmetaRange

set_option autoImplicit false

namespace Overpass.Localsession

open Rinq.Attrmeta (Namespace intercalate_go_append)

variable {w : Nat}

end Overpass.Localsession
