import Overpass.Ident

set_option autoImplicit false

namespace Rinq.Revisions

/-- `Store`, by its `GetRevision`: the revision and the error it returns for a ref. The
implementations of `rinq.Revision` and of the two stores are not in the sources, so the
revisions are of a type `R` and the errors of a type `E`. -/
def Store (w : Nat) (R E : Type) : Type := Ident.Ref w → R × Option E

/-- `AggregateStore`; a nil store is `none`. -/
structure AggregateStore (w : Nat) (R E : Type) where
  peerID : Ident.PeerID
  «local» : Option (Store w R E)
  remote : Option (Store w R E)

variable {w : Nat} {R E : Type}

def newAggregateStore (peerID : Ident.PeerID) («local» remote : Option (Store w R E)) :
    AggregateStore w R E :=
  ⟨peerID, «local», remote⟩

end Rinq.Revisions
