import Overpass.Attributes

set_option autoImplicit false

/- The rinq `localsession` catalog: the authoritative attribute table of one session. Every
method holds the catalog's mutex for its whole body, so the callers' interleavings are the
sequences of whole calls, and each method is a function from the catalog to its result and the
next catalog. -/
namespace Rinq.Localsession

open Attrmeta (Namespace Table Diff)

instance decidableEqExcept {ε α : Type} [DecidableEq ε] [DecidableEq α] :
    DecidableEq (Except ε α)
  | .error a, .error b =>
    if same : a = b then isTrue (same ▸ rfl) else isFalse fun e => same (Except.error.inj e)
  | .ok a, .ok b =>
    if same : a = b then isTrue (same ▸ rfl) else isFalse fun e => same (Except.ok.inj e)
  | .error _, .ok _ => isFalse nofun
  | .ok _, .error _ => isFalse nofun

/-- The `catalog` struct: the current ref, the attribute table, the message sequence number and
whether the `done` channel has been closed. The mutex and the logger hold nothing a method
reads. -/
structure Catalog (w : Nat) where
  ref : Ident.Ref w
  attrs : Table w
  seq : UInt32
  done : Bool
  deriving DecidableEq

structure Revision (w : Nat) where
  ref : Ident.Ref w
  attrs : Table w
  deriving DecidableEq

variable {w : Nat}

def newCatalog (id : Ident.SessionID) : Catalog w where
  ref := id.at 0
  attrs := ∅
  seq := 0
  done := false

namespace Catalog

def nextMessageID (c : Catalog w) : (Ident.MessageID w × Table w) × Catalog w :=
  let c := { c with seq := c.seq + 1 }
  ((c.ref.message c.seq, c.attrs), c)

def head (c : Catalog w) : Revision w := ⟨c.ref, c.attrs⟩

/-- `At`: a revision at an earlier ref of the session, which reads the current table. -/
def «at» (c : Catalog w) (rev : Ident.Revision w) : Except String (Revision w) :=
  if c.ref.rev < rev then .error "revision is from the future"
  else .ok ⟨c.ref.id.at rev, c.attrs⟩

end Catalog

/-- The loop of `TryUpdate` over the proposed attributes, on the working copy `nextAttrs` of the
namespace. A proposal equal in value and frozen flag to the working entry is skipped; any other
proposal for a frozen entry aborts the whole update. -/
def updateLoop (ref : Ident.Ref w) (nextRev : Ident.Revision w) :
    Namespace w → Diff w → List Rinq.Attr → Except (Error w) (Namespace w × Diff w)
  | nextAttrs, diff, [] => .ok (nextAttrs, diff)
  | nextAttrs, diff, attr :: attrs =>
    let entry := (nextAttrs.get attr.key).1
    if attr.value = entry.attr.value ∧ attr.isFrozen = entry.attr.isFrozen then
      updateLoop ref nextRev nextAttrs diff attrs
    else if entry.attr.isFrozen then
      .error (.frozenAttributes ref [])
    else
      let entry : Attrmeta.Attr w := { entry with
        attr := attr
        updatedAt := nextRev
        createdAt := if (nextAttrs.get attr.key).2 then entry.createdAt else nextRev }
      updateLoop ref nextRev (nextAttrs.insert attr.key entry) (diff.append entry) attrs

/-- The loop of `TryClear` over the entries of the namespace, in the order `range` visits them.
Each entry is stored again under its own `Key`, emptied when it had a value. -/
def clearLoop (ref : Ident.Ref w) (nextRev : Ident.Revision w) :
    Namespace w → Diff w → List (Σ _ : String, Attrmeta.Attr w) →
      Except (Error w) (Namespace w × Diff w)
  | nextAttrs, diff, [] => .ok (nextAttrs, diff)
  | nextAttrs, diff, ⟨_, entry⟩ :: visit =>
    if entry.attr.value ≠ "" then
      if entry.attr.isFrozen then
        .error (.frozenAttributes ref [])
      else
        let entry : Attrmeta.Attr w :=
          { entry with attr := { entry.attr with value := "" }, updatedAt := nextRev }
        clearLoop ref nextRev (nextAttrs.insert entry.attr.key entry) (diff.append entry) visit
    else
      clearLoop ref nextRev (nextAttrs.insert entry.attr.key entry) diff visit

namespace Catalog

/-- The commit of `TryUpdate` and `TryClear`: advance the revision, reset the sequence number,
and install the next namespace only when the diff is not empty. -/
def commit (c : Catalog w) (ns : String) (nextRev : Ident.Revision w) (nextAttrs : Namespace w)
    (diff : Diff w) : Catalog w :=
  { c with
    ref := { c.ref with rev := nextRev }
    seq := 0
    attrs := if diff.isEmpty then c.attrs else c.attrs.cloneAndMerge ns nextAttrs }

/-- What `TryUpdate` and `TryClear` share: the closed check, the ref check, a loop that builds
the next namespace and may abort, and the commit. -/
def update (c : Catalog w) (ref : Ident.Ref w) (ns : String)
    (loop : Ident.Revision w → Except (Error w) (Namespace w × Diff w)) :
    Except (Error w) (Revision w × Diff w) × Catalog w :=
  if c.done then (.error (.notFound c.ref.id), c)
  else if ref ≠ c.ref then (.error (.staleUpdate ref), c)
  else
    match loop (ref.rev + 1) with
    | .error err => (.error err, c)
    | .ok (nextAttrs, diff) =>
      (.ok ((c.commit ns (ref.rev + 1) nextAttrs diff).head, diff),
        c.commit ns (ref.rev + 1) nextAttrs diff)

/-- `TryUpdate`: the loop runs over a clone of the namespace. -/
def tryUpdate (c : Catalog w) (ref : Ident.Ref w) (ns : String) (attrs : List Rinq.Attr) :
    Except (Error w) (Revision w × Diff w) × Catalog w :=
  c.update ref ns fun nextRev =>
    updateLoop ref nextRev (c.attrs.get ns).clone (Attrmeta.newDiff ns nextRev attrs.length) attrs

def tryClear (c : Catalog w) (ref : Ident.Ref w) (ns : String)
    (visit : List (Σ _ : String, Attrmeta.Attr w)) :
    Except (Error w) (Revision w × Diff w) × Catalog w :=
  c.update ref ns fun nextRev => clearLoop ref nextRev ∅ (Attrmeta.newDiff ns nextRev 0) visit

/-- `TryDestroy`: closing a closed catalog is not an error. -/
def tryDestroy (c : Catalog w) (ref : Ident.Ref w) : Option (Error w) × Catalog w :=
  if ref ≠ c.ref then (some (.staleUpdate ref), c)
  else (none, { c with done := true })

def close (c : Catalog w) : Catalog w := { c with done := true }

end Catalog

/-- A call of a catalog method. The order in which `TryClear`'s `range` visits the namespace is
the runtime's choice, so it is part of the call. -/
inductive Call (w : Nat) where
  | ref
  | nextMessageID
  | head
  | «at» (rev : Ident.Revision w)
  | attrs
  | attrsIn (ns : String)
  | tryUpdate (ref : Ident.Ref w) (ns : String) (attrs : List Rinq.Attr)
  | tryClear (ref : Ident.Ref w) (ns : String) (visit : List (Σ _ : String, Attrmeta.Attr w))
  | tryDestroy (ref : Ident.Ref w)
  | close
  | done

/-- What a call returns. `Done` is observed as whether its channel has been closed. -/
inductive Reply (w : Nat) where
  | ref (ref : Ident.Ref w)
  | messageID (id : Ident.MessageID w) (attrs : Table w)
  | revision (revision : Revision w)
  | «at» (result : Except String (Revision w))
  | attrs (ref : Ident.Ref w) (attrs : Table w)
  | attrsIn (ref : Ident.Ref w) (attrs : Namespace w)
  | update (result : Except (Error w) (Revision w × Diff w))
  | destroy (err : Option (Error w))
  | closed
  | done (closed : Bool)

namespace Catalog

def step (c : Catalog w) : Call w → Reply w × Catalog w
  | .ref => (.ref c.ref, c)
  | .nextMessageID => (.messageID c.nextMessageID.1.1 c.nextMessageID.1.2, c.nextMessageID.2)
  | .head => (.revision c.head, c)
  | .at rev => (.at (c.at rev), c)
  | .attrs => (.attrs c.ref c.attrs, c)
  | .attrsIn ns => (.attrsIn c.ref (c.attrs.get ns), c)
  | .tryUpdate ref ns attrs => (.update (c.tryUpdate ref ns attrs).1, (c.tryUpdate ref ns attrs).2)
  | .tryClear ref ns visit => (.update (c.tryClear ref ns visit).1, (c.tryClear ref ns visit).2)
  | .tryDestroy ref => (.destroy (c.tryDestroy ref).1, (c.tryDestroy ref).2)
  | .close => (.closed, c.close)
  | .done => (.done c.done, c)

def run (c : Catalog w) : List (Call w) → List (Reply w) × Catalog w
  | [] => ([], c)
  | call :: calls =>
    ((c.step call).1 :: ((c.step call).2.run calls).1, ((c.step call).2.run calls).2)

@[simp] theorem run_nil (c : Catalog w) : c.run [] = ([], c) := rfl

@[simp] theorem run_cons (c : Catalog w) (call : Call w) (calls : List (Call w)) :
    c.run (call :: calls) =
      ((c.step call).1 :: ((c.step call).2.run calls).1, ((c.step call).2.run calls).2) := rfl

end Catalog

/-- `visit` is an order in which Go's `range` may visit the namespace: each entry once. -/
def Enumerates (ns : Namespace w) (visit : List (Σ _ : String, Attrmeta.Attr w)) : Prop :=
  (visit : Multiset (Σ _ : String, Attrmeta.Attr w)) = ns.entries

instance (ns : Namespace w) (visit : List (Σ _ : String, Attrmeta.Attr w)) :
    Decidable (Enumerates ns visit) :=
  inferInstanceAs (Decidable (_ = _))

/-- A call the runtime can make: `TryClear` visits exactly the entries of its namespace. -/
def Call.Admissible (c : Catalog w) : Call w → Prop
  | .tryClear _ ns visit => Enumerates (c.attrs.get ns) visit
  | _ => True

instance Call.decidableAdmissible (c : Catalog w) : (call : Call w) → Decidable (call.Admissible c)
  | .tryClear _ ns visit => inferInstanceAs (Decidable (Enumerates (c.attrs.get ns) visit))
  | .ref | .nextMessageID | .head | .at _ | .attrs | .attrsIn _ | .tryUpdate _ _ _ | .tryDestroy _
  | .close | .done => isTrue trivial

def Admissible : Catalog w → List (Call w) → Prop
  | _, [] => True
  | c, call :: calls => call.Admissible c ∧ Admissible (c.step call).2 calls

instance decidableAdmissible : (c : Catalog w) → (calls : List (Call w)) →
    Decidable (Admissible c calls)
  | _, [] => isTrue trivial
  | c, call :: calls =>
    have := decidableAdmissible (c.step call).2 calls
    inferInstanceAs (Decidable (call.Admissible c ∧ Admissible (c.step call).2 calls))

/-- The catalogs some admissible sequence of calls leads to from `NewCatalog`. -/
inductive Reachable : Catalog w → Prop
  | newCatalog (id : Ident.SessionID) : Reachable (newCatalog id)
  | step {c : Catalog w} (call : Call w) (admissible : call.Admissible c) :
      Reachable c → Reachable (c.step call).2

end Rinq.Localsession
