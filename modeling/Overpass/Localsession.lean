import Overpass.Attributes

set_option autoImplicit false

/- The overpass `localsession` catalog: the attribute table of one session, with no namespaces.
Every method holds the catalog's mutex for its whole body, so the callers' interleavings are the
sequences of whole calls. The `overpass` and `internals` packages are not part of the sources;
by the fields this file reads, `overpass.SessionID`, `SessionRef`, `RevisionNumber` and
`MessageID` have the shapes of the `ident` types, `overpass.Attr` that of `rinq.Attr`, and
`internals.AttrWithMetaData` and `AttrTableWithMetaData` those of `attrmeta.Attr` and
`attrmeta.Namespace`, so their models are used here. -/
namespace Overpass.Localsession

open Rinq.Attrmeta (Namespace)

/-- `overpass.NotFoundError`, `StaleUpdateError` and `FrozenAttributesError`, and the error a
write to the diff writer returns. -/
inductive Error (w : Nat) where
  | notFound (id : Rinq.Ident.SessionID)
  | staleUpdate (ref : Rinq.Ident.Ref w)
  | frozenAttributes (ref : Rinq.Ident.Ref w) (keys : List String)
  | write
  deriving DecidableEq

/-- The `io.Writer` passed to `TryUpdate` as `diff`, as `io.WriteString` sees it: the text written
to it so far, and which writes fail, as decided from that text and the string written. A failed
write is taken to write nothing. -/
structure Writer where
  text : String
  fails : String → String → Bool

/-- Calls of `io.WriteString` in turn, stopping at the first that fails: whether all succeeded,
and the writer after them. -/
def Writer.writeAll (wr : Writer) : List String → Bool × Writer
  | [] => (true, wr)
  | s :: rest =>
    if wr.fails wr.text s then (false, wr) else { wr with text := wr.text ++ s }.writeAll rest

variable {w : Nat}

/-- `writeDiff`: the strings it writes, in order. Its deferred `Recover` turns the panic of the
first write that fails into its error, so it writes them with `writeAll`. -/
def writeDiff (attr : Rinq.Attrmeta.Attr w) : List String :=
  if attr.attr.value = "" then
    [if attr.attr.isFrozen then "!" else "-", attr.attr.key]
  else
    (if attr.createdAt = attr.updatedAt then ["+"] else []) ++
      [attr.attr.key, if attr.attr.isFrozen then "@" else "=", attr.attr.value]

/-- What one turn of `TryUpdate`'s loop does with a proposal before any write: skip it as
unchanged, record its key as frozen, or store an entry for it. -/
inductive Proposal (w : Nat) where
  | unchanged
  | frozen
  | store (entry : Rinq.Attrmeta.Attr w)

/-- The body of `TryUpdate`'s loop on the working copy `nextAttrs`, up to `nextAttrs[attr.Key] =
entry`. The entry takes the proposal's `Value` but keeps its own `IsFrozen`. -/
def propose (nextRev : Rinq.Ident.Revision w) (nextAttrs : Namespace w) (attr : Rinq.Attr) :
    Proposal w :=
  let entry := (nextAttrs.get attr.key).1
  if attr.value = entry.attr.value ∧ attr.isFrozen = entry.attr.isFrozen then .unchanged
  else if entry.attr.isFrozen then .frozen
  else
    let entry : Rinq.Attrmeta.Attr w := if (nextAttrs.get attr.key).2 then entry
      else { entry with attr := { entry.attr with key := attr.key }, createdAt := nextRev }
    .store { entry with attr := { entry.attr with value := attr.value }, updatedAt := nextRev }

/-- The loop of `TryUpdate` over `attrs`, from position `index`: the working copy and the frozen
keys, or the error of a failed write, and the diff writer after it. A stored entry is written
after `", "` when its position in `attrs` is not the first. -/
def updateLoop (nextRev : Rinq.Ident.Revision w) :
    Namespace w → List String → Nat → Option Writer → List Rinq.Attr →
      Except (Error w) (Namespace w × List String) × Option Writer
  | nextAttrs, frozen, _, diff, [] => (.ok (nextAttrs, frozen), diff)
  | nextAttrs, frozen, index, diff, attr :: attrs =>
    match propose nextRev nextAttrs attr with
    | .unchanged => updateLoop nextRev nextAttrs frozen (index + 1) diff attrs
    | .frozen => updateLoop nextRev nextAttrs (frozen ++ [attr.key]) (index + 1) diff attrs
    | .store entry =>
      match diff with
      | none => updateLoop nextRev (nextAttrs.insert attr.key entry) frozen (index + 1) none attrs
      | some wr =>
        match wr.writeAll ((if index > 0 then [", "] else []) ++ writeDiff entry) with
        | (false, wr) => (.error .write, some wr)
        | (true, wr) =>
          updateLoop nextRev (nextAttrs.insert attr.key entry) frozen (index + 1) (some wr) attrs

/-- The `catalog` struct. The mutex and the logger hold nothing a method reads. -/
structure Catalog (w : Nat) where
  ref : Rinq.Ident.Ref w
  attrs : Namespace w
  seq : UInt32
  isClosed : Bool
  deriving DecidableEq

structure Revision (w : Nat) where
  ref : Rinq.Ident.Ref w
  attrs : Namespace w
  deriving DecidableEq

def newCatalog (id : Rinq.Ident.SessionID) : Catalog w := ⟨id.at 0, ∅, 0, false⟩

namespace Catalog

def nextMessageID (c : Catalog w) : Rinq.Ident.MessageID w × Catalog w :=
  let c := { c with seq := c.seq + 1 }
  (c.ref.message c.seq, c)

def head (c : Catalog w) : Revision w := ⟨c.ref, c.attrs⟩

def «at» (c : Catalog w) (rev : Rinq.Ident.Revision w) : Except String (Revision w) :=
  if c.ref.rev < rev then .error "revision is from the future"
  else .ok ⟨c.ref.id.at rev, c.attrs⟩

def tryUpdate (c : Catalog w) (ref : Rinq.Ident.Ref w) (attrs : List Rinq.Attr)
    (diff : Option Writer) : Except (Error w) (Revision w) × Catalog w × Option Writer :=
  if c.isClosed then (.error (.notFound c.ref.id), c, diff)
  else if ref ≠ c.ref then (.error (.staleUpdate ref), c, diff)
  else
    match updateLoop (ref.rev + 1) c.attrs.clone [] 0 diff attrs with
    | (.error err, diff) => (.error err, c, diff)
    | (.ok (nextAttrs, frozen), diff) =>
      if frozen.length > 0 then (.error (.frozenAttributes ref frozen), c, diff)
      else
        let c := { c with ref := { c.ref with rev := ref.rev + 1 }, attrs := nextAttrs, seq := 0 }
        (.ok c.head, c, diff)

/-- `TryClose`: closing a closed catalog is not an error, and returns false. -/
def tryClose (c : Catalog w) (ref : Rinq.Ident.Ref w) : Except (Error w) Bool × Catalog w :=
  if ref ≠ c.ref then (.error (.staleUpdate ref), c)
  else if c.isClosed then (.ok false, c)
  else (.ok true, { c with isClosed := true })

def close (c : Catalog w) : Catalog w := { c with isClosed := true }

end Catalog

inductive Call (w : Nat) where
  | ref
  | nextMessageID
  | head
  | «at» (rev : Rinq.Ident.Revision w)
  | attrs
  | tryUpdate (ref : Rinq.Ident.Ref w) (attrs : List Rinq.Attr) (diff : Option Writer)
  | tryClose (ref : Rinq.Ident.Ref w)
  | close

/-- What a call returns; `TryUpdate` also hands back the diff writer it wrote to. -/
inductive Reply (w : Nat) where
  | ref (ref : Rinq.Ident.Ref w)
  | messageID (id : Rinq.Ident.MessageID w)
  | revision (revision : Revision w)
  | «at» (result : Except String (Revision w))
  | attrs (ref : Rinq.Ident.Ref w) (attrs : Namespace w)
  | update (result : Except (Error w) (Revision w)) (diff : Option Writer)
  | tryClose (result : Except (Error w) Bool)
  | closed

namespace Catalog

def step (c : Catalog w) : Call w → Reply w × Catalog w
  | .ref => (.ref c.ref, c)
  | .nextMessageID => (.messageID c.nextMessageID.1, c.nextMessageID.2)
  | .head => (.revision c.head, c)
  | .at rev => (.at (c.at rev), c)
  | .attrs => (.attrs c.ref c.attrs, c)
  | .tryUpdate ref attrs diff =>
    (.update (c.tryUpdate ref attrs diff).1 (c.tryUpdate ref attrs diff).2.2,
      (c.tryUpdate ref attrs diff).2.1)
  | .tryClose ref => (.tryClose (c.tryClose ref).1, (c.tryClose ref).2)
  | .close => (.closed, c.close)

def run (c : Catalog w) : List (Call w) → List (Reply w) × Catalog w
  | [] => ([], c)
  | call :: calls =>
    ((c.step call).1 :: ((c.step call).2.run calls).1, ((c.step call).2.run calls).2)

@[simp] theorem run_nil (c : Catalog w) : c.run [] = ([], c) := rfl

@[simp] theorem run_cons (c : Catalog w) (call : Call w) (calls : List (Call w)) :
    c.run (call :: calls) =
      ((c.step call).1 :: ((c.step call).2.run calls).1, ((c.step call).2.run calls).2) := rfl

inductive Reachable : Catalog w → Prop
  | newCatalog (id : Rinq.Ident.SessionID) : Reachable (newCatalog id)
  | step {c : Catalog w} (call : Call w) : Reachable c → Reachable (c.step call).2

end Catalog

end Overpass.Localsession
