import Mathlib.Data.Finmap
import Overpass.Ident

set_option autoImplicit false

namespace Rinq

structure Attr where
  key : String
  value : String
  isFrozen : Bool
  deriving DecidableEq, Repr

instance inhabitedAttr : Inhabited Attr := ⟨⟨"", "", false⟩⟩

def set (key value : String) : Attr := ⟨key, value, false⟩

def freeze (key value : String) : Attr := ⟨key, value, true⟩

inductive Error (w : Nat) where
  | notFound (id : Ident.SessionID)
  | staleUpdate (ref : Ident.Ref w)
  | frozenAttributes (ref : Ident.Ref w) (keys : List String)
  deriving DecidableEq, Repr

namespace Attrmeta

/-- `attrmeta.Attr`: an attribute with the revisions at which it was created and last
updated. Go promotes the fields of the embedded `rinq.Attr`: `entry.Value` is `entry.attr.value`. -/
structure Attr (w : Nat) where
  attr : Rinq.Attr
  createdAt : Ident.Revision w
  updatedAt : Ident.Revision w
  deriving DecidableEq, Repr

variable {w : Nat}

/-- Go's zero value, which indexing a map yields for an absent key. -/
instance : Inhabited (Attr w) := ⟨⟨⟨"", "", false⟩, 0, 0⟩⟩

/-- `attrmeta.Namespace`. A Go map is a finite map: equality is extensional, and the order in
which `range` visits it is not part of the map. -/
abbrev Namespace (w : Nat) := Finmap fun _ : String => Attr w

abbrev Table (w : Nat) := Finmap fun _ : String => Namespace w

/-- `Namespace.Clone`: a fresh map with the same entries, which a value cannot tell apart. -/
def Namespace.clone (ns : Namespace w) : Namespace w := ns

/-- Go's `entry, exists := ns[key]`. -/
def Namespace.get (ns : Namespace w) (key : String) : Attr w × Bool :=
  match ns.lookup key with
  | some entry => (entry, true)
  | none => (default, false)

/-- Go's `t[ns]`: a nil namespace, which has no entries, when the table has none by that name. -/
def Table.get (t : Table w) (ns : String) : Namespace w := (t.lookup ns).getD ∅

/-- Modelled from the spec: `Table.CloneAndMerge` is not in the sources. Per the spec, a
committed update installs the working namespace into a copy of the table. -/
def Table.cloneAndMerge (t : Table w) (ns : String) (attrs : Namespace w) : Table w :=
  t.insert ns attrs

/-- Modelled from the spec, with `NewDiff`, `Append` and `IsEmpty`: `attrmeta.Diff` is not in the
sources. Per the spec, a diff is the namespace, the revision, and the ordered sequence of changed
entries; the capacity `NewDiff` takes only sizes Go's buffer. -/
structure Diff (w : Nat) where
  ns : String
  rev : Ident.Revision w
  entries : List (Attr w)
  deriving DecidableEq, Repr

def newDiff (ns : String) (rev : Ident.Revision w) (_capacity : Nat) : Diff w :=
  ⟨ns, rev, []⟩

def Diff.append (diff : Diff w) (entry : Attr w) : Diff w :=
  { diff with entries := diff.entries ++ [entry] }

def Diff.isEmpty (diff : Diff w) : Bool := diff.entries.isEmpty

@[simp] theorem Attr.default_attr : (default : Attr w).attr = ⟨"", "", false⟩ := rfl

@[simp] theorem Attr.default_createdAt : (default : Attr w).createdAt = 0 := rfl

@[simp] theorem Attr.default_updatedAt : (default : Attr w).updatedAt = 0 := rfl

@[simp] theorem Namespace.clone_eq (ns : Namespace w) : ns.clone = ns := rfl

theorem Namespace.get_of_lookup_some {ns : Namespace w} {key : String} {entry : Attr w}
    (found : ns.lookup key = some entry) : ns.get key = (entry, true) := by
  simp only [Namespace.get, found]

theorem Namespace.get_of_lookup_none {ns : Namespace w} {key : String}
    (absent : ns.lookup key = none) : ns.get key = (default, false) := by
  simp only [Namespace.get, absent]

@[simp] theorem Namespace.get_snd (ns : Namespace w) (key : String) :
    (ns.get key).2 = (ns.lookup key).isSome := by
  unfold Namespace.get
  split <;> simp_all

@[simp] theorem Table.get_empty (ns : String) : (∅ : Table w).get ns = ∅ := rfl

@[simp] theorem Table.get_cloneAndMerge_self (t : Table w) (ns : String) (attrs : Namespace w) :
    (t.cloneAndMerge ns attrs).get ns = attrs := by
  simp only [Table.get, Table.cloneAndMerge, Finmap.lookup_insert, Option.getD_some]

theorem Table.get_cloneAndMerge_of_ne (t : Table w) {ns other : String} (attrs : Namespace w)
    (apart : other ≠ ns) : (t.cloneAndMerge ns attrs).get other = t.get other := by
  simp only [Table.get, Table.cloneAndMerge, Finmap.lookup_insert_of_ne _ apart]

@[simp] theorem newDiff_entries (ns : String) (rev : Ident.Revision w) (capacity : Nat) :
    (newDiff ns rev capacity).entries = [] := rfl

@[simp] theorem Diff.append_entries (diff : Diff w) (entry : Attr w) :
    (diff.append entry).entries = diff.entries ++ [entry] := rfl

@[simp] theorem Diff.append_ns (diff : Diff w) (entry : Attr w) :
    (diff.append entry).ns = diff.ns := rfl

@[simp] theorem Diff.append_rev (diff : Diff w) (entry : Attr w) :
    (diff.append entry).rev = diff.rev := rfl

/-! ## Revisions of the entries -/

/-- Every entry was created at a revision above zero, updated no earlier, and updated no later
than `rev`, comparing revisions as the unsigned numbers Go compares. -/
def Namespace.Ordered (ns : Namespace w) (rev : Ident.Revision w) : Prop :=
  ∀ key entry, ns.lookup key = some entry →
    0 < entry.createdAt ∧ entry.createdAt ≤ entry.updatedAt ∧ entry.updatedAt ≤ rev

variable {ns : Namespace w} {rev : Ident.Revision w}

theorem Namespace.Ordered.mono {rev' : Ident.Revision w} (ordered : ns.Ordered rev)
    (later : rev.toNat ≤ rev'.toNat) : ns.Ordered rev' := fun key entry found => by
  obtain ⟨created, updated, bounded⟩ := ordered key entry found
  rw [BitVec.le_def] at bounded ⊢
  exact ⟨created, updated, bounded.trans later⟩

theorem Namespace.Ordered.insert (ordered : ns.Ordered rev) {key : String} {entry : Attr w}
    (bounded : 0 < entry.createdAt ∧ entry.createdAt ≤ entry.updatedAt ∧ entry.updatedAt ≤ rev) :
    Namespace.Ordered (ns.insert key entry) rev := fun key' entry' found => by
  by_cases same : key' = key
  · subst same
    rw [Finmap.lookup_insert, Option.some.injEq] at found
    exact found ▸ bounded
  · rw [Finmap.lookup_insert_of_ne _ same] at found
    exact ordered key' entry' found

end Attrmeta

end Rinq
