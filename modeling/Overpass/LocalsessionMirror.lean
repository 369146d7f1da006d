import Overpass.LocalsessionRuns
import Overpass.CatalogUpdate

set_option autoImplicit false

namespace Overpass.Localsession

open Rinq.Attrmeta (Namespace)

variable {w : Nat}

def Writer.Reliable (wr : Writer) : Prop := ∀ text s, wr.fails text s = false

def Reliable (diff : Option Writer) : Prop := ∀ wr ∈ diff, wr.Reliable

theorem Writer.writeAll_of_reliable {wr : Writer} (reliable : wr.Reliable)
    (pieces : List String) :
    ∃ wr', wr.writeAll pieces = (true, wr') ∧ wr'.Reliable := by
  induction pieces generalizing wr with
  | nil => exact ⟨wr, rfl, reliable⟩
  | cons piece pieces ih =>
    rw [writeAll, if_neg (by rw [reliable]; exact Bool.false_ne_true)]
    exact ih reliable

theorem updateLoop_of_reliable (nextRev : Rinq.Ident.Revision w) (nextAttrs : Namespace w)
    (frozen : List String) (index : Nat) {diff : Option Writer} (reliable : Reliable diff)
    (attrs : List Rinq.Attr) :
    (updateLoop nextRev nextAttrs frozen index diff attrs).1 =
      .ok (applyAll nextRev nextAttrs frozen attrs) := by
  induction attrs generalizing nextAttrs frozen index diff with
  | nil => rfl
  | cons attr attrs ih =>
    cases proposal : propose nextRev nextAttrs attr with
    | unchanged | frozen => simpa only [updateLoop, applyAll, proposal] using ih _ _ _ reliable
    | store entry =>
      simp only [updateLoop, applyAll, proposal]
      cases diff with
      | none => exact ih _ _ _ reliable
      | some wr =>
        obtain ⟨wr', written, reliable'⟩ :=
          Writer.writeAll_of_reliable (reliable wr rfl) ((if index > 0 then [", "] else []) ++
            writeDiff entry)
        simp only [written]
        exact ih _ _ _ fun wr'' mem => Option.mem_some_iff.mp mem ▸ reliable'

theorem propose_eq_unchanged_iff (nextRev : Rinq.Ident.Revision w) (nextAttrs : Namespace w)
    (attr : Rinq.Attr) :
    propose nextRev nextAttrs attr = .unchanged ↔
      attr.value = (nextAttrs.get attr.key).1.attr.value ∧
        attr.isFrozen = (nextAttrs.get attr.key).1.attr.isFrozen := by
  unfold propose
  by_cases same : attr.value = (nextAttrs.get attr.key).1.attr.value ∧
      attr.isFrozen = (nextAttrs.get attr.key).1.attr.isFrozen
  · rw [if_pos same]
    exact iff_of_true rfl same
  · rw [if_neg same]
    simp only [same, iff_false]
    split <;> simp

theorem applyAll_of_stored_eq_nil {nextRev : Rinq.Ident.Revision w} {nextAttrs : Namespace w}
    (frozen : List String) {attrs : List Rinq.Attr} (none : stored nextRev nextAttrs attrs = []) :
    (applyAll nextRev nextAttrs frozen attrs).1 = nextAttrs := by
  induction attrs generalizing frozen with
  | nil => rfl
  | cons attr attrs ih =>
    cases proposal : propose nextRev nextAttrs attr with
    | unchanged | frozen =>
      simp only [stored, proposal] at none
      simpa only [applyAll, proposal] using ih _ none
    | store entry => simp [stored, proposal] at none

/-- For a proposal that is not frozen, `propose` stores the entry the rinq loop writes: the
proposal under its key, created at `nextRev` when new, updated at `nextRev`. -/
theorem Working.store_eq {table nextAttrs : Namespace w} {nextRev : Rinq.Ident.Revision w}
    (working : Working table nextRev nextAttrs) {attr : Rinq.Attr} (thawed : attr.isFrozen = false)
    {entry : Rinq.Attrmeta.Attr w} (proposed : propose nextRev nextAttrs attr = .store entry) :
    entry = { (nextAttrs.get attr.key).1 with
      attr := attr, updatedAt := nextRev
      createdAt := if (nextAttrs.get attr.key).2 then (nextAttrs.get attr.key).1.createdAt
        else nextRev } := by
  obtain ⟨value, unfrozen, updated, replaced, created⟩ := propose_eq_store proposed
  obtain ⟨⟨key, v, f⟩, createdAt, updatedAt⟩ := entry
  obtain ⟨k, v', f'⟩ := attr
  cases current : nextAttrs.lookup k with
  | none =>
    obtain ⟨named, born⟩ := created current
    simp_all [Namespace.get_of_lookup_none current]
  | some found =>
    obtain ⟨named, born⟩ := replaced found current
    have own := working.key _ _ current
    simp_all [Namespace.get_of_lookup_some current]

/-- Over a working copy and proposals that freeze nothing, the rinq loop ends with the table
`applyAll` leaves and appends the entries the overpass loop stores. -/
theorem Working.updateLoop_rinq {table nextAttrs : Namespace w} {nextRev : Rinq.Ident.Revision w}
    (working : Working table nextRev nextAttrs) (ref : Rinq.Ident.Ref w)
    (diff : Rinq.Attrmeta.Diff w) {attrs : List Rinq.Attr}
    (thawed : ∀ attr ∈ attrs, attr.isFrozen = false) :
    Rinq.Localsession.updateLoop ref nextRev nextAttrs diff attrs =
      .ok ((Localsession.applyAll nextRev nextAttrs [] attrs).1,
        { diff with entries := diff.entries ++ Localsession.stored nextRev nextAttrs attrs }) := by
  induction attrs generalizing nextAttrs diff with
  | nil => simp [Rinq.Localsession.updateLoop, Localsession.applyAll, Localsession.stored]
  | cons attr attrs ih =>
    have rest : ∀ attr ∈ attrs, attr.isFrozen = false := fun a mem => thawed a (.tail _ mem)
    rw [Rinq.Localsession.updateLoop]
    cases proposal : propose nextRev nextAttrs attr with
    | unchanged =>
      rw [if_pos ((propose_eq_unchanged_iff nextRev nextAttrs attr).mp proposal)]
      simpa only [Localsession.applyAll, Localsession.stored, proposal] using ih working diff rest
    | frozen => exact absurd proposal (working.propose_ne_frozen attr)
    | store entry =>
      have changes := mt (propose_eq_unchanged_iff nextRev nextAttrs attr).mpr
        (proposal ▸ nofun)
      rw [if_neg changes, if_neg (by simp [working.get_isFrozen]),
        ← working.store_eq (thawed attr (.head _)) proposal]
      simp only [Localsession.applyAll, Localsession.stored, proposal]
      rw [ih (working.insert proposal) _ rest]
      simp [Rinq.Attrmeta.Diff.append]

/-! ## The two catalogs -/

/-- The error the rinq catalog gives for an overpass one; its `FrozenAttributesError` names no
keys, and it has no writer error. -/
def Error.Mirrors : Error w → Rinq.Error w → Prop
  | .notFound id, .notFound id' => id = id'
  | .staleUpdate ref, .staleUpdate ref' => ref = ref'
  | .frozenAttributes ref _, .frozenAttributes ref' _ => ref = ref'
  | _, _ => False

/-- An overpass revision: the ref of a rinq revision and its namespace `ns`. -/
def Revision.Mirrors (ns : String) (rev : Revision w) (rev' : Rinq.Localsession.Revision w) :
    Prop :=
  rev.ref = rev'.ref ∧ rev.attrs = rev'.attrs.get ns

/-- An overpass reply and the rinq reply to the same call on the namespace `ns`. `TryClose`
answers as `TryDestroy` does, and also says whether it closed the catalog. -/
def Reply.Mirrors (ns : String) : Reply w → Rinq.Localsession.Reply w → Prop
  | .ref r, .ref r' => r = r'
  | .messageID id, .messageID id' _ => id = id'
  | .revision rev, .revision rev' => rev.Mirrors ns rev'
  | .at (.ok rev), .at (.ok rev') => rev.Mirrors ns rev'
  | .at (.error err), .at (.error err') => err = err'
  | .attrs r table, .attrsIn r' table' => r = r' ∧ table = table'
  | .update (.ok rev) _, .update (.ok (rev', _)) => rev.Mirrors ns rev'
  | .update (.error err) _, .update (.error err') => err.Mirrors err'
  | .tryClose (.ok _), .destroy none => True
  | .tryClose (.error err), .destroy (some err') => err.Mirrors err'
  | .closed, .closed => True
  | _, _ => False

def Call.toRinq (ns : String) : Call w → Rinq.Localsession.Call w
  | .ref => .ref
  | .nextMessageID => .nextMessageID
  | .head => .head
  | .at rev => .at rev
  | .attrs => .attrsIn ns
  | .tryUpdate r proposals _ => .tryUpdate r ns proposals
  | .tryClose r => .tryDestroy r
  | .close => .close

def Call.Plain : Call w → Prop
  | .tryUpdate _ proposals diff => (∀ attr ∈ proposals, attr.isFrozen = false) ∧ Reliable diff
  | _ => True

namespace Catalog

/-- An overpass catalog in the state of the namespace `ns` of a rinq catalog. The two `catalog.go`
files have the same methods on the same state; the overpass one keeps a single table, collects
the frozen keys before it fails, writes its diff to an `io.Writer`, and copies a proposal's
`Value` but not its `IsFrozen`. -/
structure Mirrors (ns : String) (c : Catalog w) (rc : Rinq.Localsession.Catalog w) : Prop where
  ref : c.ref = rc.ref
  seq : c.seq = rc.seq
  isClosed : c.isClosed = rc.done
  attrs : c.attrs = rc.attrs.get ns

theorem newCatalog_mirrors (ns : String) (id : Rinq.Ident.SessionID) :
    (newCatalog id : Catalog w).Mirrors ns (Rinq.Localsession.newCatalog id) :=
  ⟨rfl, rfl, rfl, rfl⟩

variable {c : Catalog w} {rc : Rinq.Localsession.Catalog w} {ns : String}

theorem tryUpdate_of_reliable (inv : c.Inv) (running : c.isClosed = false)
    {ref : Rinq.Ident.Ref w} (current : ref = c.ref) (attrs : List Rinq.Attr)
    {diff : Option Writer} (reliable : Reliable diff) :
    (c.tryUpdate ref attrs diff).1 =
        .ok ⟨{ c.ref with rev := ref.rev + 1 }, (applyAll (ref.rev + 1) c.attrs [] attrs).1⟩ ∧
      (c.tryUpdate ref attrs diff).2.1 =
        { c with
          ref := { c.ref with rev := ref.rev + 1 }
          attrs := (applyAll (ref.rev + 1) c.attrs [] attrs).1
          seq := 0 } := by
  have loop : (updateLoop (ref.rev + 1) c.attrs.clone [] 0 diff attrs).1 =
      .ok ((applyAll (ref.rev + 1) c.attrs [] attrs).1, []) :=
    (updateLoop_of_reliable _ _ [] 0 reliable attrs).trans
      (congrArg Except.ok (Prod.ext rfl ((inv.working (ref.rev + 1)).applyAll [] attrs).2))
  unfold tryUpdate
  rw [if_neg (by simp [running]), if_neg (not_not.mpr current)]
  rcases looped : updateLoop (ref.rev + 1) c.attrs.clone [] 0 diff attrs with ⟨result, diff'⟩
  rw [looped] at loop
  subst loop
  exact ⟨rfl, rfl⟩

theorem tryUpdate_of_stale {ref : Rinq.Ident.Ref w} {attrs : List Rinq.Attr}
    {diff : Option Writer} (running : c.isClosed = false) (stale : ¬ref = c.ref) :
    c.tryUpdate ref attrs diff = (.error (.staleUpdate ref), c, diff) := by
  unfold tryUpdate
  rw [if_neg (by simp [running]), if_pos stale]

theorem commit_get (rc : Rinq.Localsession.Catalog w) (ns : String)
    (nextRev : Rinq.Ident.Revision w) (nextAttrs : Namespace w) (diff : Rinq.Attrmeta.Diff w) :
    (rc.commit ns nextRev nextAttrs diff).attrs.get ns =
      if diff.isEmpty then rc.attrs.get ns else nextAttrs := by
  rw [Rinq.Localsession.Catalog.commit_attrs]
  split <;> simp

/-- A `TryUpdate` that freezes nothing, with a writer that takes every write, answers as the rinq
`TryUpdate` of the same proposals on the namespace, and both catalogs move alike. -/
theorem Mirrors.tryUpdate (mirrors : c.Mirrors ns rc) (inv : c.Inv) (ref : Rinq.Ident.Ref w)
    {attrs : List Rinq.Attr} (thawed : ∀ attr ∈ attrs, attr.isFrozen = false)
    {diff : Option Writer} (reliable : Reliable diff) :
    Reply.Mirrors ns (c.step (.tryUpdate ref attrs diff)).1
        (rc.step (.tryUpdate ref ns attrs)).1 ∧
      (c.step (.tryUpdate ref attrs diff)).2.Mirrors ns (rc.step (.tryUpdate ref ns attrs)).2 := by
  cases closed : c.isClosed
  · by_cases current : ref = c.ref
    · obtain ⟨result, state⟩ := tryUpdate_of_reliable inv closed current attrs reliable
      have working : Working c.attrs (ref.rev + 1) (rc.attrs.get ns) :=
        mirrors.attrs ▸ inv.working _
      have outcome : rc.tryUpdate ref ns attrs = _ := Rinq.Localsession.Catalog.update_of_ok
        (mirrors.isClosed ▸ closed) (current.trans mirrors.ref)
        (working.updateLoop_rinq ref (Rinq.Attrmeta.newDiff ns (ref.rev + 1) attrs.length) thawed)
      rw [← mirrors.attrs] at outcome
      have table : (applyAll (ref.rev + 1) c.attrs [] attrs).1 =
          (rc.tryUpdate ref ns attrs).2.attrs.get ns := by
        rw [outcome, commit_get, ← mirrors.attrs]
        split
        · next empty =>
          exact applyAll_of_stored_eq_nil [] (by simpa [Rinq.Attrmeta.Diff.isEmpty] using empty)
        · rfl
      simp only [step, Rinq.Localsession.Catalog.step, result, state, outcome]
      rw [outcome] at table
      exact ⟨⟨by rw [current, mirrors.ref]; rfl, table⟩,
        ⟨by rw [current, mirrors.ref]; rfl, rfl, mirrors.isClosed, table⟩⟩
    · have rinq : rc.tryUpdate ref ns attrs = _ := Rinq.Localsession.Catalog.update_of_stale
        (mirrors.isClosed ▸ closed) (mirrors.ref ▸ current)
      simp only [step, Rinq.Localsession.Catalog.step, tryUpdate_of_stale closed current, rinq]
      exact ⟨rfl, mirrors⟩
  · have rinq : rc.tryUpdate ref ns attrs = _ :=
      Rinq.Localsession.Catalog.update_of_done (mirrors.isClosed ▸ closed)
    simp only [step, Rinq.Localsession.Catalog.step, tryUpdate_of_isClosed closed, rinq]
    exact ⟨congrArg Rinq.Ident.Ref.id mirrors.ref, mirrors⟩

theorem Mirrors.step (mirrors : c.Mirrors ns rc) (inv : c.Inv) {call : Call w}
    (plain : call.Plain) :
    Reply.Mirrors ns (c.step call).1 (rc.step (call.toRinq ns)).1 ∧
      (c.step call).2.Mirrors ns (rc.step (call.toRinq ns)).2 := by
  cases call with
  | tryUpdate ref attrs diff => exact mirrors.tryUpdate inv ref plain.1 plain.2
  | ref => exact ⟨mirrors.ref, mirrors⟩
  | nextMessageID =>
    refine ⟨show c.nextMessageID.1 = rc.nextMessageID.1.1 by
      simp [nextMessageID, Rinq.Localsession.Catalog.nextMessageID, mirrors.ref, mirrors.seq],
      mirrors.ref, show c.seq + 1 = rc.seq + 1 by rw [mirrors.seq], mirrors.isClosed, mirrors.attrs⟩
  | head => exact ⟨⟨mirrors.ref, mirrors.attrs⟩, mirrors⟩
  | «at» rev =>
    refine ⟨show Reply.Mirrors ns (.at (c.at rev)) (.at (rc.at rev)) from ?_, mirrors⟩
    unfold «at» Rinq.Localsession.Catalog.at
    rw [mirrors.ref]
    by_cases future : rc.ref.rev < rev
    · rw [if_pos future, if_pos future]
      exact rfl
    · rw [if_neg future, if_neg future]
      exact ⟨rfl, mirrors.attrs⟩
  | attrs => exact ⟨⟨mirrors.ref, mirrors.attrs⟩, mirrors⟩
  | tryClose ref =>
    show Reply.Mirrors ns (.tryClose (c.tryClose ref).1) (.destroy (rc.tryDestroy ref).1) ∧
      (c.tryClose ref).2.Mirrors ns (rc.tryDestroy ref).2
    unfold tryClose Rinq.Localsession.Catalog.tryDestroy
    rw [mirrors.ref]
    by_cases stale : ref ≠ rc.ref
    · rw [if_pos stale, if_pos stale]
      exact ⟨rfl, mirrors⟩
    · rw [if_neg stale, if_neg stale]
      by_cases closed : c.isClosed = true
      · rw [if_pos closed]
        exact ⟨trivial, mirrors.ref, mirrors.seq, closed, mirrors.attrs⟩
      · rw [if_neg closed]
        exact ⟨trivial, rfl, mirrors.seq, rfl, mirrors.attrs⟩
  | close => exact ⟨trivial, mirrors.ref, mirrors.seq, rfl, mirrors.attrs⟩

/-- Over any run of plain calls from a reachable catalog and a rinq catalog it mirrors, the
overpass catalog answers each call as the rinq catalog answers the matching call on the
namespace, and the two end in mirroring states. -/
theorem Mirrors.run_mirrors (mirrors : c.Mirrors ns rc) (reachable : c.Reachable)
    (calls : List (Call w)) (plain : ∀ call ∈ calls, call.Plain) :
    List.Forall₂ (Reply.Mirrors ns) (c.run calls).1 (rc.run (calls.map (Call.toRinq ns))).1 ∧
      (c.run calls).2.Mirrors ns (rc.run (calls.map (Call.toRinq ns))).2 := by
  induction calls generalizing c rc with
  | nil => exact ⟨.nil, mirrors⟩
  | cons call calls ih =>
    obtain ⟨replied, moved⟩ := mirrors.step reachable.inv (plain call (.head _))
    obtain ⟨rest, last⟩ := ih moved (reachable.step call) fun call mem => plain call (.tail _ mem)
    exact ⟨.cons replied rest, last⟩

theorem Mirrors.run_mirrors_example :
    let id : Rinq.Ident.SessionID := ⟨⟨1, 0xBAD⟩, 7⟩
    let calls : List (Call 64) :=
      [.tryUpdate (id.at 0) [Rinq.set "a" "1"] (some ⟨"", fun _ _ => false⟩), .nextMessageID,
        .at 1, .tryClose (id.at 1), .tryUpdate (id.at 1) [] none]
    (newCatalog id : Catalog 64).Mirrors "ns" (Rinq.Localsession.newCatalog id) ∧
      (newCatalog id : Catalog 64).Reachable ∧ (∀ call ∈ calls, call.Plain) ∧
      List.Forall₂ (Reply.Mirrors "ns") ((newCatalog id : Catalog 64).run calls).1
        ((Rinq.Localsession.newCatalog id).run (calls.map (Call.toRinq "ns"))).1 ∧
      ((newCatalog id : Catalog 64).run calls).2.Mirrors "ns"
        ((Rinq.Localsession.newCatalog id).run (calls.map (Call.toRinq "ns"))).2 := by
  intro id calls
  have plain : ∀ call ∈ calls, call.Plain := by
    simp [calls, Call.Plain, Reliable, Writer.Reliable, Rinq.set]
  exact ⟨newCatalog_mirrors _ _, .newCatalog _, plain,
    Mirrors.run_mirrors (newCatalog_mirrors _ _) (.newCatalog _) calls plain⟩

end Catalog

end Overpass.Localsession
