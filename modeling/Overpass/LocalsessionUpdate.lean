import Overpass.Localsession
import Mathlib.Tactic.SplitIfs

set_option autoImplicit false

namespace Overpass.Localsession

open Rinq.Attrmeta (Namespace)

variable {w : Nat}

/-- The loop's effect on the working copy and the frozen keys, writes aside. -/
def applyAll (nextRev : Rinq.Ident.Revision w) :
    Namespace w → List String → List Rinq.Attr → Namespace w × List String
  | nextAttrs, frozen, [] => (nextAttrs, frozen)
  | nextAttrs, frozen, attr :: attrs =>
    match propose nextRev nextAttrs attr with
    | .unchanged => applyAll nextRev nextAttrs frozen attrs
    | .frozen => applyAll nextRev nextAttrs (frozen ++ [attr.key]) attrs
    | .store entry => applyAll nextRev (nextAttrs.insert attr.key entry) frozen attrs

/-- The entries the loop stores, in the order of the proposals: those it writes to the diff. -/
def stored (nextRev : Rinq.Ident.Revision w) :
    Namespace w → List Rinq.Attr → List (Rinq.Attrmeta.Attr w)
  | _, [] => []
  | nextAttrs, attr :: attrs =>
    match propose nextRev nextAttrs attr with
    | .store entry => entry :: stored nextRev (nextAttrs.insert attr.key entry) attrs
    | _ => stored nextRev nextAttrs attrs

theorem applyAll_append (nextRev : Rinq.Ident.Revision w) (nextAttrs : Namespace w)
    (frozen : List String) (attrs more : List Rinq.Attr) :
    applyAll nextRev nextAttrs frozen (attrs ++ more) =
      applyAll nextRev (applyAll nextRev nextAttrs frozen attrs).1
        (applyAll nextRev nextAttrs frozen attrs).2 more := by
  induction attrs generalizing nextAttrs frozen with
  | nil => rfl
  | cons attr attrs ih =>
    cases proposal : propose nextRev nextAttrs attr <;>
      simp only [List.cons_append, applyAll, proposal, List.append_eq, ih]

theorem applyAll_lookup_of_not_mem (nextRev : Rinq.Ident.Revision w) (nextAttrs : Namespace w)
    (frozen : List String) {attrs : List Rinq.Attr} {key : String}
    (absent : key ∉ attrs.map (·.key)) :
    (applyAll nextRev nextAttrs frozen attrs).1.lookup key = nextAttrs.lookup key := by
  induction attrs generalizing nextAttrs frozen with
  | nil => rfl
  | cons attr attrs ih =>
    simp only [List.map_cons, List.mem_cons, not_or] at absent
    cases proposal : propose nextRev nextAttrs attr <;>
      simp only [applyAll, proposal, ih _ _ absent.2, Finmap.lookup_insert_of_ne _ absent.1]

/-- Whatever the diff writer does, the loop either stops at a failed write or ends as it would
with no writer. -/
theorem updateLoop_result (nextRev : Rinq.Ident.Revision w) (nextAttrs : Namespace w)
    (frozen : List String) (index : Nat) (diff : Option Writer) (attrs : List Rinq.Attr) :
    (updateLoop nextRev nextAttrs frozen index diff attrs).1 = .error .write ∨
      (updateLoop nextRev nextAttrs frozen index diff attrs).1 =
        .ok (applyAll nextRev nextAttrs frozen attrs) := by
  induction attrs generalizing nextAttrs frozen index diff with
  | nil => exact .inr rfl
  | cons attr attrs ih =>
    cases proposal : propose nextRev nextAttrs attr with
    | unchanged | frozen => simp only [updateLoop, applyAll, proposal, ih]
    | store entry =>
      simp only [updateLoop, applyAll, proposal]
      cases diff with
      | none => exact ih ..
      | some wr =>
        dsimp only
        split
        · exact .inl rfl
        · exact ih ..

/-! ## The working copy -/

/-- The working copy during `TryUpdate`'s loop over the table `attrs`: it has every key of the
table, every entry sits under its own key and is not frozen, and one whose key the table lacks
was created at `nextRev`, while one whose key the table has keeps that entry's `CreatedAt`. -/
structure Working (attrs : Namespace w) (nextRev : Rinq.Ident.Revision w)
    (nextAttrs : Namespace w) : Prop where
  key : ∀ key entry, nextAttrs.lookup key = some entry → entry.attr.key = key
  unfrozen : ∀ key entry, nextAttrs.lookup key = some entry → entry.attr.isFrozen = false
  created : ∀ key entry, nextAttrs.lookup key = some entry → attrs.lookup key = none →
    entry.createdAt = nextRev
  covers : ∀ key, key ∈ attrs → key ∈ nextAttrs
  kept : ∀ key entry old, nextAttrs.lookup key = some entry → attrs.lookup key = some old →
    entry.createdAt = old.createdAt

/-- What `propose` stores: the proposal's value at `nextRev`, unfrozen, with the key and the
creation revision of the entry it replaces, or the proposal's key and `nextRev` for a new one. -/
theorem propose_eq_store {nextRev : Rinq.Ident.Revision w} {nextAttrs : Namespace w}
    {attr : Rinq.Attr} {entry : Rinq.Attrmeta.Attr w}
    (proposed : propose nextRev nextAttrs attr = .store entry) :
    entry.attr.value = attr.value ∧ entry.attr.isFrozen = false ∧ entry.updatedAt = nextRev ∧
      (∀ found, nextAttrs.lookup attr.key = some found →
        entry.attr.key = found.attr.key ∧ entry.createdAt = found.createdAt) ∧
      (nextAttrs.lookup attr.key = none →
        entry.attr.key = attr.key ∧ entry.createdAt = nextRev) := by
  unfold propose at proposed
  cases current : nextAttrs.lookup attr.key with
  | none =>
    simp only [Namespace.get_of_lookup_none current, Rinq.Attrmeta.Attr.default_attr] at proposed
    split_ifs at proposed
    cases proposed
    simp
  | some found =>
    simp only [Namespace.get_of_lookup_some current] at proposed
    split_ifs at proposed with same frozen
    cases proposed
    simpa using frozen

theorem propose_eq_unchanged {nextRev : Rinq.Ident.Revision w} {nextAttrs : Namespace w}
    {attr : Rinq.Attr} (proposed : propose nextRev nextAttrs attr = .unchanged) :
    (nextAttrs.get attr.key).1.attr.value = attr.value := by
  simp only [propose] at proposed
  split_ifs at proposed with same
  exact same.1.symm

/-- The entry Go's `nextAttrs[key]` yields is not frozen, whether the key is there or not. -/
theorem Working.get_isFrozen {attrs nextAttrs : Namespace w} {nextRev : Rinq.Ident.Revision w}
    (working : Working attrs nextRev nextAttrs) (key : String) :
    (nextAttrs.get key).1.attr.isFrozen = false := by
  cases current : nextAttrs.lookup key with
  | none => simp [Namespace.get_of_lookup_none current]
  | some found => simpa [Namespace.get_of_lookup_some current] using working.unfrozen _ _ current

theorem Working.propose_ne_frozen {attrs nextAttrs : Namespace w}
    {nextRev : Rinq.Ident.Revision w} (working : Working attrs nextRev nextAttrs)
    (attr : Rinq.Attr) : propose nextRev nextAttrs attr ≠ .frozen := by
  simp only [propose, working.get_isFrozen, Bool.false_eq_true, if_false]
  split <;> simp

/-- A stored entry sits under the proposal's key, and was created at `nextRev` when the table
lacks that key, or when the table has it, at that entry's `CreatedAt`. -/
theorem Working.store {attrs nextAttrs : Namespace w} {nextRev : Rinq.Ident.Revision w}
    (working : Working attrs nextRev nextAttrs) {attr : Rinq.Attr} {entry : Rinq.Attrmeta.Attr w}
    (proposed : propose nextRev nextAttrs attr = .store entry) :
    entry.attr.key = attr.key ∧ (attrs.lookup attr.key = none → entry.createdAt = nextRev) ∧
      ∀ old, attrs.lookup attr.key = some old → entry.createdAt = old.createdAt := by
  obtain ⟨-, -, -, replaced, created⟩ := propose_eq_store proposed
  cases current : nextAttrs.lookup attr.key with
  | none =>
    refine ⟨(created current).1, fun _ => (created current).2, fun old found => ?_⟩
    have missing := Finmap.lookup_eq_none.mp current
    exact absurd (working.covers _ (Finmap.mem_of_lookup_eq_some found)) missing
  | some found =>
    rw [(replaced found current).1, (replaced found current).2]
    exact ⟨working.key _ _ current, working.created _ _ current,
      fun old => working.kept _ _ old current⟩

theorem lookup_insert_cases {nextAttrs : Namespace w} {key other : String}
    {entry found : Rinq.Attrmeta.Attr w}
    (stored : (nextAttrs.insert key entry).lookup other = some found) :
    other = key ∧ found = entry ∨ nextAttrs.lookup other = some found := by
  by_cases same : other = key
  · subst same
    rw [Finmap.lookup_insert, Option.some.injEq] at stored
    exact .inl ⟨rfl, stored.symm⟩
  · rw [Finmap.lookup_insert_of_ne _ same] at stored
    exact .inr stored

theorem Working.insert {attrs nextAttrs : Namespace w} {nextRev : Rinq.Ident.Revision w}
    (working : Working attrs nextRev nextAttrs) {attr : Rinq.Attr} {entry : Rinq.Attrmeta.Attr w}
    (proposed : propose nextRev nextAttrs attr = .store entry) :
    Working attrs nextRev (nextAttrs.insert attr.key entry) := by
  obtain ⟨named, created, kept⟩ := working.store proposed
  have thawed := (propose_eq_store proposed).2.1
  refine ⟨fun key found stored => ?_, fun key found stored => ?_, fun key found stored => ?_,
    fun key mem => Finmap.mem_insert.mpr (.inr (working.covers key mem)),
    fun key found old stored => ?_⟩ <;>
    rcases lookup_insert_cases stored with ⟨rfl, rfl⟩ | stored
  · exact named
  · exact working.key _ _ stored
  · exact thawed
  · exact working.unfrozen _ _ stored
  · exact created
  · exact working.created _ _ stored
  · exact kept old
  · exact working.kept _ _ _ stored

theorem Working.applyAll {attrs nextAttrs : Namespace w} {nextRev : Rinq.Ident.Revision w}
    (working : Working attrs nextRev nextAttrs) (frozen : List String)
    (proposals : List Rinq.Attr) :
    Working attrs nextRev (applyAll nextRev nextAttrs frozen proposals).1 ∧
      (applyAll nextRev nextAttrs frozen proposals).2 = frozen := by
  induction proposals generalizing nextAttrs with
  | nil => exact ⟨working, rfl⟩
  | cons attr proposals ih =>
    cases proposal : propose nextRev nextAttrs attr with
    | unchanged => simpa only [Localsession.applyAll, proposal] using ih working
    | frozen => exact absurd proposal (working.propose_ne_frozen attr)
    | store entry => simpa only [Localsession.applyAll, proposal] using ih (working.insert proposal)

/-- Every stored entry is unfrozen and updated at `nextRev`, and created at `nextRev` when the
table lacks its key, or when the table has it, at that entry's `CreatedAt`. -/
theorem Working.stored {attrs nextAttrs : Namespace w} {nextRev : Rinq.Ident.Revision w}
    (working : Working attrs nextRev nextAttrs) (proposals : List Rinq.Attr) :
    ∀ entry ∈ stored nextRev nextAttrs proposals, entry.updatedAt = nextRev ∧
      entry.attr.isFrozen = false ∧
      (attrs.lookup entry.attr.key = none → entry.createdAt = nextRev) ∧
      ∀ old, attrs.lookup entry.attr.key = some old → entry.createdAt = old.createdAt := by
  induction proposals generalizing nextAttrs with
  | nil => simp [Localsession.stored]
  | cons attr proposals ih =>
    cases proposal : propose nextRev nextAttrs attr with
    | unchanged | frozen => simpa only [Localsession.stored, proposal] using ih working
    | store entry =>
      simp only [Localsession.stored, proposal, List.mem_cons, forall_eq_or_imp]
      obtain ⟨-, thawed, updated, -, -⟩ := propose_eq_store proposal
      obtain ⟨named, created, kept⟩ := working.store proposal
      exact ⟨⟨updated, thawed, named ▸ created, named ▸ kept⟩, ih (working.insert proposal)⟩

theorem get_applyAll_of_not_mem (nextRev : Rinq.Ident.Revision w) (nextAttrs : Namespace w)
    (frozen : List String) {attrs : List Rinq.Attr} {key : String}
    (absent : key ∉ attrs.map (·.key)) :
    (applyAll nextRev nextAttrs frozen attrs).1.get key = nextAttrs.get key := by
  unfold Namespace.get
  rw [applyAll_lookup_of_not_mem nextRev nextAttrs frozen absent]

/-- A proposal that no later one overrides leaves its `Value` in the working copy. -/
theorem Working.value_of_last {table nextAttrs : Namespace w} {nextRev : Rinq.Ident.Revision w}
    (working : Working table nextRev nextAttrs) (frozen : List String) {attr : Rinq.Attr}
    {post : List Rinq.Attr} (last : attr.key ∉ post.map (·.key)) :
    ((Localsession.applyAll nextRev nextAttrs frozen (attr :: post)).1.get attr.key).1.attr.value =
      attr.value := by
  cases proposal : propose nextRev nextAttrs attr with
  | unchanged =>
    simp only [Localsession.applyAll, proposal, get_applyAll_of_not_mem _ _ _ last]
    exact propose_eq_unchanged proposal
  | frozen => exact absurd proposal (working.propose_ne_frozen attr)
  | store entry =>
    simp only [Localsession.applyAll, proposal, get_applyAll_of_not_mem _ _ _ last,
      Namespace.get_of_lookup_some (Finmap.lookup_insert _)]
    exact (propose_eq_store proposal).1

/-! ## The catalog -/

namespace Catalog

/-- What holds of every reachable catalog: each entry sits under its own key, and none is
frozen. -/
structure Inv (c : Catalog w) : Prop where
  key : ∀ key entry, c.attrs.lookup key = some entry → entry.attr.key = key
  unfrozen : ∀ key entry, c.attrs.lookup key = some entry → entry.attr.isFrozen = false

variable {c : Catalog w} {ref : Rinq.Ident.Ref w} {attrs : List Rinq.Attr} {diff : Option Writer}

theorem Inv.of_attrs_eq {c' : Catalog w} (inv : c.Inv) (same : c'.attrs = c.attrs) : c'.Inv :=
  ⟨same ▸ inv.key, same ▸ inv.unfrozen⟩

theorem Inv.working (inv : c.Inv) (nextRev : Rinq.Ident.Revision w) :
    Working c.attrs nextRev c.attrs :=
  ⟨inv.key, inv.unfrozen, fun _ _ found absent => by simp [found] at absent, fun _ mem => mem,
    fun _ _ _ found old => by rw [found, Option.some.injEq] at old; rw [old]⟩

theorem tryUpdate_of_error {err : Error w} (failed : (c.tryUpdate ref attrs diff).1 = .error err) :
    (c.tryUpdate ref attrs diff).2.1 = c := by
  unfold tryUpdate at failed ⊢
  revert failed
  by_cases closed : c.isClosed = true
  · rw [if_pos closed]; exact fun _ => rfl
  rw [if_neg closed]
  by_cases stale : ref ≠ c.ref
  · rw [if_pos stale]; exact fun _ => rfl
  rw [if_neg stale]
  rcases updateLoop (ref.rev + 1) c.attrs.clone [] 0 diff attrs with
    ⟨_ | ⟨nextAttrs, frozen⟩, diff'⟩
  · exact fun _ => rfl
  · dsimp only
    split_ifs
    · exact fun _ => rfl
    · exact nofun

theorem updateLoop_eq_ok {nextRev : Rinq.Ident.Revision w} {nextAttrs : Namespace w}
    {next : Namespace w} {frozen : List String} {diff' : Option Writer}
    (looped : updateLoop nextRev nextAttrs [] 0 diff attrs = (.ok (next, frozen), diff')) :
    applyAll nextRev nextAttrs [] attrs = (next, frozen) := by
  have finished := updateLoop_result nextRev nextAttrs [] 0 diff attrs
  simp only [looped, false_or, reduceCtorEq, Except.ok.injEq] at finished
  exact finished.symm

/-- A successful `TryUpdate` is that of an open catalog at its current ref whose loop found no
frozen key; the catalog moved to the next revision with the loop's table. -/
theorem tryUpdate_of_ok {rev : Revision w} (ok : (c.tryUpdate ref attrs diff).1 = .ok rev) :
    c.isClosed = false ∧ ref = c.ref ∧
      updateLoop (ref.rev + 1) c.attrs [] 0 diff attrs =
        (.ok (rev.attrs, []), (c.tryUpdate ref attrs diff).2.2) ∧
      rev.ref = { c.ref with rev := ref.rev + 1 } ∧
      (c.tryUpdate ref attrs diff).2.1 =
        { c with ref := rev.ref, attrs := rev.attrs, seq := 0 } := by
  unfold tryUpdate at ok ⊢
  revert ok
  by_cases closed : c.isClosed = true
  · rw [if_pos closed]; exact nofun
  rw [if_neg closed]
  by_cases stale : ref ≠ c.ref
  · rw [if_pos stale]; exact nofun
  rw [if_neg stale]
  rcases looped : updateLoop (ref.rev + 1) c.attrs.clone [] 0 diff attrs with
    ⟨_ | ⟨nextAttrs, frozen⟩, diff'⟩
  · exact nofun
  · dsimp only
    split_ifs with found
    · exact nofun
    · rintro ⟨⟩
      simp only [List.length_eq_zero, gt_iff_lt, Nat.pos_iff_ne_zero, not_not] at found
      simp only [Bool.not_eq_true] at closed
      simp only [not_not] at stale
      simp only [Rinq.Attrmeta.Namespace.clone_eq] at looped
      subst found stale
      exact ⟨closed, rfl, looped, rfl, rfl⟩

theorem tryUpdate_of_frozenAttributes {ref' : Rinq.Ident.Ref w} {keys : List String}
    (failed : (c.tryUpdate ref attrs diff).1 = .error (.frozenAttributes ref' keys)) :
    keys ≠ [] ∧ (applyAll (ref.rev + 1) c.attrs [] attrs).2 = keys := by
  unfold tryUpdate at failed
  revert failed
  by_cases closed : c.isClosed = true
  · rw [if_pos closed]; rintro ⟨⟩
  rw [if_neg closed]
  by_cases stale : ref ≠ c.ref
  · rw [if_pos stale]; rintro ⟨⟩
  rw [if_neg stale]
  rcases looped : updateLoop (ref.rev + 1) c.attrs.clone [] 0 diff attrs with
    ⟨_ | ⟨nextAttrs, frozen⟩, diff'⟩
  · rintro ⟨⟩
    have finished := updateLoop_result (ref.rev + 1) c.attrs.clone [] 0 diff attrs
    rw [looped] at finished
    simp at finished
  · dsimp only
    split_ifs with found
    · rintro ⟨⟩
      exact ⟨List.ne_nil_of_length_pos found, by
        rw [show c.attrs = c.attrs.clone from rfl, updateLoop_eq_ok looped]⟩
    · exact nofun

theorem tryClose_attrs (c : Catalog w) (ref : Rinq.Ident.Ref w) :
    (c.tryClose ref).2.attrs = c.attrs := by
  unfold tryClose
  split_ifs <;> rfl

theorem Inv.step (inv : c.Inv) (call : Call w) : (c.step call).2.Inv := by
  cases call with
  | tryUpdate ref attrs diff =>
    cases result : (c.tryUpdate ref attrs diff).1 with
    | error err => exact inv.of_attrs_eq (congrArg Catalog.attrs (tryUpdate_of_error result))
    | ok rev =>
      obtain ⟨-, -, looped, -, committed⟩ := tryUpdate_of_ok result
      have working := ((inv.working (ref.rev + 1)).applyAll [] attrs).1
      rw [updateLoop_eq_ok looped] at working
      simp only [Catalog.step, committed]
      exact ⟨working.key, working.unfrozen⟩
  | tryClose ref => exact inv.of_attrs_eq (tryClose_attrs c ref)
  | ref | nextMessageID | head | «at» | attrs | close => exact inv.of_attrs_eq rfl

theorem Reachable.inv (reachable : c.Reachable) : c.Inv := by
  induction reachable with
  | newCatalog id =>
    exact ⟨fun _ _ found => by simp [Localsession.newCatalog] at found,
      fun _ _ found => by simp [Localsession.newCatalog] at found⟩
  | step call _ inv => exact inv.step call

theorem Reachable.run (reachable : c.Reachable) (calls : List (Call w)) :
    (c.run calls).2.Reachable := by
  induction calls generalizing c with
  | nil => exact reachable
  | cons call calls ih => exact ih (reachable.step call)

/-- In a reachable catalog, no `TryUpdate` fails with `FrozenAttributesError`. -/
theorem Reachable.tryUpdate_ne_frozenAttributes (reachable : c.Reachable) (ref : Rinq.Ident.Ref w)
    (attrs : List Rinq.Attr) (diff : Option Writer) (ref' : Rinq.Ident.Ref w) (keys : List String) :
    (c.tryUpdate ref attrs diff).1 ≠ .error (.frozenAttributes ref' keys) := fun failed => by
  obtain ⟨nonempty, found⟩ := tryUpdate_of_frozenAttributes failed
  rw [((reachable.inv.working (ref.rev + 1)).applyAll [] attrs).2] at found
  exact nonempty found.symm

theorem Reachable.tryUpdate_ne_frozenAttributes_example :
    let id : Rinq.Ident.SessionID := ⟨⟨1, 0xBAD⟩, 7⟩
    let c : Catalog 64 :=
      ((Localsession.newCatalog id).tryUpdate (id.at 0) [Rinq.freeze "a" "1"] none).2.1
    c.Reachable ∧
      (c.tryUpdate c.ref [Rinq.set "a" "2"] none).1 ≠ .error (.frozenAttributes c.ref ["a"]) := by
  intro id c
  have reachable : c.Reachable :=
    .step (.tryUpdate (id.at 0) [Rinq.freeze "a" "1"] none) (.newCatalog id)
  exact ⟨reachable, Reachable.tryUpdate_ne_frozenAttributes reachable _ _ _ _ _⟩

/-- After a successful `TryUpdate` of a reachable catalog, each proposed key holds the `Value` of
its last proposal, an absent key counting as the empty value. -/
theorem Reachable.tryUpdate_value_of_last (reachable : c.Reachable) {rev : Revision w}
    (ok : (c.tryUpdate ref attrs diff).1 = .ok rev) {pre post : List Rinq.Attr}
    {attr : Rinq.Attr} (split : attrs = pre ++ attr :: post)
    (last : attr.key ∉ post.map (·.key)) :
    ((c.tryUpdate ref attrs diff).2.1.attrs.get attr.key).1.attr.value = attr.value := by
  obtain ⟨-, -, looped, -, committed⟩ := tryUpdate_of_ok ok
  have table : (applyAll (ref.rev + 1) c.attrs [] attrs).1 = rev.attrs := by
    rw [updateLoop_eq_ok looped]
  have working := ((reachable.inv.working (ref.rev + 1)).applyAll [] pre).1
  rw [committed, ← table, split, applyAll_append]
  exact working.value_of_last _ last

theorem Reachable.tryUpdate_value_of_last_example :
    let id : Rinq.Ident.SessionID := ⟨⟨1, 0xBAD⟩, 7⟩
    let c : Catalog 64 := Localsession.newCatalog id
    let attrs := [Rinq.set "a" "1", Rinq.set "b" "2", Rinq.set "a" "3"]
    c.Reachable ∧ (c.tryUpdate c.ref attrs none).1 = .ok (c.tryUpdate c.ref attrs none).2.1.head ∧
      ((c.tryUpdate c.ref attrs none).2.1.attrs.get "a").1.attr.value = "3" := by
  intro id c attrs
  have reachable : c.Reachable := .newCatalog id
  have ok : (c.tryUpdate c.ref attrs none).1 = .ok (c.tryUpdate c.ref attrs none).2.1.head := by
    simp [c, attrs, Localsession.newCatalog, Catalog.tryUpdate, updateLoop, propose,
      Rinq.Attrmeta.Namespace.get, Catalog.head, Rinq.set]
  have split : attrs = [Rinq.set "a" "1", Rinq.set "b" "2"] ++ [Rinq.set "a" "3"] := rfl
  have last : (Rinq.set "a" "3").key ∉ ([] : List Rinq.Attr).map (·.key) := nofun
  have value := Reachable.tryUpdate_value_of_last reachable ok split last
  exact ⟨reachable, ok, value⟩

end Catalog

/-- `Freeze("a", "1")` on a new catalog succeeds but stores `a` unfrozen, so a later
`Set("a", "2")` at the new ref succeeds too and moves the revision on. -/
theorem freeze_is_not_kept (id : Rinq.Ident.SessionID) :
    let first := (newCatalog id : Catalog w).tryUpdate (id.at 0) [Rinq.freeze "a" "1"] none
    let second := first.2.1.tryUpdate first.2.1.ref [Rinq.set "a" "2"] none
    first.1 = .ok first.2.1.head ∧
      (first.2.1.attrs.lookup "a").map (·.attr) = some (Rinq.set "a" "1") ∧
      second.1 = .ok second.2.1.head ∧ second.2.1.ref = id.at (0 + 1 + 1) ∧
      (second.2.1.attrs.lookup "a").map (·.attr.value) = some "2" := by
  simp [newCatalog, Catalog.tryUpdate, updateLoop, propose, Rinq.Attrmeta.Namespace.get,
    Catalog.head, Rinq.freeze, Rinq.set, Rinq.Ident.SessionID.at]

end Overpass.Localsession
