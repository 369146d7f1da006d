import Overpass.CatalogInvariant

set_option autoImplicit false

namespace Rinq.Localsession

open Attrmeta (Namespace Diff)

variable {w : Nat}

/-- What `TryClear` makes of an entry: emptied and updated at `nextRev` when it has a value. -/
def cleared (nextRev : Ident.Revision w) (entry : Attrmeta.Attr w) : Attrmeta.Attr w :=
  if entry.attr.value = "" then entry
  else { entry with attr := { entry.attr with value := "" }, updatedAt := nextRev }

theorem cleared_of_empty (nextRev : Ident.Revision w) {entry : Attrmeta.Attr w}
    (empty : entry.attr.value = "") : cleared nextRev entry = entry := if_pos empty

theorem clearLoop_cons (ref : Ident.Ref w) (nextRev : Ident.Revision w) (acc : Namespace w)
    (diff : Diff w) (key : String) (entry : Attrmeta.Attr w)
    (visit : List (Σ _ : String, Attrmeta.Attr w)) :
    clearLoop ref nextRev acc diff (⟨key, entry⟩ :: visit) =
      if entry.attr.value ≠ "" ∧ entry.attr.isFrozen = true then .error (.frozenAttributes ref [])
      else clearLoop ref nextRev (acc.insert entry.attr.key (cleared nextRev entry))
        (if entry.attr.value = "" then diff else diff.append (cleared nextRev entry)) visit := by
  by_cases empty : entry.attr.value = ""
  · simp [clearLoop, cleared, empty]
  · by_cases frozen : entry.attr.isFrozen = true
    · simp [clearLoop, empty, frozen]
    · simp [clearLoop, cleared, empty, frozen]

/-- `TryClear`'s loop over entries that sit under their keys, each key once: it aborts when a
visited entry with a value is frozen; otherwise it stores every visited entry cleared, and
appends to the diff the cleared entries that had a value. -/
theorem clearLoop_spec (ref : Ident.Ref w) (nextRev : Ident.Revision w)
    (visit : List (Σ _ : String, Attrmeta.Attr w))
    (keys : ∀ entry ∈ visit, entry.2.attr.key = entry.1) (nodup : visit.NodupKeys)
    (acc : Namespace w) (diff : Diff w) :
    ((∃ entry ∈ visit, entry.2.attr.value ≠ "" ∧ entry.2.attr.isFrozen = true) ∧
        clearLoop ref nextRev acc diff visit = .error (.frozenAttributes ref [])) ∨
      ((∀ entry ∈ visit, entry.2.attr.value ≠ "" → entry.2.attr.isFrozen = false) ∧
        ∃ result, clearLoop ref nextRev acc diff visit =
          .ok (result, { diff with entries := diff.entries ++
            ((visit.filter fun entry => entry.2.attr.value ≠ "").map fun entry =>
              cleared nextRev entry.2) }) ∧
          ∀ key, result.lookup key =
            ((visit.dlookup key).map (cleared nextRev)).or (acc.lookup key)) := by
  induction visit generalizing acc diff with
  | nil => exact .inr ⟨nofun, acc, by simp [clearLoop], fun key => by simp⟩
  | cons first visit ih =>
    obtain ⟨key, entry⟩ := first
    have own : entry.attr.key = key := keys _ (.head _)
    rw [List.nodupKeys_cons] at nodup
    have later : ∀ key', ((visit.dlookup key').map (cleared nextRev)).or
        ((acc.insert key (cleared nextRev entry)).lookup key') =
          (((⟨key, entry⟩ :: visit).dlookup key').map (cleared nextRev)).or (acc.lookup key') := by
      intro key'
      by_cases same : key' = key
      · subst same
        simp [List.dlookup_eq_none.mpr nodup.1]
      · rw [List.dlookup_cons_ne _ _ same, Finmap.lookup_insert_of_ne _ same]
    rw [clearLoop_cons, own]
    by_cases blocked : entry.attr.value ≠ "" ∧ entry.attr.isFrozen = true
    · exact .inl ⟨⟨_, .head _, blocked⟩, if_pos blocked⟩
    rw [if_neg blocked]
    rcases ih (fun e mem => keys e (.tail _ mem)) nodup.2 (acc.insert key (cleared nextRev entry))
        (if entry.attr.value = "" then diff else diff.append (cleared nextRev entry)) with
      ⟨⟨e, mem, found⟩, failed⟩ | ⟨thawed, result, loop, lookup⟩
    · exact .inl ⟨⟨e, .tail _ mem, found⟩, failed⟩
    · refine .inr ⟨fun e mem => ?_, result, ?_, fun key' => (lookup key').trans (later key')⟩
      · rcases List.mem_cons.mp mem with rfl | mem
        · exact fun valued => by simpa [valued] using blocked
        · exact thawed e mem
      · rw [loop]
        by_cases empty : entry.attr.value = "" <;> simp [empty]

theorem Enumerates.dlookup {ns : Namespace w} {visit : List (Σ _ : String, Attrmeta.Attr w)}
    (enumerates : Enumerates ns visit) (key : String) : visit.dlookup key = ns.lookup key := by
  cases found : ns.lookup key with
  | none =>
    exact List.dlookup_eq_none.mpr fun mem =>
      Finmap.lookup_eq_none.mp found (enumerates.mem_keys.mp mem)
  | some entry => exact (List.mem_dlookup_iff enumerates.nodupKeys).mpr (enumerates.mem found)

/-- The diff `TryClear` returns after visiting `visit`: the cleared entries that had a value. -/
def clearedDiff (ns : String) (nextRev : Ident.Revision w)
    (visit : List (Σ _ : String, Attrmeta.Attr w)) : Diff w :=
  { Attrmeta.newDiff ns nextRev 0 with
    entries := (visit.filter fun entry => entry.2.attr.value ≠ "").map fun entry =>
      cleared nextRev entry.2 }

theorem clearedDiff_isEmpty_iff {ns : String} {nextRev : Ident.Revision w}
    {visit : List (Σ _ : String, Attrmeta.Attr w)} :
    (clearedDiff ns nextRev visit).isEmpty = true ↔ ∀ entry ∈ visit, entry.2.attr.value = "" := by
  simp [clearedDiff, Attrmeta.Diff.isEmpty, List.filter_eq_nil_iff]

/-! ## `TryClear` as a map on the namespace -/

namespace Catalog

variable {c : Catalog w} {ns : String} {visit : List (Σ _ : String, Attrmeta.Attr w)}

/-- The entries `TryClear` empties: those of the namespace with a value, none of them frozen. -/
def Clearable (c : Catalog w) (ns : String) : Prop :=
  ∀ key entry, (c.attrs.get ns).lookup key = some entry → entry.attr.value ≠ "" →
    entry.attr.isFrozen = false

theorem tryClear_of_done (closed : c.done = true) (ref : Ident.Ref w) :
    c.tryClear ref ns visit = (.error (.notFound c.ref.id), c) :=
  update_of_done closed

theorem tryClear_of_stale (running : c.done = false) {ref : Ident.Ref w} (stale : ref ≠ c.ref) :
    c.tryClear ref ns visit = (.error (.staleUpdate ref), c) :=
  update_of_stale running stale

theorem tryClear_of_not_clearable (enumerates : Enumerates (c.attrs.get ns) visit)
    (running : c.done = false) (blocked : ¬c.Clearable ns) :
    c.tryClear c.ref ns visit = (.error (.frozenAttributes c.ref []), c) := by
  simp only [Clearable, Bool.not_eq_false, not_forall, exists_prop] at blocked
  obtain ⟨key, entry, stored, valued, frozen⟩ := blocked
  exact update_of_error running rfl
    (clearLoop_of_frozen c.ref _ (enumerates.mem stored) valued frozen _ _)

theorem tryClear_of_clearable (keys : Localsession.KeysMatch (c.attrs.get ns))
    (enumerates : Enumerates (c.attrs.get ns) visit) (running : c.done = false)
    (clearable : c.Clearable ns) :
    ∃ result : Namespace w,
      (∀ key, result.lookup key = ((c.attrs.get ns).lookup key).map (cleared (c.ref.rev + 1))) ∧
      c.tryClear c.ref ns visit =
        (.ok ((c.commit ns (c.ref.rev + 1) result (clearedDiff ns (c.ref.rev + 1) visit)).head,
          clearedDiff ns (c.ref.rev + 1) visit),
          c.commit ns (c.ref.rev + 1) result (clearedDiff ns (c.ref.rev + 1) visit)) := by
  rcases clearLoop_spec c.ref (c.ref.rev + 1) visit
      (fun e mem => keys _ _ (enumerates.lookup mem)) enumerates.nodupKeys ∅
      (Attrmeta.newDiff ns (c.ref.rev + 1) 0) with
    ⟨⟨e, mem, valued, frozen⟩, -⟩ | ⟨-, result, loop, lookup⟩
  · simpa [frozen] using clearable e.1 e.2 (enumerates.lookup mem) valued
  · refine ⟨result, fun key => ?_, update_of_ok running rfl (loop.trans ?_)⟩
    · rw [lookup, enumerates.dlookup, Finmap.lookup_empty, Option.or_none]
    · simp [clearedDiff]

/-- `TryClear` succeeds exactly when the catalog is open, the ref current and no entry with a
value frozen; it then commits at the next revision the namespace with every entry cleared, and
its diff lists the cleared entries that had a value, in the order `range` visits them. -/
theorem tryClear_spec (keys : Localsession.KeysMatch (c.attrs.get ns)) (ref : Ident.Ref w)
    (enumerates : Enumerates (c.attrs.get ns) visit) :
    ((c.tryClear ref ns visit).1.isOk = true ↔ c.done = false ∧ ref = c.ref ∧ c.Clearable ns) ∧
      ((c.tryClear ref ns visit).1.isOk = true →
        (c.tryClear ref ns visit).1 =
          .ok ((c.tryClear ref ns visit).2.head, clearedDiff ns (c.ref.rev + 1) visit) ∧
        (c.tryClear ref ns visit).2.ref = { c.ref with rev := c.ref.rev + 1 } ∧
        (∀ key, ((c.tryClear ref ns visit).2.attrs.get ns).lookup key =
          ((c.attrs.get ns).lookup key).map (cleared (c.ref.rev + 1))) ∧
        ∀ other, other ≠ ns → (c.tryClear ref ns visit).2.attrs.get other = c.attrs.get other) := by
  cases closed : c.done
  · by_cases current : ref = c.ref
    · subst current
      by_cases clearable : c.Clearable ns
      · obtain ⟨result, lookup, outcome⟩ := tryClear_of_clearable keys enumerates closed clearable
        rw [outcome, commit_attrs]
        refine ⟨iff_of_true rfl ⟨rfl, rfl, clearable⟩, fun _ => ⟨rfl, rfl, fun key => ?_,
          fun other apart => ?_⟩⟩
        · split
          · next empty =>
            cases found : (c.attrs.get ns).lookup key with
            | none => rfl
            | some entry =>
              have blank := clearedDiff_isEmpty_iff.mp empty _ (enumerates.mem found)
              rw [Option.map_some', cleared_of_empty _ blank]
          · rw [Attrmeta.Table.get_cloneAndMerge_self, lookup]
        · split
          · rfl
          · exact Attrmeta.Table.get_cloneAndMerge_of_ne _ _ apart
      · rw [tryClear_of_not_clearable enumerates closed clearable]
        exact ⟨⟨nofun, fun ⟨_, _, clearable'⟩ => (clearable clearable').elim⟩, nofun⟩
    · rw [tryClear_of_stale closed current]
      exact ⟨⟨nofun, fun ⟨_, same, _⟩ => absurd same current⟩, nofun⟩
  · rw [tryClear_of_done closed]
    exact ⟨⟨nofun, fun ⟨running, _⟩ => Bool.noConfusion running⟩, nofun⟩

theorem tryClear_spec_example :
    let id : Ident.SessionID := ⟨⟨1, 0xBAD⟩, 7⟩
    let c : Catalog 64 :=
      ((newCatalog id).tryUpdate (id.at 0) "ns" [Rinq.set "a" "1", Rinq.freeze "b" ""]).2
    let visit : List (Σ _ : String, Attrmeta.Attr 64) :=
      [⟨"b", ⟨Rinq.freeze "b" "", 1, 1⟩⟩, ⟨"a", ⟨Rinq.set "a" "1", 1, 1⟩⟩]
    Enumerates (c.attrs.get "ns") visit ∧ (c.tryClear (id.at 1) "ns" visit).1.isOk = true ∧
      ((c.tryClear (id.at 1) "ns" visit).2.attrs.get "ns").lookup "a" =
        some ⟨Rinq.set "a" "", 1, 2⟩ := by
  intro id c visit
  have keys : Localsession.KeysMatch (c.attrs.get "ns") :=
    Reachable.keysMatch (.step (.tryUpdate (id.at 0) "ns" [Rinq.set "a" "1", Rinq.freeze "b" ""])
      trivial (.newCatalog id)) "ns"
  have enumerates : Enumerates (c.attrs.get "ns") visit := by decide
  have ok : (c.tryClear (id.at 1) "ns" visit).1.isOk = true := by decide
  refine ⟨enumerates, ok, ?_⟩
  rw [((tryClear_spec keys (id.at 1) enumerates).2 ok).2.2.1 "a"]
  decide

/-- Two replies that differ at most in the order of their diff's entries. -/
def Reordered : Except (Error w) (Revision w × Diff w) → Except (Error w) (Revision w × Diff w) →
    Prop
  | .error err, .error err' => err = err'
  | .ok (rev, diff), .ok (rev', diff') =>
    rev = rev' ∧ diff.ns = diff'.ns ∧ diff.rev = diff'.rev ∧ diff.entries.Perm diff'.entries
  | _, _ => False

/-- The order in which Go's `range` visits the namespace does not change what `TryClear` does:
two enumerations leave the same catalog and the same reply, up to the order of the diff. -/
theorem tryClear_visit_order (keys : Localsession.KeysMatch (c.attrs.get ns)) (ref : Ident.Ref w)
    {visit' : List (Σ _ : String, Attrmeta.Attr w)} (enumerates : Enumerates (c.attrs.get ns) visit)
    (enumerates' : Enumerates (c.attrs.get ns) visit') :
    (c.tryClear ref ns visit).2 = (c.tryClear ref ns visit').2 ∧
      Reordered (c.tryClear ref ns visit).1 (c.tryClear ref ns visit').1 := by
  have perm : visit.Perm visit' := Multiset.coe_eq_coe.mp (enumerates.trans enumerates'.symm)
  cases closed : c.done
  · by_cases current : ref = c.ref
    · subst current
      by_cases clearable : c.Clearable ns
      · obtain ⟨result, lookup, outcome⟩ := tryClear_of_clearable keys enumerates closed clearable
        obtain ⟨result', lookup', outcome'⟩ :=
          tryClear_of_clearable keys enumerates' closed clearable
        have same : result = result' :=
          Finmap.ext_lookup fun key => (lookup key).trans (lookup' key).symm
        have empty : (clearedDiff ns (c.ref.rev + 1) visit).isEmpty =
            (clearedDiff ns (c.ref.rev + 1) visit').isEmpty := Bool.eq_iff_iff.mpr <| by
          rw [clearedDiff_isEmpty_iff, clearedDiff_isEmpty_iff]
          exact forall_congr' fun _ => imp_congr_left perm.mem_iff
        have committed : c.commit ns (c.ref.rev + 1) result (clearedDiff ns (c.ref.rev + 1) visit) =
            c.commit ns (c.ref.rev + 1) result' (clearedDiff ns (c.ref.rev + 1) visit') := by
          simp only [commit, same, empty]
        rw [outcome, outcome', committed]
        exact ⟨rfl, rfl, rfl, rfl, (perm.filter _).map _⟩
      · rw [tryClear_of_not_clearable enumerates closed clearable,
          tryClear_of_not_clearable enumerates' closed clearable]
        exact ⟨rfl, rfl⟩
    · rw [tryClear_of_stale closed current, tryClear_of_stale closed current]
      exact ⟨rfl, rfl⟩
  · rw [tryClear_of_done closed, tryClear_of_done closed]
    exact ⟨rfl, rfl⟩

theorem tryClear_visit_order_example :
    let id : Ident.SessionID := ⟨⟨1, 0xBAD⟩, 7⟩
    let c : Catalog 64 :=
      ((newCatalog id).tryUpdate (id.at 0) "ns" [Rinq.set "a" "1", Rinq.set "b" "2"]).2
    let visit : List (Σ _ : String, Attrmeta.Attr 64) :=
      [⟨"a", ⟨Rinq.set "a" "1", 1, 1⟩⟩, ⟨"b", ⟨Rinq.set "b" "2", 1, 1⟩⟩]
    Enumerates (c.attrs.get "ns") visit ∧ Enumerates (c.attrs.get "ns") visit.reverse ∧
      (c.tryClear (id.at 1) "ns" visit).2 = (c.tryClear (id.at 1) "ns" visit.reverse).2 ∧
      Reordered (c.tryClear (id.at 1) "ns" visit).1
        (c.tryClear (id.at 1) "ns" visit.reverse).1 := by
  intro id c visit
  have keys : Localsession.KeysMatch (c.attrs.get "ns") :=
    Reachable.keysMatch (.step (.tryUpdate (id.at 0) "ns" [Rinq.set "a" "1", Rinq.set "b" "2"])
      trivial (.newCatalog id)) "ns"
  have enumerates : Enumerates (c.attrs.get "ns") visit := by decide
  have enumerates' : Enumerates (c.attrs.get "ns") visit.reverse := by decide
  exact ⟨enumerates, enumerates', tryClear_visit_order keys (id.at 1) enumerates enumerates'⟩

end Catalog

end Rinq.Localsession
