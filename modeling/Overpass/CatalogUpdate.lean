import Overpass.UpdateLoop

set_option autoImplicit false

namespace Rinq.Localsession

open Attrmeta (Namespace Diff)

variable {w : Nat}

namespace Catalog

@[simp] theorem commit_ref (c : Catalog w) (ns : String) (nextRev : Ident.Revision w)
    (nextAttrs : Namespace w) (diff : Diff w) :
    (c.commit ns nextRev nextAttrs diff).ref = { c.ref with rev := nextRev } := rfl

@[simp] theorem commit_seq (c : Catalog w) (ns : String) (nextRev : Ident.Revision w)
    (nextAttrs : Namespace w) (diff : Diff w) : (c.commit ns nextRev nextAttrs diff).seq = 0 := rfl

@[simp] theorem commit_done (c : Catalog w) (ns : String) (nextRev : Ident.Revision w)
    (nextAttrs : Namespace w) (diff : Diff w) :
    (c.commit ns nextRev nextAttrs diff).done = c.done := rfl

@[simp] theorem commit_attrs (c : Catalog w) (ns : String) (nextRev : Ident.Revision w)
    (nextAttrs : Namespace w) (diff : Diff w) :
    (c.commit ns nextRev nextAttrs diff).attrs =
      if diff.isEmpty then c.attrs else c.attrs.cloneAndMerge ns nextAttrs := rfl

variable {c : Catalog w} {ref : Ident.Ref w} {ns : String}
  {loop : Ident.Revision w → Except (Error w) (Namespace w × Diff w)}

theorem update_of_done (closed : c.done = true) :
    c.update ref ns loop = (.error (.notFound c.ref.id), c) := by
  simp [update, closed]

theorem update_of_stale (running : c.done = false) (stale : ref ≠ c.ref) :
    c.update ref ns loop = (.error (.staleUpdate ref), c) := by
  simp [update, running, stale]

theorem update_of_error (running : c.done = false) (current : ref = c.ref) {err : Error w}
    (failed : loop (ref.rev + 1) = .error err) : c.update ref ns loop = (.error err, c) := by
  subst current
  unfold update
  rw [if_neg (by simp [running]), if_neg (not_not.mpr rfl), failed]

theorem update_of_ok (running : c.done = false) (current : ref = c.ref) {nextAttrs : Namespace w}
    {diff : Diff w} (success : loop (ref.rev + 1) = .ok (nextAttrs, diff)) :
    c.update ref ns loop =
      (.ok ((c.commit ns (ref.rev + 1) nextAttrs diff).head, diff),
        c.commit ns (ref.rev + 1) nextAttrs diff) := by
  subst current
  unfold update
  rw [if_neg (by simp [running]), if_neg (not_not.mpr rfl), success]

theorem update_error {err : Error w} (failed : (c.update ref ns loop).1 = .error err) :
    (c.update ref ns loop).2 = c := by
  cases closed : c.done
  · by_cases current : ref = c.ref
    · cases success : loop (ref.rev + 1) with
      | error err => rw [update_of_error closed current success]
      | ok result =>
        rw [update_of_ok closed current success] at failed
        cases failed
    · rw [update_of_stale closed current]
  · rw [update_of_done closed]

end Catalog

/-! ## `TryUpdate` -/

theorem loopInv_start (ns : Namespace w) (nextRev : Ident.Revision w) (start : Diff w)
    (empty : start.entries = []) : LoopInv ns nextRev start [] ns start :=
  ⟨fun key => (afterSteps_nil ns nextRev key).symm, by cases start; simp_all [produced]⟩

theorem not_conflict_nil (ns : Namespace w) : ¬Conflict ns [] := by
  simp [Conflict]

theorem produced_eq_nil_iff (ns : Namespace w) (nextRev : Ident.Revision w)
    (attrs : List Rinq.Attr) :
    produced ns nextRev attrs = [] ↔ ∀ key, ¬ChangedBy ns attrs key := by
  simp only [produced, List.filterMap_eq_nil_iff, ite_eq_right_iff, reduceCtorEq, imp_false,
    Prod.forall, ChangedBy, Prod.exists, not_exists, not_and]
  exact ⟨fun none key done attr step _ => none done attr step,
    fun none done attr step => none attr.key done attr step rfl⟩

instance (ns : Namespace w) (attrs : List Rinq.Attr) : Decidable (Conflict ns attrs) :=
  inferInstanceAs (Decidable (∃ step ∈ withPrefixes attrs, _))

theorem mem_withPrefixes {attrs done : List Rinq.Attr} {attr : Rinq.Attr} :
    (done, attr) ∈ withPrefixes attrs ↔ ∃ rest, attrs = done ++ attr :: rest := by
  induction attrs generalizing done with
  | nil => simp [withPrefixes]
  | cons first attrs ih =>
    cases done with
    | nil => simp [withPrefixes, eq_comm]
    | cons earlier done =>
      simp only [withPrefixes, List.mem_cons, Prod.mk.injEq, List.cons_ne_nil, false_and,
        false_or, List.mem_map, Prod.exists, List.cons_append, List.cons.injEq]
      constructor
      · rintro ⟨_, _, step, ⟨rfl, rfl⟩, rfl⟩
        obtain ⟨rest, rfl⟩ := ih.mp step
        exact ⟨rest, rfl, rfl⟩
      · rintro ⟨rest, rfl, rfl⟩
        exact ⟨_, _, ih.mpr ⟨rest, rfl⟩, ⟨rfl, rfl⟩, rfl⟩

theorem mem_of_mem_withPrefixes {attrs done : List Rinq.Attr} {attr : Rinq.Attr}
    (step : (done, attr) ∈ withPrefixes attrs) : attr ∈ attrs := by
  obtain ⟨rest, rfl⟩ := mem_withPrefixes.mp step
  simp

theorem workingView_of_getLast? (ns : Namespace w) (attrs : List Rinq.Attr) (key : String)
    {attr : Rinq.Attr} (last : (attrs.filter (·.key = key)).getLast? = some attr) :
    workingView ns attrs key = (attr.value, attr.isFrozen) := by
  induction attrs using List.reverseRecOn with
  | nil => cases last
  | append_singleton attrs final ih =>
    rw [workingView_append_singleton]
    by_cases same : final.key = key
    · have found : final = attr := by simpa [same] using last
      subst found
      simp [same]
    · exact (if_neg same).trans (ih (by simpa [same] using last))

namespace Catalog

variable {c : Catalog w} {ref : Ident.Ref w} {ns : String} {attrs : List Rinq.Attr}

theorem tryUpdate_of_conflict (running : c.done = false) (current : ref = c.ref)
    (conflict : Conflict (c.attrs.get ns) attrs) :
    c.tryUpdate ref ns attrs = (.error (.frozenAttributes ref []), c) := by
  obtain ⟨failed, -⟩ | ⟨_, _, _, _, clean⟩ :=
    updateLoop_spec ref attrs (loopInv_start (c.attrs.get ns) (ref.rev + 1)
      (Attrmeta.newDiff ns (ref.rev + 1) attrs.length) rfl) (not_conflict_nil _)
  · exact update_of_error running current failed
  · exact absurd conflict clean

theorem tryUpdate_of_clean (running : c.done = false) (current : ref = c.ref)
    (clean : ¬Conflict (c.attrs.get ns) attrs) :
    ∃ nextAttrs diff, LoopInv (c.attrs.get ns) (ref.rev + 1)
        (Attrmeta.newDiff ns (ref.rev + 1) attrs.length) attrs nextAttrs diff ∧
      c.tryUpdate ref ns attrs =
        (.ok ((c.commit ns (ref.rev + 1) nextAttrs diff).head, diff),
          c.commit ns (ref.rev + 1) nextAttrs diff) := by
  obtain ⟨-, conflict⟩ | ⟨nextAttrs, diff, success, inv, -⟩ :=
    updateLoop_spec ref attrs (loopInv_start (c.attrs.get ns) (ref.rev + 1)
      (Attrmeta.newDiff ns (ref.rev + 1) attrs.length) rfl) (not_conflict_nil _)
  · exact absurd conflict clean
  · exact ⟨nextAttrs, diff, inv, update_of_ok running current success⟩

/-- The result of `TryUpdate`, check by check: the diff of a success lists what the changing
steps wrote. -/
theorem tryUpdate_fst (c : Catalog w) (ref : Ident.Ref w) (ns : String) (attrs : List Rinq.Attr) :
    (c.tryUpdate ref ns attrs).1 =
      if c.done then .error (.notFound c.ref.id)
      else if ref ≠ c.ref then .error (.staleUpdate ref)
      else if Conflict (c.attrs.get ns) attrs then .error (.frozenAttributes ref [])
      else .ok ((c.tryUpdate ref ns attrs).2.head,
        { Attrmeta.newDiff ns (ref.rev + 1) attrs.length with
          entries := produced (c.attrs.get ns) (ref.rev + 1) attrs }) := by
  cases running : c.done
  · by_cases current : ref = c.ref
    · by_cases conflict : Conflict (c.attrs.get ns) attrs
      · rw [tryUpdate_of_conflict running current conflict, if_neg Bool.false_ne_true,
          if_neg (not_not.mpr current), if_pos conflict]
      · obtain ⟨_, diff, inv, outcome⟩ := tryUpdate_of_clean running current conflict
        rw [outcome, if_neg Bool.false_ne_true, if_neg (not_not.mpr current), if_neg conflict,
          inv.diff]
        rfl
    · simp [tryUpdate, update_of_stale running current, current]
  · simp [tryUpdate, update_of_done running]

/-- A `TryUpdate` either leaves the catalog as it was or passes all three checks. -/
theorem tryUpdate_state (c : Catalog w) (ref : Ident.Ref w) (ns : String)
    (attrs : List Rinq.Attr) :
    (c.tryUpdate ref ns attrs).2 = c ∨
      c.done = false ∧ ref = c.ref ∧ ¬Conflict (c.attrs.get ns) attrs := by
  by_cases passed : c.done = false ∧ ref = c.ref ∧ ¬Conflict (c.attrs.get ns) attrs
  · exact .inr passed
  · have failed : (c.tryUpdate ref ns attrs).1 = .error (if c.done then .notFound c.ref.id
        else if ref ≠ c.ref then .staleUpdate ref else .frozenAttributes ref []) := by
      rw [tryUpdate_fst]
      by_cases closed : c.done <;> by_cases current : ref = c.ref <;> simp_all
    exact .inl (update_error failed)

/-- After the commit, the namespace holds what the steps leave: the working map when the diff
is not empty, and the unchanged namespace, which the steps leave too, when it is. -/
theorem commit_lookup (c : Catalog w) (ns : String) {attrs : List Rinq.Attr}
    {nextRev : Ident.Revision w} {start : Diff w} {nextAttrs : Namespace w} {diff : Diff w}
    (empty : start.entries = [])
    (inv : LoopInv (c.attrs.get ns) nextRev start attrs nextAttrs diff) (key : String) :
    ((c.commit ns nextRev nextAttrs diff).attrs.get ns).lookup key =
      afterSteps (c.attrs.get ns) nextRev attrs key := by
  rw [commit_attrs]
  split
  · next unchanged =>
    have none : produced (c.attrs.get ns) nextRev attrs = [] := by
      simpa [Attrmeta.Diff.isEmpty, inv.diff, empty] using unchanged
    simp [afterSteps, (produced_eq_nil_iff _ _ _).mp none key]
  · rw [Attrmeta.Table.get_cloneAndMerge_self, inv.lookup key]

theorem tryUpdate_lookup (running : c.done = false) (current : ref = c.ref)
    (clean : ¬Conflict (c.attrs.get ns) attrs) (key : String) :
    ((c.tryUpdate ref ns attrs).2.attrs.get ns).lookup key =
      afterSteps (c.attrs.get ns) (ref.rev + 1) attrs key := by
  obtain ⟨_, _, inv, outcome⟩ := tryUpdate_of_clean running current clean
  rw [outcome]
  exact commit_lookup c ns rfl inv key

theorem tryUpdate_lookup_other (ref : Ident.Ref w) (attrs : List Rinq.Attr) {other : String}
    (apart : other ≠ ns) :
    (c.tryUpdate ref ns attrs).2.attrs.lookup other = c.attrs.lookup other := by
  rcases tryUpdate_state c ref ns attrs with same | ⟨running, current, clean⟩
  · rw [same]
  · obtain ⟨_, _, _, outcome⟩ := tryUpdate_of_clean running current clean
    rw [outcome, commit_attrs]
    split
    · rfl
    · exact Finmap.lookup_insert_of_ne _ apart

end Catalog

/-- What a successful `TryUpdate` of `attrs` in the namespace `ns` of `c` leaves in `c'`, with
the diff it returns. -/
structure Updated (c : Catalog w) (ns : String) (attrs : List Rinq.Attr) (c' : Catalog w)
    (diff : Diff w) : Prop where
  ref : c'.ref = { c.ref with rev := c.ref.rev + 1 }
  seq : c'.seq = 0
  done : c'.done = c.done
  proposed : ∀ key attr, (attrs.filter (·.key = key)).getLast? = some attr →
    view (c'.attrs.get ns) key = (attr.value, attr.isFrozen)
  unproposed : ∀ key, key ∉ attrs.map (·.key) →
    (c'.attrs.get ns).lookup key = (c.attrs.get ns).lookup key
  others : ∀ other, other ≠ ns → c'.attrs.lookup other = c.attrs.lookup other
  createdAt : ∀ key entry, (c'.attrs.get ns).lookup key = some entry →
    entry.createdAt = createdAtOf (c.attrs.get ns) (c.ref.rev + 1) key
  updatedAt : ∀ key entry, (c'.attrs.get ns).lookup key = some entry →
    entry.updatedAt = if ChangedBy (c.attrs.get ns) attrs key then c.ref.rev + 1
      else ((c.attrs.get ns).get key).1.updatedAt
  diff : diff = { Attrmeta.newDiff ns (c.ref.rev + 1) attrs.length with
    entries := produced (c.attrs.get ns) (c.ref.rev + 1) attrs }

theorem updated_of_loopInv {c : Catalog w} {ns : String} {attrs : List Rinq.Attr}
    {nextAttrs : Namespace w} {diff : Diff w}
    (inv : LoopInv (c.attrs.get ns) (c.ref.rev + 1)
      (Attrmeta.newDiff ns (c.ref.rev + 1) attrs.length) attrs nextAttrs diff) :
    Updated c ns attrs (c.commit ns (c.ref.rev + 1) nextAttrs diff) diff where
  ref := rfl
  seq := rfl
  done := rfl
  proposed key attr last := by
    rw [view_of_lookup_afterSteps (Catalog.commit_lookup c ns rfl inv key),
      workingView_of_getLast? _ _ _ last]
  unproposed key absent := by
    rw [Catalog.commit_lookup c ns rfl inv key, afterSteps, if_neg]
    rintro ⟨⟨_, attr⟩, step, rfl, -⟩
    exact absent (List.mem_map_of_mem _ (mem_of_mem_withPrefixes step))
  others other apart := by
    rw [Catalog.commit_attrs]
    split
    · rfl
    · exact Finmap.lookup_insert_of_ne _ apart
  createdAt key entry found := by
    rw [Catalog.commit_lookup c ns rfl inv key, afterSteps] at found
    split at found
    · cases found
      rfl
    · simp [createdAtOf, Finmap.mem_of_lookup_eq_some found, Namespace.get_of_lookup_some found]
  updatedAt key entry found := by
    rw [Catalog.commit_lookup c ns rfl inv key, afterSteps] at found
    split at found
    · next changed =>
      cases found
      simp [changed, written]
    · next unchanged => simp [unchanged, Namespace.get_of_lookup_some found]
  diff := by
    rw [inv.diff]
    rfl

/-- `TryUpdate` answers with the first check that fails: closed, then stale, then a step that
would change a frozen working entry. Otherwise it commits what the steps leave. -/
theorem tryUpdate_spec (c : Catalog w) (ref : Ident.Ref w) (ns : String)
    (attrs : List Rinq.Attr) :
    ((∃ id, (c.tryUpdate ref ns attrs).1 = .error (.notFound id)) ↔ c.done = true) ∧
      (c.done = false →
        ((c.tryUpdate ref ns attrs).1 = .error (.staleUpdate ref) ↔ ref ≠ c.ref)) ∧
      (c.done = false → ref = c.ref →
        ((∃ frozen keys, (c.tryUpdate ref ns attrs).1 = .error (.frozenAttributes frozen keys)) ↔
          Conflict (c.attrs.get ns) attrs)) ∧
      (c.done = false → ref = c.ref → ¬Conflict (c.attrs.get ns) attrs →
        ∃ diff, (c.tryUpdate ref ns attrs).1 = .ok ((c.tryUpdate ref ns attrs).2.head, diff) ∧
          Updated c ns attrs (c.tryUpdate ref ns attrs).2 diff) := by
  refine ⟨?_, fun running => ?_, fun running current => ?_, fun running current clean => ?_⟩
  -- the three checks, read off the result of `TryUpdate`
  · rw [Catalog.tryUpdate_fst]
    cases running : c.done
    · simp only [Bool.false_eq_true, if_false, iff_false, not_exists]
      intro id
      split_ifs <;> simp
    · simp
  · rw [Catalog.tryUpdate_fst]
    simp only [running, Bool.false_eq_true, if_false]
    split_ifs <;> simp_all
  · rw [Catalog.tryUpdate_fst]
    simp only [running, Bool.false_eq_true, if_false, current, ne_eq, not_true_eq_false]
    split_ifs <;> simp_all
  · obtain ⟨nextAttrs, diff, inv, outcome⟩ := Catalog.tryUpdate_of_clean running current clean
    subst current
    exact ⟨diff, by rw [outcome], by rw [outcome]; exact updated_of_loopInv inv⟩

theorem tryUpdate_spec_example :
    let c : Catalog 64 := newCatalog ⟨⟨1, 0xBAD⟩, 7⟩
    ∃ diff, (c.tryUpdate c.ref "ns" [Rinq.set "a" "1"]).1 =
        .ok ((c.tryUpdate c.ref "ns" [Rinq.set "a" "1"]).2.head, diff) ∧
      Updated c "ns" [Rinq.set "a" "1"] (c.tryUpdate c.ref "ns" [Rinq.set "a" "1"]).2 diff := by
  intro c
  exact (tryUpdate_spec c c.ref "ns" [Rinq.set "a" "1"]).2.2.2 rfl rfl (by decide)

/-- `TryUpdate` trusts the metadata it finds: an entry that already carries the next revision as
its `CreatedAt` keeps it, so that `CreatedAt` equals the new revision although the key existed
before the update. -/
theorem tryUpdate_createdAt_of_existing_key :
    let c : Catalog 64 := { newCatalog ⟨⟨1, 0xBAD⟩, 7⟩ with
      attrs := (∅ : Attrmeta.Table 64).insert "ns"
        ((∅ : Namespace 64).insert "a" ⟨Rinq.set "a" "1", 1, 1⟩) }
    (c.tryUpdate c.ref "ns" [Rinq.set "b" "1"]).1.isOk = true ∧ "a" ∈ c.attrs.get "ns" ∧
      (((c.tryUpdate c.ref "ns" [Rinq.set "b" "1"]).2.attrs.get "ns").lookup "a").map
        (·.createdAt) = some (c.tryUpdate c.ref "ns" [Rinq.set "b" "1"]).2.ref.rev := by
  decide

/-- A `TryUpdate` or `TryClear` that fails leaves the whole catalog as it was. -/
theorem failed_update_keeps_catalog (c : Catalog w) (ref : Ident.Ref w) (ns : String)
    (attrs : List Rinq.Attr) (visit : List (Σ _ : String, Attrmeta.Attr w)) (err : Error w) :
    ((c.tryUpdate ref ns attrs).1 = .error err → (c.tryUpdate ref ns attrs).2 = c) ∧
      ((c.tryClear ref ns visit).1 = .error err → (c.tryClear ref ns visit).2 = c) :=
  ⟨Catalog.update_error, Catalog.update_error⟩

theorem failed_update_keeps_catalog_example :
    let id : Ident.SessionID := ⟨⟨1, 0xBAD⟩, 7⟩
    let c : Catalog 64 := ((newCatalog id).tryUpdate (id.at 0) "ns" [Rinq.freeze "x" "v"]).2
    (c.tryUpdate (id.at 1) "ns" [Rinq.set "a" "1", Rinq.set "x" "w"]).2 = c := by
  intro id c
  exact (failed_update_keeps_catalog c _ _ _ [] (.frozenAttributes (id.at 1) [])).1 (by decide)

end Rinq.Localsession
