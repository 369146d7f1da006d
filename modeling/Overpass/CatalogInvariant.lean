import Overpass.ClearLoop

set_option autoImplicit false

namespace Rinq.Localsession

open Attrmeta (Namespace Diff)

variable {w : Nat}

/-! ## Frozen entries through `TryUpdate` -/

/-- Without a conflict, a working entry that is frozen after the proposals `done` keeps its view
through the proposals after them. -/
theorem workingView_append_of_frozen {ns : Namespace w} {done : List Rinq.Attr}
    {key value : String} (frozen : workingView ns done key = (value, true)) (more : List Rinq.Attr)
    (clean : ¬Conflict ns (done ++ more)) : workingView ns (done ++ more) key = (value, true) := by
  induction more using List.reverseRecOn with
  | nil => simpa using frozen
  | append_singleton more attr ih =>
    rw [← List.append_assoc, conflict_append_singleton, not_or] at clean
    have kept := ih clean.1
    rw [← List.append_assoc, workingView_append_singleton]
    split
    · next same =>
      subst same
      by_contra changes
      exact clean.2 ⟨by rw [Changes, kept]; exact changes, by rw [kept]⟩
    · exact kept

theorem workingView_of_frozen {ns : Namespace w} {key value : String}
    (frozen : view ns key = (value, true)) (attrs : List Rinq.Attr) (clean : ¬Conflict ns attrs) :
    workingView ns attrs key = (value, true) :=
  @workingView_append_of_frozen w ns [] key value frozen attrs clean

/-- A batch that freezes `key` and later proposes anything else for it conflicts: either a step
before that proposal already does, or the proposal meets the working entry the freeze left. -/
theorem conflict_of_freeze_then_change (ns : Namespace w) {pre mid post : List Rinq.Attr}
    {key value : String} {attr : Rinq.Attr} (same : attr.key = key)
    (changes : (attr.value, attr.isFrozen) ≠ (value, true)) :
    Conflict ns (pre ++ Rinq.freeze key value :: mid ++ attr :: post) := by
  by_cases early : Conflict ns (pre ++ Rinq.freeze key value :: mid)
  · exact conflict_append _ early
  have frozen : workingView ns (pre ++ [Rinq.freeze key value]) key = (value, true) := by
    rw [workingView_append_singleton]
    exact if_pos rfl
  have kept : workingView ns (pre ++ Rinq.freeze key value :: mid) key = (value, true) := by
    simpa using workingView_append_of_frozen frozen mid (by simpa using early)
  refine ⟨(pre ++ Rinq.freeze key value :: mid, attr), mem_withPrefixes.mpr ⟨post, rfl⟩, ?_, ?_⟩
  · rw [Changes, same, kept]
    exact changes
  · rw [same, kept]

theorem not_changedBy_of_frozen {ns : Namespace w} {key value : String}
    (frozen : view ns key = (value, true)) {attrs : List Rinq.Attr} (clean : ¬Conflict ns attrs) :
    ¬ChangedBy ns attrs key := by
  rintro ⟨⟨done, attr⟩, step, rfl, changes⟩
  obtain ⟨rest, rfl⟩ := mem_withPrefixes.mp step
  have before : ¬Conflict ns done := fun conflict => clean (conflict_append _ conflict)
  exact clean ⟨(done, attr), step, changes, by rw [workingView_of_frozen frozen done before]⟩

namespace Catalog

variable {c : Catalog w}

def KeysMatch (c : Catalog w) : Prop := ∀ ns, Localsession.KeysMatch (c.attrs.get ns)

theorem keysMatch_tryUpdate (keys : c.KeysMatch) (ref : Ident.Ref w) (ns : String)
    (attrs : List Rinq.Attr) : (c.tryUpdate ref ns attrs).2.KeysMatch := by
  rcases tryUpdate_state c ref ns attrs with same | ⟨running, current, clean⟩
  · rw [same]
    exact keys
  · intro other key entry found
    by_cases here : other = ns
    · subst here
      rw [tryUpdate_lookup running current clean, afterSteps] at found
      split at found
      · cases found
        rfl
      · exact keys other key entry found
    · rw [Attrmeta.Table.get, tryUpdate_lookup_other ref attrs here] at found
      exact keys other key entry found

theorem frozen_tryUpdate {ns : String} {key : String} {entry : Attrmeta.Attr w}
    (stored : (c.attrs.get ns).lookup key = some entry) (frozen : entry.attr.isFrozen = true)
    (ref : Ident.Ref w) (target : String) (attrs : List Rinq.Attr) :
    ((c.tryUpdate ref target attrs).2.attrs.get ns).lookup key = some entry := by
  rcases tryUpdate_state c ref target attrs with same | ⟨running, current, clean⟩
  · rw [same, stored]
  · by_cases here : ns = target
    · subst here
      have seen : view (c.attrs.get ns) key = (entry.attr.value, true) := by
        simp [view, Namespace.get_of_lookup_some stored, frozen]
      rw [tryUpdate_lookup running current clean, afterSteps,
        if_neg (not_changedBy_of_frozen seen clean), stored]
    · rw [Attrmeta.Table.get, tryUpdate_lookup_other ref attrs here, ← Attrmeta.Table.get, stored]

/-- What a call does to the table: it leaves it, or it is a `TryUpdate`, which an admissible
`TryClear` is when every entry sits under its own key. -/
theorem step_attrs_cases (keys : c.KeysMatch) {call : Call w} (admissible : call.Admissible c) :
    (c.step call).2.attrs = c.attrs ∨
      ∃ ref ns attrs, (c.step call).2 = (c.tryUpdate ref ns attrs).2 := by
  cases call with
  | tryUpdate ref ns attrs => exact .inr ⟨ref, ns, attrs, rfl⟩
  | tryClear ref ns visit =>
    exact .inr ⟨ref, ns, _, by rw [step, tryClear_eq_tryUpdate (keys ns) admissible]⟩
  | tryDestroy ref =>
    refine .inl ?_
    simp only [step, tryDestroy]
    split <;> rfl
  | _ => exact .inl rfl

theorem keysMatch_step (keys : c.KeysMatch) {call : Call w} (admissible : call.Admissible c) :
    (c.step call).2.KeysMatch := by
  rcases step_attrs_cases keys admissible with same | ⟨ref, ns, attrs, update⟩
  · intro ns
    rw [same]
    exact keys ns
  · rw [update]
    exact keysMatch_tryUpdate keys ref ns attrs

/-- No admissible call changes a frozen entry. -/
theorem frozen_step (keys : c.KeysMatch) {call : Call w} (admissible : call.Admissible c)
    {ns key : String} {entry : Attrmeta.Attr w} (stored : (c.attrs.get ns).lookup key = some entry)
    (frozen : entry.attr.isFrozen = true) :
    ((c.step call).2.attrs.get ns).lookup key = some entry := by
  rcases step_attrs_cases keys admissible with same | ⟨ref, target, attrs, update⟩
  · rw [same, stored]
  · rw [update]
    exact frozen_tryUpdate stored frozen ref target attrs

end Catalog

theorem Reachable.keysMatch {c : Catalog w} (reachable : Reachable c) : c.KeysMatch := by
  induction reachable with
  | newCatalog id => intro ns key entry found; simp [Localsession.newCatalog] at found
  | step call admissible _ keys => exact Catalog.keysMatch_step keys admissible

theorem Reachable.run {c : Catalog w} (reachable : Reachable c) (calls : List (Call w))
    (admissible : Admissible c calls) : Reachable (c.run calls).2 := by
  induction calls generalizing c with
  | nil => exact reachable
  | cons call calls ih => exact ih (reachable.step call admissible.1) admissible.2

/-! ## Frozen entries over runs -/

theorem Reachable.frozen_run {c : Catalog w} (reachable : Reachable c) (calls : List (Call w))
    (admissible : Admissible c calls) {ns key : String} {entry : Attrmeta.Attr w}
    (stored : (c.attrs.get ns).lookup key = some entry) (frozen : entry.attr.isFrozen = true) :
    ((c.run calls).2.attrs.get ns).lookup key = some entry := by
  induction calls generalizing c with
  | nil => exact stored
  | cons call calls ih =>
    exact ih (reachable.step call admissible.1) admissible.2
      (Catalog.frozen_step reachable.keysMatch admissible.1 stored frozen)

theorem Catalog.tryUpdate_error_of_conflict (c : Catalog w) (ref : Ident.Ref w) {ns : String}
    {attrs : List Rinq.Attr} (conflict : Conflict (c.attrs.get ns) attrs) :
    ∃ err, c.tryUpdate ref ns attrs = (.error err, c) := by
  cases running : c.done
  · by_cases current : ref = c.ref
    · exact ⟨_, Catalog.tryUpdate_of_conflict running current conflict⟩
    · exact ⟨_, Catalog.update_of_stale running current⟩
  · exact ⟨_, Catalog.update_of_done running⟩

/-- In a reachable catalog, a frozen entry stays, unchanged, through every later run; and a
`TryUpdate` whose batch freezes a key and later proposes anything else for it fails and keeps the
catalog. -/
theorem frozen_entry_stays {c : Catalog w} (reachable : Reachable c) :
    (∀ calls, Admissible c calls → ∀ ns key entry, (c.attrs.get ns).lookup key = some entry →
      entry.attr.isFrozen = true → ((c.run calls).2.attrs.get ns).lookup key = some entry) ∧
    ∀ ref ns pre key value mid attr post, attr.key = key →
      (attr.value, attr.isFrozen) ≠ (value, true) →
      ∃ err, c.tryUpdate ref ns (pre ++ Rinq.freeze key value :: mid ++ attr :: post) =
        (.error err, c) :=
  ⟨fun calls admissible _ _ _ stored frozen => reachable.frozen_run calls admissible stored frozen,
    fun ref _ _ _ _ _ _ _ same changes =>
      c.tryUpdate_error_of_conflict ref (conflict_of_freeze_then_change _ same changes)⟩

theorem frozen_entry_stays_example :
    let id : Ident.SessionID := ⟨⟨1, 0xBAD⟩, 7⟩
    let c : Catalog 64 := ((newCatalog id).tryUpdate (id.at 0) "ns" [Rinq.freeze "x" "v"]).2
    let calls : List (Call 64) := [.tryUpdate (id.at 1) "ns" [Rinq.set "x" "w"],
      .tryClear (id.at 1) "ns" [⟨"x", ⟨Rinq.freeze "x" "v", 1, 1⟩⟩]]
    Reachable c ∧ Admissible c calls ∧
      ((c.run calls).2.attrs.get "ns").lookup "x" = some ⟨Rinq.freeze "x" "v", 1, 1⟩ ∧
      ∃ err,
        c.tryUpdate (id.at 1) "ns" [Rinq.freeze "y" "1", Rinq.set "y" "2"] = (.error err, c) := by
  intro id c calls
  have reachable : Reachable c :=
    .step (.tryUpdate (id.at 0) "ns" [Rinq.freeze "x" "v"]) trivial (.newCatalog id)
  have admissible : Admissible c calls := by decide
  have stored : (c.attrs.get "ns").lookup "x" = some ⟨Rinq.freeze "x" "v", 1, 1⟩ := by decide
  obtain ⟨stays, batch⟩ := frozen_entry_stays reachable
  have kept := stays calls admissible "ns" "x" _ stored rfl
  have refused := batch (id.at 1) "ns" [] "y" "1" [] (Rinq.set "y" "2") [] rfl (by decide)
  exact ⟨reachable, admissible, kept, refused⟩

/-! ## `TryClear` on reachable catalogs -/

theorem Enumerates.mem {ns : Namespace w} {visit : List (Σ _ : String, Attrmeta.Attr w)}
    (enumerates : Enumerates ns visit) {key : String} {entry : Attrmeta.Attr w}
    (stored : ns.lookup key = some entry) :
    (⟨key, entry⟩ : Σ _ : String, Attrmeta.Attr w) ∈ visit :=
  Multiset.mem_coe.mp (enumerates ▸ Finmap.lookup_eq_some_iff.mp stored)

theorem clearLoop_of_frozen (ref : Ident.Ref w) (nextRev : Ident.Revision w)
    {visit : List (Σ _ : String, Attrmeta.Attr w)} {entry : Σ _ : String, Attrmeta.Attr w}
    (mem : entry ∈ visit) (valued : entry.2.attr.value ≠ "") (frozen : entry.2.attr.isFrozen = true)
    (rebuilt : Namespace w) (diff : Diff w) :
    clearLoop ref nextRev rebuilt diff visit = .error (.frozenAttributes ref []) := by
  induction visit generalizing rebuilt diff with
  | nil => cases mem
  | cons first visit ih =>
    rcases List.mem_cons.mp mem with rfl | later
    · simp [clearLoop, valued, frozen]
    · simp only [clearLoop]
      split_ifs
      · rfl
      all_goals exact ih later _ _

/-- On a reachable catalog, `TryClear` is `TryUpdate` with one `Set(key, "")` per entry with a
value, in the order `range` visits them: the same error, or the same commit and diff. A frozen
entry with a value makes it fail, and a frozen entry without one is left as it is. -/
theorem tryClear_is_tryUpdate {c : Catalog w} (reachable : Reachable c) (ref : Ident.Ref w)
    (ns : String) {visit : List (Σ _ : String, Attrmeta.Attr w)}
    (enumerates : Enumerates (c.attrs.get ns) visit) :
    c.tryClear ref ns visit = c.tryUpdate ref ns (clearProposals visit) ∧
      ∀ key entry, (c.attrs.get ns).lookup key = some entry → entry.attr.isFrozen = true →
        (entry.attr.value ≠ "" →
          (c.tryClear ref ns visit).1 = .error (if c.done then .notFound c.ref.id
            else if ref ≠ c.ref then .staleUpdate ref else .frozenAttributes ref [])) ∧
        (entry.attr.value = "" →
          ((c.tryClear ref ns visit).2.attrs.get ns).lookup key = some entry) := by
  refine ⟨Catalog.tryClear_eq_tryUpdate (reachable.keysMatch ns) enumerates ref,
    fun key entry stored frozen => ⟨fun valued => ?_, fun _ => ?_⟩⟩
  · cases closed : c.done
    · by_cases current : ref = c.ref
      · rw [Catalog.tryClear, Catalog.update_of_error closed current
          (clearLoop_of_frozen ref _ (enumerates.mem stored) valued frozen _ _)]
        simp [current]
      · simp [Catalog.tryClear, Catalog.update_of_stale closed current, current]
    · simp [Catalog.tryClear, Catalog.update_of_done closed]
  · have admissible : (Call.tryClear ref ns visit).Admissible c := enumerates
    exact Catalog.frozen_step reachable.keysMatch admissible stored frozen

theorem tryClear_is_tryUpdate_example :
    let id : Ident.SessionID := ⟨⟨1, 0xBAD⟩, 7⟩
    let c : Catalog 64 :=
      ((newCatalog id).tryUpdate (id.at 0) "ns" [Rinq.set "a" "1", Rinq.freeze "b" ""]).2
    c.tryClear (id.at 1) "ns" [⟨"a", ⟨Rinq.set "a" "1", 1, 1⟩⟩, ⟨"b", ⟨Rinq.freeze "b" "", 1, 1⟩⟩] =
      c.tryUpdate (id.at 1) "ns" [Rinq.set "a" ""] := by
  intro id c
  refine (tryClear_is_tryUpdate (c := c) ?_ _ "ns" ?_).1
  · exact .step (.tryUpdate (id.at 0) "ns" [Rinq.set "a" "1", Rinq.freeze "b" ""]) trivial
      (.newCatalog id)
  · decide

/-! ## Closed catalogs -/

namespace Catalog

theorem step_of_done {c : Catalog w} (closed : c.done = true) (call : Call w) :
    (c.step call).2 = c ∨ (c.step call).2 = { c with seq := c.seq + 1 } := by
  cases call with
  | nextMessageID => exact .inr rfl
  | tryUpdate ref ns attrs => exact .inl (by simp [step, tryUpdate, update_of_done closed])
  | tryClear ref ns visit => exact .inl (by simp [step, tryClear, update_of_done closed])
  | tryDestroy ref =>
    refine .inl ?_
    simp only [step, tryDestroy]
    split
    · rfl
    · cases c
      simp_all
  | close =>
    refine .inl ?_
    cases c
    simp_all [step, close]
  | _ => exact .inl rfl

theorem run_of_done {c : Catalog w} (closed : c.done = true) (calls : List (Call w)) :
    (c.run calls).2.done = true ∧ (c.run calls).2.ref = c.ref ∧
      (c.run calls).2.attrs = c.attrs := by
  induction calls generalizing c with
  | nil => exact ⟨closed, rfl, rfl⟩
  | cons call calls ih =>
    rcases step_of_done closed call with same | counted
    · simpa [same] using ih (c := (c.step call).2) (by rw [same]; exact closed)
    · simpa [counted] using ih (c := (c.step call).2) (by rw [counted]; exact closed)

end Catalog

/-- Once closed, a catalog stays closed: its ref and table never change again, every
`TryUpdate` and `TryClear` answers `NotFoundError`, and `TryDestroy` succeeds exactly with the
current ref. -/
theorem closed_catalog_stays_closed {c : Catalog w} (closed : c.done = true)
    (calls : List (Call w)) :
    (c.run calls).2.done = true ∧ (c.run calls).2.ref = c.ref ∧ (c.run calls).2.attrs = c.attrs ∧
      (∀ ref ns attrs, (c.run calls).2.tryUpdate ref ns attrs =
        (.error (.notFound c.ref.id), (c.run calls).2)) ∧
      (∀ ref ns visit, (c.run calls).2.tryClear ref ns visit =
        (.error (.notFound c.ref.id), (c.run calls).2)) ∧
      (∀ ref, ((c.run calls).2.tryDestroy ref).1 =
        if ref = c.ref then none else some (.staleUpdate ref)) := by
  obtain ⟨stillClosed, sameRef, sameAttrs⟩ := Catalog.run_of_done closed calls
  refine ⟨stillClosed, sameRef, sameAttrs, fun ref ns attrs => ?_, fun ref ns visit => ?_,
    fun ref => ?_⟩
  · rw [Catalog.tryUpdate, Catalog.update_of_done stillClosed, sameRef]
  · rw [Catalog.tryClear, Catalog.update_of_done stillClosed, sameRef]
  · by_cases current : ref = c.ref <;> simp [Catalog.tryDestroy, sameRef, current]

theorem closed_catalog_stays_closed_example :
    let c : Catalog 64 := (newCatalog ⟨⟨1, 0xBAD⟩, 7⟩).close
    (c.run [.nextMessageID, .tryUpdate c.ref "ns" [Rinq.set "a" "1"]]).2.ref = c.ref :=
  (closed_catalog_stays_closed rfl _).2.1

end Rinq.Localsession
