import Overpass.CatalogUpdate

set_option autoImplicit false

namespace Rinq.Localsession

open Attrmeta (Namespace Diff)

variable {w : Nat}

/-! ## Proposals after proposals -/

theorem workingView_of_not_mem (ns : Namespace w) {done : List Rinq.Attr} {key : String}
    (absent : key ∉ done.map (·.key)) : workingView ns done key = view ns key := by
  induction done using List.reverseRecOn with
  | nil => rfl
  | append_singleton done attr ih =>
    simp only [List.map_append, List.map_cons, List.map_nil, List.mem_append, List.mem_singleton,
      not_or] at absent
    rw [workingView_append_singleton, if_neg (Ne.symm absent.2), ih absent.1]

/-- Proposals made after `done` see, over `ns`, what they see over a namespace `ns'` whose
entries show the working view `done` leaves. -/
theorem workingView_append_of_view {ns ns' : Namespace w} {done : List Rinq.Attr}
    (agree : ∀ key, view ns' key = workingView ns done key) (more : List Rinq.Attr)
    (key : String) : workingView ns (done ++ more) key = workingView ns' more key := by
  have start := agree key
  simp only [workingView] at start ⊢
  rw [List.foldl_append, start]

/-- A batch conflicts when its first part does, or its second part does over what the first
leaves. -/
theorem conflict_append_iff {ns ns' : Namespace w} {done : List Rinq.Attr}
    (agree : ∀ key, view ns' key = workingView ns done key) (more : List Rinq.Attr) :
    Conflict ns (done ++ more) ↔ Conflict ns done ∨ Conflict ns' more := by
  have later : ∀ step : List Rinq.Attr × Rinq.Attr,
      (Changes ns (done ++ step.1) step.2 ∧ (workingView ns (done ++ step.1) step.2.key).2 = true) ↔
        Changes ns' step.1 step.2 ∧ (workingView ns' step.1 step.2.key).2 = true := fun step => by
    rw [Changes, Changes, workingView_append_of_view agree]
  constructor
  · rintro ⟨step, mem, found⟩
    rcases List.mem_append.mp (withPrefixes_append done more ▸ mem) with mem | mem
    · exact .inl ⟨step, mem, found⟩
    · obtain ⟨inner, member, rfl⟩ := List.mem_map.mp mem
      exact .inr ⟨inner, member, (later inner).mp found⟩
  · rintro (conflict | ⟨step, mem, found⟩)
    · exact conflict_append more conflict
    · refine ⟨(done ++ step.1, step.2), ?_, (later step).mpr found⟩
      rw [withPrefixes_append]
      exact List.mem_append_right _ (List.mem_map_of_mem _ mem)

theorem getLast?_filter_of_nodup {attrs : List Rinq.Attr} (distinct : (attrs.map (·.key)).Nodup)
    {attr : Rinq.Attr} (mem : attr ∈ attrs) :
    (attrs.filter (·.key = attr.key)).getLast? = some attr := by
  have single : attrs.filter (·.key = attr.key) = [attr] := by
    induction attrs with
    | nil => cases mem
    | cons first attrs ih =>
      simp only [List.map_cons, List.nodup_cons, List.mem_map] at distinct
      rcases List.mem_cons.mp mem with rfl | mem
      · have none : attrs.filter (·.key = attr.key) = [] :=
          List.filter_eq_nil_iff.mpr fun other mem same =>
            distinct.1 ⟨other, mem, by simpa using same⟩
        simp [none]
      · have apart : first.key ≠ attr.key := fun same => distinct.1 ⟨attr, mem, same.symm⟩
        simp [apart, ih distinct.2 mem]
  rw [single]
  rfl

namespace Catalog

variable {c : Catalog w} {ref : Ident.Ref w} {ns : String} {attrs : List Rinq.Attr}

theorem tryUpdate_isOk_iff :
    (c.tryUpdate ref ns attrs).1.isOk = true ↔
      c.done = false ∧ ref = c.ref ∧ ¬Conflict (c.attrs.get ns) attrs := by
  rw [tryUpdate_fst]
  by_cases closed : c.done = true
  · simp [closed, Except.isOk, Except.toBool]
  · by_cases current : ref = c.ref
    · by_cases conflict : Conflict (c.attrs.get ns) attrs
      · simp [closed, current, conflict, Except.isOk, Except.toBool]
      · simp [closed, current, conflict, Except.isOk, Except.toBool]
    · simp [closed, current, Except.isOk, Except.toBool]

/-- After a successful `TryUpdate` the namespace shows the working view its proposals leave, the
catalog is open, and it stands at the next revision. -/
theorem tryUpdate_of_isOk (ok : (c.tryUpdate ref ns attrs).1.isOk = true) :
    (c.tryUpdate ref ns attrs).2.done = false ∧
      (c.tryUpdate ref ns attrs).2.ref = { c.ref with rev := c.ref.rev + 1 } ∧
      ∀ key, view ((c.tryUpdate ref ns attrs).2.attrs.get ns) key =
        workingView (c.attrs.get ns) attrs key := by
  obtain ⟨running, current, clean⟩ := tryUpdate_isOk_iff.mp ok
  obtain ⟨_, _, _, outcome⟩ := tryUpdate_of_clean running current clean
  refine ⟨by rw [outcome, commit_done, running], by rw [outcome, commit_ref, current],
    fun key => ?_⟩
  exact view_of_lookup_afterSteps (tryUpdate_lookup running current clean key)

end Catalog

/-! ## Splitting a batch -/

/-- A batch `first ++ second` succeeds exactly when `first` succeeds and `second` then succeeds
at the ref it returns; the batch and the two updates leave every key of the namespace with the
same value and frozen flag. -/
theorem tryUpdate_append (c : Catalog w) (ref : Ident.Ref w) (ns : String)
    (first second : List Rinq.Attr) :
    let split := c.tryUpdate ref ns first
    ((c.tryUpdate ref ns (first ++ second)).1.isOk = true ↔
        split.1.isOk = true ∧ (split.2.tryUpdate split.2.ref ns second).1.isOk = true) ∧
      ((c.tryUpdate ref ns (first ++ second)).1.isOk = true → ∀ key,
        view ((c.tryUpdate ref ns (first ++ second)).2.attrs.get ns) key =
          view ((split.2.tryUpdate split.2.ref ns second).2.attrs.get ns) key) := by
  dsimp only
  by_cases ok : (c.tryUpdate ref ns first).1.isOk = true
  · obtain ⟨running, current, clean⟩ := Catalog.tryUpdate_isOk_iff.mp ok
    obtain ⟨running', -, agree⟩ := Catalog.tryUpdate_of_isOk ok
    subst current
    have batch : (c.tryUpdate c.ref ns (first ++ second)).1.isOk = true ↔
        ((c.tryUpdate c.ref ns first).2.tryUpdate (c.tryUpdate c.ref ns first).2.ref ns
          second).1.isOk = true := by
      rw [Catalog.tryUpdate_isOk_iff, Catalog.tryUpdate_isOk_iff, conflict_append_iff agree]
      simp [running, clean, running']
    refine ⟨by rw [batch]; exact ⟨fun later => ⟨ok, later⟩, And.right⟩, fun whole key => ?_⟩
    rw [(Catalog.tryUpdate_of_isOk whole).2.2, (Catalog.tryUpdate_of_isOk (batch.mp whole)).2.2,
      workingView_append_of_view agree]
  · have failed : (c.tryUpdate ref ns (first ++ second)).1.isOk = false := by
      rw [Bool.eq_false_iff]
      intro whole
      obtain ⟨running, current, clean⟩ := Catalog.tryUpdate_isOk_iff.mp whole
      exact ok (Catalog.tryUpdate_isOk_iff.mpr ⟨running, current, fun conflict =>
        clean (conflict_append second conflict)⟩)
    simp [failed, ok]

/-! ## Sending a batch again -/

/-- A successful `TryUpdate` whose proposals name distinct keys, sent again at the ref it
returned, succeeds with an empty diff, and changes only the revision and the sequence number. -/
theorem tryUpdate_retry (c : Catalog w) (ref : Ident.Ref w) (ns : String) (attrs : List Rinq.Attr)
    (distinct : (attrs.map (·.key)).Nodup) (ok : (c.tryUpdate ref ns attrs).1.isOk = true) :
    let next := (c.tryUpdate ref ns attrs).2
    (next.tryUpdate next.ref ns attrs).1 =
        .ok ((next.tryUpdate next.ref ns attrs).2.head,
          Attrmeta.newDiff ns (next.ref.rev + 1) attrs.length) ∧
      (next.tryUpdate next.ref ns attrs).2 =
        { next with ref := { next.ref with rev := next.ref.rev + 1 }, seq := 0 } := by
  intro next
  obtain ⟨running, -, agree⟩ := Catalog.tryUpdate_of_isOk ok
  have still : ∀ step ∈ withPrefixes attrs, ¬Changes (next.attrs.get ns) step.1 step.2 := by
    rintro ⟨done, attr⟩ step
    obtain ⟨rest, rfl⟩ := mem_withPrefixes.mp step
    have before : attr.key ∉ done.map (·.key) := by
      simp only [List.map_append, List.map_cons, List.nodup_append, List.nodup_cons] at distinct
      exact fun mem => distinct.2.2 mem (.head _)
    rw [Changes, workingView_of_not_mem _ before, agree,
      workingView_of_getLast? _ _ _ (getLast?_filter_of_nodup distinct (by simp))]
    exact not_not.mpr rfl
  have clean : ¬Conflict (next.attrs.get ns) attrs := fun ⟨step, mem, changes, _⟩ =>
    still step mem changes
  have nothing : produced (next.attrs.get ns) (next.ref.rev + 1) attrs = [] :=
    List.filterMap_eq_nil_iff.mpr fun step mem => if_neg (still step mem)
  obtain ⟨nextAttrs, diff, inv, outcome⟩ := Catalog.tryUpdate_of_clean running rfl clean
  have empty : diff = Attrmeta.newDiff ns (next.ref.rev + 1) attrs.length := by
    rw [inv.diff, nothing]
    rfl
  rw [outcome, empty]
  exact ⟨rfl, by simp [Catalog.commit, Attrmeta.Diff.isEmpty, Attrmeta.newDiff]⟩

theorem tryUpdate_retry_example :
    let c : Catalog 64 := newCatalog ⟨⟨1, 0xBAD⟩, 7⟩
    let attrs := [Rinq.set "a" "1", Rinq.freeze "b" "2"]
    let next := (c.tryUpdate c.ref "ns" attrs).2
    (attrs.map (·.key)).Nodup ∧ (c.tryUpdate c.ref "ns" attrs).1.isOk = true ∧
      (next.tryUpdate next.ref "ns" attrs).1 =
        .ok ((next.tryUpdate next.ref "ns" attrs).2.head,
          Attrmeta.newDiff "ns" (next.ref.rev + 1) attrs.length) ∧
      (next.tryUpdate next.ref "ns" attrs).2 =
        { next with ref := { next.ref with rev := next.ref.rev + 1 }, seq := 0 } := by
  intro c attrs next
  have distinct : (attrs.map (·.key)).Nodup := by decide
  have ok : (c.tryUpdate c.ref "ns" attrs).1.isOk = true := by decide
  exact ⟨distinct, ok, tryUpdate_retry c c.ref "ns" attrs distinct ok⟩

end Rinq.Localsession
