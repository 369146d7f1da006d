import Overpass.Catalog

set_option autoImplicit false

namespace Rinq.Localsession

open Attrmeta (Namespace Diff)

variable {w : Nat}

/-- The value and frozen flag of the entry for `key`; `("", false)` when there is none. -/
def view (ns : Namespace w) (key : String) : String × Bool :=
  ((ns.get key).1.attr.value, (ns.get key).1.attr.isFrozen)

/-- The value and frozen flag of the working entry for `key` once the proposals `done` have
been applied: the last proposal for `key` wins. -/
def workingView (ns : Namespace w) (done : List Rinq.Attr) (key : String) : String × Bool :=
  done.foldl (fun current attr => if attr.key = key then (attr.value, attr.isFrozen) else current)
    (view ns key)

/-- The steps of the loop: each proposal with the proposals before it. -/
def withPrefixes : List Rinq.Attr → List (List Rinq.Attr × Rinq.Attr)
  | [] => []
  | attr :: attrs => ([], attr) :: (withPrefixes attrs).map fun step => (attr :: step.1, step.2)

/-- Proposing `attr` after `done` changes the working entry for its key. -/
def Changes (ns : Namespace w) (done : List Rinq.Attr) (attr : Rinq.Attr) : Prop :=
  (attr.value, attr.isFrozen) ≠ workingView ns done attr.key

instance (ns : Namespace w) (done : List Rinq.Attr) (attr : Rinq.Attr) :
    Decidable (Changes ns done attr) :=
  inferInstanceAs (Decidable (¬ _ = _))

/-- Some step would change a working entry that is frozen. -/
def Conflict (ns : Namespace w) (attrs : List Rinq.Attr) : Prop :=
  ∃ step ∈ withPrefixes attrs,
    Changes ns step.1 step.2 ∧ (workingView ns step.1 step.2.key).2 = true

def ChangedBy (ns : Namespace w) (attrs : List Rinq.Attr) (key : String) : Prop :=
  ∃ step ∈ withPrefixes attrs, step.2.key = key ∧ Changes ns step.1 step.2

instance (ns : Namespace w) (attrs : List Rinq.Attr) (key : String) :
    Decidable (ChangedBy ns attrs key) :=
  inferInstanceAs (Decidable (∃ step ∈ withPrefixes attrs, _))

/-- The `CreatedAt` a step writes: the namespace's when the key was in it, else the next
revision. -/
def createdAtOf (ns : Namespace w) (nextRev : Ident.Revision w) (key : String) : Ident.Revision w :=
  if key ∈ ns then (ns.get key).1.createdAt else nextRev

def written (ns : Namespace w) (nextRev : Ident.Revision w) (attr : Rinq.Attr) : Attrmeta.Attr w :=
  ⟨attr, createdAtOf ns nextRev attr.key, nextRev⟩

def produced (ns : Namespace w) (nextRev : Ident.Revision w) (attrs : List Rinq.Attr) :
    List (Attrmeta.Attr w) :=
  (withPrefixes attrs).filterMap fun step =>
    if Changes ns step.1 step.2 then some (written ns nextRev step.2) else none

/-- The entry for `key` after the steps: the one the last changing step wrote, or the
namespace's. -/
def afterSteps (ns : Namespace w) (nextRev : Ident.Revision w) (attrs : List Rinq.Attr)
    (key : String) : Option (Attrmeta.Attr w) :=
  if ChangedBy ns attrs key then
    some (written ns nextRev ⟨key, (workingView ns attrs key).1, (workingView ns attrs key).2⟩)
  else ns.lookup key

/-- What the loop has built after the steps `done`, from the diff `start`. -/
structure LoopInv (ns : Namespace w) (nextRev : Ident.Revision w) (start : Diff w)
    (done : List Rinq.Attr) (nextAttrs : Namespace w) (diff : Diff w) : Prop where
  lookup : ∀ key, nextAttrs.lookup key = afterSteps ns nextRev done key
  diff : diff = { start with entries := start.entries ++ produced ns nextRev done }

/-! ## The steps, one proposal at a time -/

@[simp] theorem withPrefixes_nil : withPrefixes [] = [] := rfl

theorem withPrefixes_append (done more : List Rinq.Attr) :
    withPrefixes (done ++ more) =
      withPrefixes done ++ (withPrefixes more).map fun step => (done ++ step.1, step.2) := by
  induction done with
  | nil => simp
  | cons first done ih => simp [withPrefixes, ih, Function.comp_def]

theorem withPrefixes_append_singleton (done : List Rinq.Attr) (attr : Rinq.Attr) :
    withPrefixes (done ++ [attr]) = withPrefixes done ++ [(done, attr)] := by
  simp [withPrefixes_append, withPrefixes]

@[simp] theorem workingView_nil (ns : Namespace w) (key : String) :
    workingView ns [] key = view ns key := rfl

theorem workingView_append_singleton (ns : Namespace w) (done : List Rinq.Attr)
    (attr : Rinq.Attr) (key : String) :
    workingView ns (done ++ [attr]) key =
      if attr.key = key then (attr.value, attr.isFrozen) else workingView ns done key := by
  simp only [workingView, List.foldl_append, List.foldl_cons, List.foldl_nil]

theorem conflict_append_singleton (ns : Namespace w) (done : List Rinq.Attr) (attr : Rinq.Attr) :
    Conflict ns (done ++ [attr]) ↔
      Conflict ns done ∨ (Changes ns done attr ∧ (workingView ns done attr.key).2 = true) := by
  simp [Conflict, withPrefixes_append_singleton, or_and_right, exists_or]

theorem conflict_append {ns : Namespace w} {done : List Rinq.Attr} (more : List Rinq.Attr)
    (conflict : Conflict ns done) : Conflict ns (done ++ more) := by
  obtain ⟨step, mem, found⟩ := conflict
  exact ⟨step, by simp [withPrefixes_append, mem], found⟩

theorem changedBy_append_singleton (ns : Namespace w) (done : List Rinq.Attr) (attr : Rinq.Attr)
    (key : String) :
    ChangedBy ns (done ++ [attr]) key ↔
      ChangedBy ns done key ∨ (attr.key = key ∧ Changes ns done attr) := by
  simp [ChangedBy, withPrefixes_append_singleton, or_and_right, exists_or]

theorem produced_append_singleton (ns : Namespace w) (nextRev : Ident.Revision w)
    (done : List Rinq.Attr) (attr : Rinq.Attr) :
    produced ns nextRev (done ++ [attr]) =
      produced ns nextRev done ++
        if Changes ns done attr then [written ns nextRev attr] else [] := by
  simp only [produced, withPrefixes_append_singleton, List.filterMap_append, List.filterMap_cons,
    List.filterMap_nil]
  split <;> simp_all

theorem workingView_of_not_changedBy (ns : Namespace w) (done : List Rinq.Attr) (key : String)
    (unchanged : ¬ChangedBy ns done key) : workingView ns done key = view ns key := by
  induction done using List.reverseRecOn with
  | nil => rfl
  | append_singleton done attr ih =>
    rw [changedBy_append_singleton, not_or, not_and] at unchanged
    rw [workingView_append_singleton, ← ih unchanged.1]
    split
    · next same => exact (not_not.mp (unchanged.2 same)).trans (by rw [same])
    · rfl

theorem afterSteps_nil (ns : Namespace w) (nextRev : Ident.Revision w) (key : String) :
    afterSteps ns nextRev [] key = ns.lookup key := by
  simp [afterSteps, ChangedBy]

theorem afterSteps_append_singleton (ns : Namespace w) (nextRev : Ident.Revision w)
    (done : List Rinq.Attr) (attr : Rinq.Attr) (key : String) :
    afterSteps ns nextRev (done ++ [attr]) key =
      if attr.key = key ∧ Changes ns done attr then some (written ns nextRev attr)
      else afterSteps ns nextRev done key := by
  by_cases same : attr.key = key
  · subst same
    by_cases changes : Changes ns done attr
    · simp [afterSteps, changedBy_append_singleton, changes, workingView_append_singleton]
    · have kept : (attr.value, attr.isFrozen) = workingView ns done attr.key := not_not.mp changes
      simp [afterSteps, changedBy_append_singleton, workingView_append_singleton, changes, ← kept]
  · simp [afterSteps, changedBy_append_singleton, same, workingView_append_singleton]

/-- The loop's working map agrees with `afterSteps`, so its entries show the working view. -/
theorem view_of_lookup_afterSteps {ns nextAttrs : Namespace w} {nextRev : Ident.Revision w}
    {done : List Rinq.Attr} {key : String}
    (agrees : nextAttrs.lookup key = afterSteps ns nextRev done key) :
    view nextAttrs key = workingView ns done key := by
  unfold afterSteps at agrees
  split at agrees
  · simp [view, Namespace.get_of_lookup_some agrees, written]
  · next unchanged =>
    rw [workingView_of_not_changedBy ns done key unchanged]
    simp only [view, Namespace.get, agrees]

theorem createdAt_of_lookup_afterSteps {ns nextAttrs : Namespace w} {nextRev : Ident.Revision w}
    {done : List Rinq.Attr} {key : String}
    (agrees : nextAttrs.lookup key = afterSteps ns nextRev done key) :
    (if (nextAttrs.get key).2 then (nextAttrs.get key).1.createdAt else nextRev) =
      createdAtOf ns nextRev key := by
  unfold afterSteps at agrees
  split at agrees
  · simp [Namespace.get_of_lookup_some agrees, written]
  · simp only [Namespace.get, createdAtOf, agrees, ← Finmap.lookup_isSome]
    cases ns.lookup key <;> rfl

/-! ## The loop against the steps -/

section Step

variable {ns nextAttrs : Namespace w} {nextRev : Ident.Revision w} {start diff : Diff w}
  {done : List Rinq.Attr} {attr : Rinq.Attr}

theorem LoopInv.skip (inv : LoopInv ns nextRev start done nextAttrs diff)
    (same : ¬Changes ns done attr) : LoopInv ns nextRev start (done ++ [attr]) nextAttrs diff :=
  ⟨fun key => by simp [afterSteps_append_singleton, same, inv.lookup key],
    by simp [produced_append_singleton, same, inv.diff]⟩

theorem LoopInv.write (inv : LoopInv ns nextRev start done nextAttrs diff)
    (changes : Changes ns done attr) :
    LoopInv ns nextRev start (done ++ [attr])
      (nextAttrs.insert attr.key (written ns nextRev attr))
      (diff.append (written ns nextRev attr)) := by
  refine ⟨fun key => ?_,
    by simp [produced_append_singleton, changes, inv.diff, Attrmeta.Diff.append]⟩
  by_cases same : attr.key = key
  · subst same
    simp [afterSteps_append_singleton, changes]
  · simp [afterSteps_append_singleton, same, Finmap.lookup_insert_of_ne _ (Ne.symm same),
      inv.lookup key]

end Step

/-- From a map and diff that agree with the steps `done`, the loop aborts exactly when a later
step conflicts, and otherwise ends agreeing with all the steps. -/
theorem updateLoop_spec {ns : Namespace w} (ref : Ident.Ref w) {nextRev : Ident.Revision w}
    {start : Diff w} (attrs : List Rinq.Attr) {done : List Rinq.Attr} {nextAttrs : Namespace w}
    {diff : Diff w} (inv : LoopInv ns nextRev start done nextAttrs diff)
    (clean : ¬Conflict ns done) :
    (updateLoop ref nextRev nextAttrs diff attrs = .error (.frozenAttributes ref []) ∧
        Conflict ns (done ++ attrs)) ∨
      ∃ nextAttrs' diff', updateLoop ref nextRev nextAttrs diff attrs = .ok (nextAttrs', diff') ∧
        LoopInv ns nextRev start (done ++ attrs) nextAttrs' diff' ∧
          ¬Conflict ns (done ++ attrs) := by
  induction attrs generalizing done nextAttrs diff with
  | nil => exact .inr ⟨nextAttrs, diff, rfl, by simpa using inv, by simpa using clean⟩
  | cons attr attrs ih =>
    have seen := view_of_lookup_afterSteps (inv.lookup attr.key)
    have later : done ++ attr :: attrs = done ++ [attr] ++ attrs := by simp
    simp only [view] at seen
    simp only [updateLoop]
    rw [later]
    by_cases skip : attr.value = (nextAttrs.get attr.key).1.attr.value ∧
        attr.isFrozen = (nextAttrs.get attr.key).1.attr.isFrozen
    · rw [if_pos skip]
      have same : ¬Changes ns done attr := by simp [Changes, ← seen, skip.1, skip.2]
      exact ih (inv.skip same) (by simp [conflict_append_singleton, clean, same])
    · rw [if_neg skip]
      have changes : Changes ns done attr := by
        simp only [Changes, ← seen, ne_eq, Prod.mk.injEq]
        exact skip
      by_cases frozen : (nextAttrs.get attr.key).1.attr.isFrozen = true
      · rw [if_pos frozen]
        refine .inl ⟨rfl, conflict_append attrs ?_⟩
        exact (conflict_append_singleton ns done attr).mpr
          (.inr ⟨changes, by rw [← seen]; exact frozen⟩)
      · rw [if_neg frozen]
        have entry : ({ (nextAttrs.get attr.key).1 with
            attr := attr, updatedAt := nextRev
            createdAt := if (nextAttrs.get attr.key).2 then (nextAttrs.get attr.key).1.createdAt
              else nextRev } : Attrmeta.Attr w) = written ns nextRev attr := by
          simp only [written, createdAt_of_lookup_afterSteps (inv.lookup attr.key)]
        rw [entry]
        exact ih (inv.write changes) (by simp [conflict_append_singleton, clean, ← seen, frozen])

end Rinq.Localsession
