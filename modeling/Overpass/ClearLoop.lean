import Overpass.CatalogUpdate

set_option autoImplicit false

namespace Rinq.Localsession

open Attrmeta (Namespace Diff)

variable {w : Nat}

/-- Every entry of the namespace is stored under its own `Key`. -/
def KeysMatch (ns : Namespace w) : Prop :=
  ∀ key entry, ns.lookup key = some entry → entry.attr.key = key

/-- The proposals `TryClear` amounts to: `Set(key, "")` for each visited entry with a value. -/
def clearProposals (visit : List (Σ _ : String, Attrmeta.Attr w)) : List Rinq.Attr :=
  (visit.filter fun entry => entry.2.attr.value ≠ "").map fun entry => Rinq.set entry.1 ""

/-- How far the two loops agree after visiting `seen`: the visited keys hold the same entries
in both maps, the map `TryClear` builds holds nothing else, and the working copy of
`TryUpdate` keeps the rest of the namespace. -/
structure ClearRel (ns : Namespace w) (seen : List (Σ _ : String, Attrmeta.Attr w))
    (rebuilt working : Namespace w) : Prop where
  visited : ∀ key, key ∈ seen.keys → working.lookup key = rebuilt.lookup key
  unvisited : ∀ key, key ∉ seen.keys →
    working.lookup key = ns.lookup key ∧ rebuilt.lookup key = none

theorem mem_keys_append_singleton {seen : List (Σ _ : String, Attrmeta.Attr w)} {key other : String}
    {entry : Attrmeta.Attr w} :
    other ∈ (seen ++ [(⟨key, entry⟩ : Σ _ : String, Attrmeta.Attr w)]).keys ↔
      other ∈ seen.keys ∨ other = key := by
  simp [List.keys]

theorem ClearRel.visit {ns : Namespace w} {seen : List (Σ _ : String, Attrmeta.Attr w)}
    {rebuilt working working' : Namespace w} (rel : ClearRel ns seen rebuilt working)
    {key : String} {entry stored : Attrmeta.Attr w}
    (same : working'.lookup key = some stored)
    (others : ∀ other, other ≠ key → working'.lookup other = working.lookup other) :
    ClearRel ns (seen ++ [⟨key, entry⟩]) (rebuilt.insert key stored) working' := by
  constructor
  · intro other visited
    by_cases here : other = key
    · subst here
      rw [same, Finmap.lookup_insert]
    · have earlier : other ∈ seen.keys := (mem_keys_append_singleton.mp visited).resolve_right here
      rw [others other here, rel.visited other earlier, Finmap.lookup_insert_of_ne _ here]
  · intro other unvisited
    have apart : other ≠ key := fun here => unvisited (mem_keys_append_singleton.mpr (.inr here))
    have earlier : other ∉ seen.keys :=
      fun mem => unvisited (mem_keys_append_singleton.mpr (.inl mem))
    rw [others other apart, Finmap.lookup_insert_of_ne _ apart]
    exact rel.unvisited other earlier

/-- Step by step, `TryClear`'s loop over `rest` and `TryUpdate`'s loop over the proposals it
amounts to abort together, or end holding the same entries for the keys visited so far. -/
theorem clearLoop_simulates {ns : Namespace w} (keys : KeysMatch ns) (ref : Ident.Ref w)
    (nextRev : Ident.Revision w) (rest : List (Σ _ : String, Attrmeta.Attr w))
    {seen : List (Σ _ : String, Attrmeta.Attr w)} {rebuilt working : Namespace w} {diff : Diff w}
    (rel : ClearRel ns seen rebuilt working)
    (stored : ∀ entry ∈ rest, ns.lookup entry.1 = some entry.2)
    (fresh : ∀ entry ∈ rest, entry.1 ∉ seen.keys) (nodup : rest.NodupKeys) :
    (clearLoop ref nextRev rebuilt diff rest = .error (.frozenAttributes ref []) ∧
        updateLoop ref nextRev working diff (clearProposals rest) =
          .error (.frozenAttributes ref [])) ∨
      ∃ rebuilt' working' diff', clearLoop ref nextRev rebuilt diff rest = .ok (rebuilt', diff') ∧
        updateLoop ref nextRev working diff (clearProposals rest) = .ok (working', diff') ∧
        ClearRel ns (seen ++ rest) rebuilt' working' := by
  induction rest generalizing seen rebuilt working diff with
  | nil => exact .inr ⟨rebuilt, working, diff, rfl, rfl, by simpa using rel⟩
  | cons first rest ih =>
    obtain ⟨key, entry⟩ := first
    have found : ns.lookup key = some entry := stored _ (List.mem_cons_self _ _)
    have own : entry.attr.key = key := keys key entry found
    have current : working.lookup key = some entry :=
      (rel.unvisited key (fresh _ (List.mem_cons_self _ _))).1.trans found
    rw [List.nodupKeys_cons] at nodup
    have notLater : key ∉ rest.keys := nodup.1
    have fresh' : ∀ later ∈ rest,
        later.1 ∉ (seen ++ [(⟨key, entry⟩ : Σ _ : String, Attrmeta.Attr w)]).keys :=
        fun later mem visited => by
      have apart : later.1 ≠ key := fun same => notLater (same ▸ List.mem_keys_of_mem mem)
      exact (mem_keys_append_singleton.mp visited).elim (fresh later (List.mem_cons_of_mem _ mem))
        apart
    have later : seen ++ ⟨key, entry⟩ :: rest = seen ++ [⟨key, entry⟩] ++ rest := by simp
    rw [later]
    by_cases empty : entry.attr.value = ""
    · have skipped : clearProposals (⟨key, entry⟩ :: rest) = clearProposals rest := by
        simp [clearProposals, empty]
      simp only [clearLoop, skipped, empty, ne_eq, not_true_eq_false, if_false, own]
      exact ih (rel.visit current fun _ _ => rfl)
        (fun e mem => stored e (List.mem_cons_of_mem _ mem))
        fresh' nodup.2
    · have proposed :
          clearProposals (⟨key, entry⟩ :: rest) = Rinq.set key "" :: clearProposals rest := by
        simp [clearProposals, empty]
      have differs : ¬("" = entry.attr.value ∧ false = entry.attr.isFrozen) :=
        fun both => empty both.1.symm
      simp only [clearLoop, proposed, updateLoop, Namespace.get_of_lookup_some current, empty,
        ne_eq, not_false_eq_true, if_true, Rinq.set, differs, if_false]
      split
      · exact .inl ⟨rfl, rfl⟩
      · next thawed =>
        obtain ⟨⟨key', value, frozen⟩, created, updated⟩ := entry
        simp only at own thawed
        subst own
        simp only [Bool.not_eq_true] at thawed
        subst thawed
        exact ih
          (rel.visit (Finmap.lookup_insert _) fun _ apart => Finmap.lookup_insert_of_ne _ apart)
          (fun e mem => stored e (List.mem_cons_of_mem _ mem)) fresh' nodup.2

namespace Enumerates

variable {ns : Namespace w} {visit : List (Σ _ : String, Attrmeta.Attr w)}

theorem lookup (enumerates : Enumerates ns visit) {entry : Σ _ : String, Attrmeta.Attr w}
    (mem : entry ∈ visit) : ns.lookup entry.1 = some entry.2 :=
  Finmap.lookup_eq_some_iff.mpr (enumerates ▸ Multiset.mem_coe.mpr mem)

theorem nodupKeys (enumerates : Enumerates ns visit) : visit.NodupKeys := by
  have nodup := ns.nodupKeys
  rwa [← enumerates, Multiset.coe_nodupKeys] at nodup

theorem mem_keys (enumerates : Enumerates ns visit) {key : String} :
    key ∈ visit.keys ↔ key ∈ ns := by
  rw [Finmap.mem_def, ← enumerates, Multiset.coe_keys, Multiset.mem_coe]

end Enumerates

/-- Over an enumeration of a namespace whose entries sit under their own keys, `TryClear`'s
loop is `TryUpdate`'s loop over the proposals it amounts to. -/
theorem clearLoop_eq_updateLoop {ns : Namespace w} (keys : KeysMatch ns)
    {visit : List (Σ _ : String, Attrmeta.Attr w)} (enumerates : Enumerates ns visit)
    (ref : Ident.Ref w) (nextRev : Ident.Revision w) (diff : Diff w) :
    clearLoop ref nextRev ∅ diff visit = updateLoop ref nextRev ns diff (clearProposals visit) := by
  have start : ClearRel ns [] ∅ ns :=
    ⟨fun _ none => absurd none (List.not_mem_nil _), fun _ _ => ⟨rfl, Finmap.lookup_empty _⟩⟩
  obtain ⟨cleared, updated⟩ | ⟨rebuilt, working, _, cleared, updated, rel⟩ :=
    clearLoop_simulates keys ref nextRev visit start (fun _ => enumerates.lookup)
      (fun _ _ => List.not_mem_nil _) enumerates.nodupKeys
  · rw [cleared, updated]
  · rw [List.nil_append] at rel
    have same : rebuilt = working := Finmap.ext_lookup fun key => by
      by_cases visited : key ∈ visit.keys
      · exact (rel.visited key visited).symm
      · obtain ⟨kept, none⟩ := rel.unvisited key visited
        rw [none, kept, Finmap.lookup_eq_none.mpr (enumerates.mem_keys.not.mp visited)]
    rw [cleared, updated, same]

/-- `TryClear` is `TryUpdate` with one `Set(key, "")` per visited entry with a value, when every
entry of the namespace sits under its own key and `range` visits each entry once. -/
theorem Catalog.tryClear_eq_tryUpdate {c : Catalog w} {ns : String}
    (keys : KeysMatch (c.attrs.get ns)) {visit : List (Σ _ : String, Attrmeta.Attr w)}
    (enumerates : Enumerates (c.attrs.get ns) visit) (ref : Ident.Ref w) :
    c.tryClear ref ns visit = c.tryUpdate ref ns (clearProposals visit) := by
  unfold Catalog.tryClear Catalog.tryUpdate
  congr 1
  funext nextRev
  exact clearLoop_eq_updateLoop keys enumerates ref nextRev _

end Rinq.Localsession
