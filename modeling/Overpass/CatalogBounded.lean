import Overpass.CatalogCounters
import Overpass.MessageIssuer

set_option autoImplicit false

namespace Rinq.Localsession

open Attrmeta (Namespace Diff)
open Ident (IssuedBefore)

variable {w : Nat}

namespace Catalog

/-- Every entry of every namespace was created at a revision above zero, updated no earlier, and
updated no later than the catalog's revision. -/
def Ordered (c : Catalog w) : Prop := ∀ ns, (c.attrs.get ns).Ordered c.ref.rev

variable {c : Catalog w}

theorem Ordered.of_attrs_eq {d : Catalog w} (ordered : c.Ordered) (same : d.attrs = c.attrs)
    (later : c.ref.rev.toNat ≤ d.ref.rev.toNat) : d.Ordered := fun ns => by
  rw [same]
  exact (ordered ns).mono later

/-- A `TryUpdate` that commits below the wrap keeps every entry within bounds: an entry it writes
is updated at the new revision and created at it or, for a key it had, at the entry's old
`CreatedAt`. -/
theorem Ordered.tryUpdate (ordered : c.Ordered) (ref : Ident.Ref w) (ns : String)
    (attrs : List Rinq.Attr) (room : (c.tryUpdate ref ns attrs).1.isOk = true →
      c.ref.rev.toNat + 1 < 2 ^ w) : (c.tryUpdate ref ns attrs).2.Ordered := by
  rcases tryUpdate_state c ref ns attrs with same | ⟨running, current, clean⟩
  · rw [same]
    exact ordered
  obtain ⟨_, _, _, outcome⟩ := tryUpdate_of_clean running current clean
  have next : ((c.tryUpdate ref ns attrs).2.ref.rev).toNat = c.ref.rev.toNat + 1 := by
    rw [outcome, commit_ref, current]
    exact Ident.Revision.toNat_add_one (room (by rw [outcome]; rfl))
  have kept : ∀ {other key entry}, (c.attrs.get other).lookup key = some entry →
      0 < entry.createdAt ∧ entry.createdAt ≤ entry.updatedAt ∧
        entry.updatedAt ≤ (c.tryUpdate ref ns attrs).2.ref.rev := fun found =>
    (ordered.of_attrs_eq (d := { c with ref := (c.tryUpdate ref ns attrs).2.ref }) rfl
      (by rw [next]; exact Nat.le_succ _)) _ _ _ found
  intro other key entry found
  by_cases here : other = ns
  · subst here
    rw [tryUpdate_lookup running current clean, afterSteps] at found
    split at found
    · cases found
      have zero : (0 : BitVec w).toNat = 0 := by simp
      simp only [written, createdAtOf, BitVec.lt_def, BitVec.le_def, zero]
      rw [show ref.rev + 1 = (c.tryUpdate ref other attrs).2.ref.rev by rw [outcome, commit_ref],
        next]
      split
      · next mem =>
        obtain ⟨old, stored⟩ := Finmap.mem_iff.mp mem
        obtain ⟨created, updated, bounded⟩ := ordered other key old stored
        simp only [Namespace.get_of_lookup_some stored, BitVec.lt_def, BitVec.le_def] at *
        omega
      · omega
    · exact kept found
  · rw [Attrmeta.Table.get, tryUpdate_lookup_other ref attrs here, ← Attrmeta.Table.get] at found
    exact kept found

/-- An admissible call on a catalog whose entries sit under their keys keeps every entry within
bounds, as long as a commit does not wrap the revision. -/
theorem Ordered.step (ordered : c.Ordered) (keys : c.KeysMatch) {call : Call w}
    (admissible : call.Admissible c)
    (room : (c.step call).1.isCommit = true → c.ref.rev.toNat + 1 < 2 ^ w) :
    (c.step call).2.Ordered := by
  cases call with
  | tryUpdate ref ns attrs =>
    exact ordered.tryUpdate ref ns attrs fun ok => room (by rw [Catalog.step, isCommit_update, ok])
  | tryClear ref ns visit =>
    have same := tryClear_eq_tryUpdate (keys ns) admissible ref
    simp only [Catalog.step, same, isCommit_update] at room ⊢
    exact ordered.tryUpdate ref ns _ room
  | tryDestroy ref =>
    refine ordered.of_attrs_eq ?_ ?_ <;> simp only [Catalog.step, tryDestroy] <;> split <;> rfl
  | ref | nextMessageID | head | «at» | attrs | attrsIn | close | done =>
    exact ordered.of_attrs_eq rfl le_rfl

theorem step_rev_toNat (c : Catalog w) (call : Call w)
    (room : (c.step call).1.isCommit = true → c.ref.rev.toNat + 1 < 2 ^ w) :
    (c.step call).2.ref.rev.toNat =
      c.ref.rev.toNat + if (c.step call).1.isCommit then 1 else 0 := by
  rw [step_ref]
  split
  · next commit => exact Ident.Revision.toNat_add_one (room commit)
  · rfl

theorem room_cons (c : Catalog w) (call : Call w) (calls : List (Call w))
    (room : c.ref.rev.toNat + commits (c.run (call :: calls)).1 < 2 ^ w) :
    ((c.step call).1.isCommit = true → c.ref.rev.toNat + 1 < 2 ^ w) ∧
      (c.step call).2.ref.rev.toNat + commits ((c.step call).2.run calls).1 < 2 ^ w := by
  rw [run_cons, commits_cons] at room
  have first : (c.step call).1.isCommit = true → c.ref.rev.toNat + 1 < 2 ^ w := fun commit => by
    rw [if_pos commit] at room
    omega
  refine ⟨first, ?_⟩
  rw [step_rev_toNat c call first]
  split <;> simp_all only [if_true, if_false] <;> omega

/-- Over a run that commits fewer updates than the revision has room for, every entry stays
within bounds. -/
theorem Ordered.run (ordered : c.Ordered) (keys : c.KeysMatch) (calls : List (Call w))
    (admissible : Admissible c calls)
    (room : c.ref.rev.toNat + commits (c.run calls).1 < 2 ^ w) : (c.run calls).2.Ordered := by
  induction calls generalizing c with
  | nil => exact ordered
  | cons call calls ih =>
    obtain ⟨first, rest⟩ := room_cons c call calls room
    exact ih (ordered.step keys admissible.1 first) (keysMatch_step keys admissible.1)
      admissible.2 rest

end Catalog

/-! ## Message IDs -/

def Reply.messageID? : Reply w → Option (Ident.MessageID w)
  | .messageID id _ => some id
  | _ => none

def messageIDs (replies : List (Reply w)) : List (Ident.MessageID w) :=
  replies.filterMap Reply.messageID?

@[simp] theorem messageIDs_nil : messageIDs ([] : List (Reply w)) = [] := rfl

@[simp] theorem messageIDs_cons (reply : Reply w) (replies : List (Reply w)) :
    messageIDs (reply :: replies) = reply.messageID?.toList ++ messageIDs replies := by
  cases reply <;> rfl

/-- What a call did to the counters message IDs are made from. -/
def Reply.tick : Reply w → Ident.Tick
  | .messageID _ _ => .issue
  | .update (.ok _) => .commit
  | _ => .keep

theorem count_commit_ticks (replies : List (Reply w)) :
    (replies.map Reply.tick).count .commit = commits replies :=
  Ident.Issuer.count_map _ _ (fun reply => by
    cases reply with
    | update result => cases result <;> simp [Reply.isCommit, Reply.tick]
    | _ => simp [Reply.isCommit, Reply.tick]) replies

theorem count_issue_ticks (replies : List (Reply w)) :
    (replies.map Reply.tick).count .issue = (messageIDs replies).length := by
  rw [messageIDs, List.length_filterMap_eq_countP]
  exact Ident.Issuer.count_map _ _ (fun reply => by
    cases reply with
    | update result => cases result <;> simp [Reply.messageID?, Reply.tick]
    | _ => simp [Reply.messageID?, Reply.tick]) replies

namespace Catalog

def issuer (c : Catalog w) : Ident.Issuer w := ⟨c.ref, c.seq⟩

theorem update_cases (c : Catalog w) (ref : Ident.Ref w) (ns : String)
    (loop : Ident.Revision w → Except (Error w) (Namespace w × Diff w)) :
    (∃ err, (c.update ref ns loop).1 = .error err ∧ (c.update ref ns loop).2 = c) ∨
      ∃ result nextAttrs diff, (c.update ref ns loop).1 = .ok result ∧
        (c.update ref ns loop).2 = c.commit ns (c.ref.rev + 1) nextAttrs diff := by
  cases closed : c.done
  · by_cases current : ref = c.ref
    · cases success : loop (ref.rev + 1) with
      | error err =>
        rw [update_of_error closed current success]
        exact .inl ⟨err, rfl, rfl⟩
      | ok result =>
        rw [update_of_ok closed current success, current]
        exact .inr ⟨_, result.1, result.2, rfl, rfl⟩
    · rw [update_of_stale closed current]
      exact .inl ⟨_, rfl, rfl⟩
  · rw [update_of_done closed]
    exact .inl ⟨_, rfl, rfl⟩

/-- Each call moves the counters as its reply says: `NextMessageID` issues the ID it returns, a
committed update moves to the next revision, and every other call leaves them. -/
theorem step_issuer (c : Catalog w) (call : Call w) :
    (c.step call).1.messageID? = (c.issuer.tick (c.step call).1.tick).1 ∧
      (c.step call).2.issuer = (c.issuer.tick (c.step call).1.tick).2 := by
  have update : ∀ ref ns loop, (Reply.update (c.update ref ns loop).1).messageID? =
      (c.issuer.tick (Reply.update (c.update ref ns loop).1).tick).1 ∧
      (c.update ref ns loop).2.issuer =
        (c.issuer.tick (Reply.update (c.update ref ns loop).1).tick).2 := fun ref ns loop => by
    rcases update_cases c ref ns loop with ⟨err, failed, same⟩ | ⟨_, _, _, ok, committed⟩
    · rw [failed, same]
      exact ⟨rfl, rfl⟩
    · rw [ok, committed]
      exact ⟨rfl, rfl⟩
  cases call with
  | tryUpdate ref ns attrs => exact update ref ns _
  | tryClear ref ns visit => exact update ref ns _
  | tryDestroy ref =>
    simp only [Catalog.step, tryDestroy]
    split <;> exact ⟨rfl, rfl⟩
  | ref | nextMessageID | head | «at» | attrs | attrsIn | close | done => exact ⟨rfl, rfl⟩

/-- Over any run, the catalog's counters make the moves its replies say, and return its message
IDs. -/
theorem run_issuer (c : Catalog w) (calls : List (Call w)) :
    messageIDs (c.run calls).1 = (c.issuer.run ((c.run calls).1.map Reply.tick)).1 ∧
      (c.run calls).2.issuer = (c.issuer.run ((c.run calls).1.map Reply.tick)).2 := by
  induction calls generalizing c with
  | nil => exact ⟨rfl, rfl⟩
  | cons call calls ih =>
    obtain ⟨returned, moved⟩ := step_issuer c call
    obtain ⟨ids, last⟩ := ih (c.step call).2
    rw [run_cons, List.map_cons, Ident.Issuer.run_cons, messageIDs_cons, returned, ids, last,
      moved]
    exact ⟨rfl, rfl⟩

end Catalog

/-- As long as a run from `NewCatalog(id)` commits fewer than `2 ^ w` updates and issues fewer
than `2 ^ 32` message IDs, the message IDs it issues are of the session `id`, strictly increase in
`(Rev, Seq)`, and so are pairwise distinct. -/
theorem messageIDs_increase_below_wrap (id : Ident.SessionID) (calls : List (Call w))
    (unwrapped : commits ((newCatalog id).run calls).1 < 2 ^ w)
    (fewer : (messageIDs ((newCatalog id).run calls).1).length < 2 ^ 32) :
    (messageIDs ((newCatalog id).run calls).1).Pairwise IssuedBefore ∧
      (messageIDs ((newCatalog id).run calls).1).Nodup ∧
      ∀ issued ∈ messageIDs ((newCatalog id).run calls).1, issued.ref.id = id := by
  rw [← count_commit_ticks] at unwrapped
  rw [← count_issue_ticks] at fewer
  rw [(Catalog.run_issuer (newCatalog id) calls).1]
  exact Ident.Issuer.run_increasing id _ unwrapped fewer

theorem messageIDs_increase_below_wrap_example :
    let id : Ident.SessionID := ⟨⟨1, 0xBAD⟩, 7⟩
    let calls : List (Call 64) :=
      [.nextMessageID, .tryUpdate (id.at 0) "ns" [Rinq.set "a" "1"], .nextMessageID, .nextMessageID]
    commits ((newCatalog id).run calls).1 < 2 ^ 64 ∧
      (messageIDs ((newCatalog id).run calls).1).length < 2 ^ 32 ∧
      (messageIDs ((newCatalog id).run calls).1).Pairwise IssuedBefore ∧
      (messageIDs ((newCatalog id).run calls).1).Nodup ∧
      ∀ issued ∈ messageIDs ((newCatalog id).run calls).1, issued.ref.id = id := by
  intro id calls
  have unwrapped : commits ((newCatalog id).run calls).1 < 2 ^ 64 := by decide
  have fewer : (messageIDs ((newCatalog id).run calls).1).length < 2 ^ 32 := by decide
  exact ⟨unwrapped, fewer, messageIDs_increase_below_wrap id calls unwrapped fewer⟩

/-- As long as a run from `NewCatalog` commits fewer than `2 ^ w` updates, every entry of every
namespace satisfies `0 < CreatedAt ≤ UpdatedAt ≤ Ref().Rev`. -/
theorem entries_ordered_below_wrap (id : Ident.SessionID) (calls : List (Call w))
    (admissible : Admissible (newCatalog id) calls)
    (unwrapped : commits ((newCatalog id).run calls).1 < 2 ^ w) :
    ∀ ns key entry, (((newCatalog id).run calls).2.attrs.get ns).lookup key = some entry →
      0 < entry.createdAt ∧ entry.createdAt ≤ entry.updatedAt ∧
        entry.updatedAt ≤ ((newCatalog id).run calls).2.ref.rev := by
  refine Catalog.Ordered.run (fun ns key entry found => ?_) (Reachable.newCatalog id).keysMatch
    calls admissible (by simpa [newCatalog] using unwrapped)
  simp [newCatalog] at found

theorem entries_ordered_below_wrap_example :
    let id : Ident.SessionID := ⟨⟨1, 0xBAD⟩, 7⟩
    let calls : List (Call 64) := [.tryUpdate (id.at 0) "ns" [Rinq.set "a" "1", Rinq.set "b" "2"],
      .tryUpdate (id.at 1) "ns" [Rinq.set "a" "3"], .tryClear (id.at 2) "other" []]
    Admissible (newCatalog id) calls ∧ commits ((newCatalog id).run calls).1 < 2 ^ 64 ∧
      ∀ ns key entry, (((newCatalog id).run calls).2.attrs.get ns).lookup key = some entry →
        0 < entry.createdAt ∧ entry.createdAt ≤ entry.updatedAt ∧
          entry.updatedAt ≤ ((newCatalog id).run calls).2.ref.rev := by
  intro id calls
  have admissible : Admissible (newCatalog id) calls := by decide
  have unwrapped : commits ((newCatalog id).run calls).1 < 2 ^ 64 := by decide
  exact ⟨admissible, unwrapped, entries_ordered_below_wrap id calls admissible unwrapped⟩

/-- Below the wrap, every entry of every namespace of a catalog reached from `NewCatalog` sits
under its own key and satisfies `1 ≤ CreatedAt ≤ UpdatedAt ≤ Ref().Rev`. -/
theorem entries_keyed_and_ordered (id : Ident.SessionID) (calls : List (Call w))
    (admissible : Admissible (newCatalog id) calls)
    (unwrapped : commits ((newCatalog id).run calls).1 < 2 ^ w) :
    ∀ ns key entry, (((newCatalog id).run calls).2.attrs.get ns).lookup key = some entry →
      entry.attr.key = key ∧ 0 < entry.createdAt ∧ entry.createdAt ≤ entry.updatedAt ∧
        entry.updatedAt ≤ ((newCatalog id).run calls).2.ref.rev := by
  have ordered := Catalog.Ordered.run (fun ns key entry found => by simp [newCatalog] at found)
    (Reachable.newCatalog id).keysMatch calls admissible (by simpa [newCatalog] using unwrapped)
  exact fun ns key entry found => ⟨((Reachable.newCatalog id).run calls admissible).keysMatch ns
    key entry found, ordered ns key entry found⟩

theorem entries_keyed_and_ordered_example :
    let id : Ident.SessionID := ⟨⟨1, 0xBAD⟩, 7⟩
    let calls : List (Call 64) := [.tryUpdate (id.at 0) "ns" [Rinq.set "a" "1"],
      .tryClear (id.at 1) "ns" [⟨"a", ⟨Rinq.set "a" "1", 1, 1⟩⟩],
      .tryUpdate (id.at 2) "ns" [Rinq.set "a" "3"]]
    Admissible (newCatalog id) calls ∧ commits ((newCatalog id).run calls).1 < 2 ^ 64 ∧
      ∀ ns key entry, (((newCatalog id).run calls).2.attrs.get ns).lookup key = some entry →
        entry.attr.key = key ∧ 0 < entry.createdAt ∧ entry.createdAt ≤ entry.updatedAt ∧
          entry.updatedAt ≤ ((newCatalog id).run calls).2.ref.rev := by
  intro id calls
  have admissible : Admissible (newCatalog id) calls := by decide
  have unwrapped : commits ((newCatalog id).run calls).1 < 2 ^ 64 := by decide
  exact ⟨admissible, unwrapped, entries_keyed_and_ordered id calls admissible unwrapped⟩

/-! ## Successful updates below the wrap -/

/-- Below the wrap, the revision of a catalog made by `NewCatalog(id)` counts its successful
updates as a natural number: after `n` of them the catalog is at `id@n`, and the `i`-th passed
`id@i`, so no two passed the same ref. From any catalog, of calls that all pass one ref, at most
one `TryUpdate` or `TryClear` succeeds, and once one has, every later one fails with
`StaleUpdateError`, or `NotFoundError` once the catalog is closed. -/
theorem revision_counts_successes (id : Ident.SessionID) (calls : List (Call w))
    (unwrapped : commits ((newCatalog id).run calls).1 < 2 ^ w) (positive : 0 < w) :
    ((newCatalog id).run calls).2.ref.id = id ∧
      ((newCatalog id).run calls).2.ref.rev.toNat = commits ((newCatalog id).run calls).1 ∧
      committedRefs calls ((newCatalog id).run calls).1 =
        (List.range (commits ((newCatalog id).run calls).1)).map
          (fun i => id.at (BitVec.ofNat w i)) ∧
      (committedRefs calls ((newCatalog id).run calls).1).Nodup ∧
      ∀ (c : Catalog w) (r : Ident.Ref w) (tries : List (Call w)),
        (∀ call ∈ tries, call.updateRef? = none ∨ call.updateRef? = some r) →
        commits (c.run tries).1 ≤ 1 ∧
          ∀ pre post, tries = pre ++ post → commits (c.run pre).1 = 1 →
            ∀ result, Reply.update result ∈ ((c.run pre).2.run post).1 →
              result = .error (.staleUpdate r) ∨ result = .error (.notFound r.id) := by
  have first : ∀ n : Nat, { (id.at 0 : Ident.Ref w) with rev := (id.at 0).rev + BitVec.ofNat w n } =
      id.at (BitVec.ofNat w n) := fun n => by simp [Ident.SessionID.at]
  have final := Catalog.run_ref (newCatalog id) calls
  have refs := Catalog.run_committedRefs (newCatalog id) calls
  rw [show (newCatalog (w := w) id).ref = id.at 0 from rfl] at final refs
  simp only [first] at final refs
  have distinct : ∀ i ∈ List.range (commits ((newCatalog id).run calls).1),
      ∀ j ∈ List.range (commits ((newCatalog id).run calls).1),
        id.at (BitVec.ofNat w i) = id.at (BitVec.ofNat w j) → i = j := by
    intro i below j below' same
    have numbers := congrArg (fun ref : Ident.Ref w => ref.rev.toNat) same
    simp only [Ident.SessionID.at_rev, BitVec.toNat_ofNat] at numbers
    rwa [Nat.mod_eq_of_lt ((List.mem_range.mp below).trans unwrapped),
      Nat.mod_eq_of_lt ((List.mem_range.mp below').trans unwrapped)] at numbers
  refine ⟨by rw [final]; rfl, ?_, refs, ?_, fun c r tries passing =>
    Catalog.at_most_one_success c positive tries passing⟩
  · rw [final, Ident.SessionID.at_rev, BitVec.toNat_ofNat, Nat.mod_eq_of_lt unwrapped]
  · rw [refs]
    exact (List.nodup_range _).map_on distinct

theorem revision_counts_successes_example :
    let id : Ident.SessionID := ⟨⟨1, 0xBAD⟩, 7⟩
    let calls : List (Call 64) := [.tryUpdate (id.at 0) "ns" [Rinq.set "a" "1"],
      .tryUpdate (id.at 0) "ns" [Rinq.set "a" "2"], .nextMessageID]
    commits ((newCatalog id).run calls).1 < 2 ^ 64 ∧ 0 < 64 ∧
      ((newCatalog id).run calls).2.ref.rev.toNat = commits ((newCatalog id).run calls).1 ∧
      (committedRefs calls ((newCatalog id).run calls).1).Nodup ∧
      commits ((newCatalog id).run calls).1 ≤ 1 := by
  intro id calls
  have unwrapped : commits ((newCatalog id).run calls).1 < 2 ^ 64 := by decide
  have passing : ∀ call ∈ calls, call.updateRef? = none ∨ call.updateRef? = some (id.at 0) := by
    decide
  obtain ⟨-, counted, -, distinct, racing⟩ :=
    revision_counts_successes id calls unwrapped (by decide)
  exact ⟨unwrapped, by decide, counted, distinct, (racing _ _ calls passing).1⟩

end Rinq.Localsession
