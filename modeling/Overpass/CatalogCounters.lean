import Overpass.CatalogInvariant

set_option autoImplicit false

namespace Rinq.Localsession

open Attrmeta (Namespace Diff)

variable {w : Nat}

def Reply.isCommit : Reply w → Bool
  | .update (.ok _) => true
  | _ => false

def commits (replies : List (Reply w)) : Nat := replies.countP Reply.isCommit

@[simp] theorem commits_nil : commits ([] : List (Reply w)) = 0 := rfl

@[simp] theorem commits_cons (reply : Reply w) (replies : List (Reply w)) :
    commits (reply :: replies) = commits replies + if reply.isCommit then 1 else 0 :=
  List.countP_cons _ _ _

def Call.updateRef? : Call w → Option (Ident.Ref w)
  | .tryUpdate passed _ _ | .tryClear passed _ _ => some passed
  | _ => none

/-- The refs the successful `TryUpdate` and `TryClear` calls passed, in order. -/
def committedRefs : List (Call w) → List (Reply w) → List (Ident.Ref w)
  | call :: calls, reply :: replies =>
    (if reply.isCommit then call.updateRef?.toList else []) ++ committedRefs calls replies
  | _, _ => []

theorem BitVec.ofNat_two_pow (w : Nat) : BitVec.ofNat w (2 ^ w) = 0 :=
  BitVec.eq_of_toNat_eq (by simp)

namespace Catalog

theorem update_ref (c : Catalog w) (ref : Ident.Ref w) (ns : String)
    (loop : Ident.Revision w → Except (Error w) (Namespace w × Diff w)) :
    (c.update ref ns loop).2.ref =
      if (c.update ref ns loop).1.isOk then { c.ref with rev := c.ref.rev + 1 } else c.ref := by
  cases closed : c.done
  · by_cases current : ref = c.ref
    · cases success : loop (ref.rev + 1) with
      | error err => simp [update_of_error closed current success, Except.isOk, Except.toBool]
      | ok result =>
        obtain ⟨nextAttrs, diff⟩ := result
        rw [update_of_ok closed current success]
        simp [Except.isOk, Except.toBool, current]
    · simp [update_of_stale closed current, Except.isOk, Except.toBool]
  · simp [update_of_done closed, Except.isOk, Except.toBool]

/-- One call advances the revision exactly when it commits, and changes nothing else of the
ref. -/
theorem step_ref (c : Catalog w) (call : Call w) :
    (c.step call).2.ref =
      if (c.step call).1.isCommit then { c.ref with rev := c.ref.rev + 1 } else c.ref := by
  cases call with
  | tryUpdate ref ns attrs =>
    rw [step, tryUpdate, update_ref]
    cases (c.update ref ns _).1 <;> rfl
  | tryClear ref ns visit =>
    rw [step, tryClear, update_ref]
    cases (c.update ref ns _).1 <;> rfl
  | tryDestroy ref =>
    simp only [step, tryDestroy, Reply.isCommit]
    split <;> rfl
  | _ => rfl

/-- Over any run, the revision advances by the number of commits, modulo `2 ^ w`. -/
theorem run_ref (c : Catalog w) (calls : List (Call w)) :
    (c.run calls).2.ref =
      { c.ref with rev := c.ref.rev + BitVec.ofNat w (commits (c.run calls).1) } := by
  induction calls generalizing c with
  | nil => simp
  | cons call calls ih =>
    rw [run_cons, ih, step_ref]
    split <;> simp_all [BitVec.add_assoc, BitVec.ofNat_add_ofNat, Nat.add_comm]

theorem isCommit_update (result : Except (Error w) (Revision w × Diff w)) :
    (Reply.update result).isCommit = result.isOk := by
  cases result <;> rfl

/-! ## Callers that pass the same ref -/

theorem update_of_ne {c : Catalog w} {ref : Ident.Ref w} {ns : String}
    {loop : Ident.Revision w → Except (Error w) (Namespace w × Diff w)} (stale : ref ≠ c.ref) :
    c.update ref ns loop =
      (.error (if c.done then .notFound c.ref.id else .staleUpdate ref), c) := by
  cases closed : c.done
  · exact update_of_stale closed stale
  · exact update_of_done closed

theorem updateRef_of_isCommit (c : Catalog w) {call : Call w}
    (commit : (c.step call).1.isCommit = true) : call.updateRef? = some c.ref := by
  have current : ∀ {ref ns loop}, (c.update ref ns loop).1.isOk = true → ref = c.ref := by
    intro ref ns loop ok
    by_contra stale
    rw [update_of_ne stale] at ok
    cases ok
  cases call with
  | tryUpdate ref ns attrs =>
    exact congrArg some (current (by simpa only [step, isCommit_update] using commit))
  | tryClear ref ns visit =>
    exact congrArg some (current (by simpa only [step, isCommit_update] using commit))
  | tryDestroy ref =>
    simp only [step, tryDestroy] at commit
    split at commit <;> cases commit
  | _ => cases commit

/-- A call that passes some other ref than the current one, or none, commits nothing; a
`TryUpdate` or `TryClear` among them fails with `StaleUpdateError`, or `NotFoundError` once the
catalog is closed. -/
theorem step_of_stale (c : Catalog w) {r : Ident.Ref w} (stale : r ≠ c.ref) {call : Call w}
    (passing : call.updateRef? = none ∨ call.updateRef? = some r) :
    (c.step call).1.isCommit = false ∧ (c.step call).2.ref = c.ref ∧
      ∀ result, (c.step call).1 = .update result →
        result = .error (.staleUpdate r) ∨ result = .error (.notFound c.ref.id) := by
  have none : (c.step call).1.isCommit = false → (c.step call).2.ref = c.ref := fun kept => by
    rw [step_ref, kept, if_neg Bool.false_ne_true]
  cases call with
  | tryUpdate ref ns attrs | tryClear ref ns attrs =>
    obtain rfl : ref = r := by simpa [Call.updateRef?] using passing
    simp only [step, tryUpdate, tryClear, update_of_ne stale]
    refine ⟨rfl, trivial, fun result same => ?_⟩
    cases same
    split <;> simp
  | _ => exact ⟨rfl, none rfl, fun _ => nofun⟩

theorem ref_eq_of_isCommit (c : Catalog w) {call : Call w} {r : Ident.Ref w}
    (commit : (c.step call).1.isCommit = true)
    (passing : call.updateRef? = none ∨ call.updateRef? = some r) : c.ref = r := by
  simpa [updateRef_of_isCommit c commit] using passing

theorem run_of_stale (c : Catalog w) {r : Ident.Ref w} (stale : r ≠ c.ref) (calls : List (Call w))
    (passing : ∀ call ∈ calls, call.updateRef? = none ∨ call.updateRef? = some r) :
    commits (c.run calls).1 = 0 ∧ ∀ result, Reply.update result ∈ (c.run calls).1 →
      result = .error (.staleUpdate r) ∨ result = .error (.notFound c.ref.id) := by
  induction calls generalizing c with
  | nil => exact ⟨rfl, nofun⟩
  | cons call calls ih =>
    obtain ⟨none, kept, failed⟩ := step_of_stale c stale (passing call (.head _))
    obtain ⟨counted, later⟩ :=
      ih (c := (c.step call).2) (kept ▸ stale) fun call mem => passing call (.tail _ mem)
    rw [kept] at later
    refine ⟨by simp [counted, none], fun result mem => ?_⟩
    rcases List.mem_cons.mp mem with first | rest
    · exact failed result first.symm
    · exact later result rest

theorem run_ref_of_commit (c : Catalog w) {r : Ident.Ref w} (calls : List (Call w))
    (passing : ∀ call ∈ calls, call.updateRef? = none ∨ call.updateRef? = some r)
    (once : commits (c.run calls).1 = 1) : (c.run calls).2.ref = { r with rev := r.rev + 1 } := by
  induction calls generalizing c with
  | nil => cases once
  | cons call calls ih =>
    rw [run_cons, commits_cons] at once
    by_cases commit : (c.step call).1.isCommit = true
    · have current := ref_eq_of_isCommit c commit (passing call (.head _))
      rw [if_pos commit] at once
      rw [run_cons, run_ref, show commits ((c.step call).2.run calls).1 = 0 by omega, step_ref,
        if_pos commit, current]
      simp
    · rw [if_neg commit] at once
      exact ih _ (fun call mem => passing call (.tail _ mem)) once

/-- Of calls that all pass one ref `r`, at most one `TryUpdate` or `TryClear` succeeds, and once
one has, every later one fails with `StaleUpdateError`, or `NotFoundError` once the catalog is
closed. -/
theorem at_most_one_success (c : Catalog w) {r : Ident.Ref w} (positive : 0 < w)
    (calls : List (Call w))
    (passing : ∀ call ∈ calls, call.updateRef? = none ∨ call.updateRef? = some r) :
    commits (c.run calls).1 ≤ 1 ∧
      ∀ pre post, calls = pre ++ post → commits (c.run pre).1 = 1 →
        ∀ result, Reply.update result ∈ ((c.run pre).2.run post).1 →
          result = .error (.staleUpdate r) ∨ result = .error (.notFound r.id) := by
  have moved : r ≠ { r with rev := r.rev + 1 } := fun same =>
    Ident.Revision.add_one_ne positive r.rev (congrArg Ident.Ref.rev same).symm
  refine ⟨?_, fun pre post split once result mem => ?_⟩
  · induction calls generalizing c with
    | nil => exact Nat.zero_le _
    | cons call calls ih =>
      have rest : ∀ call ∈ calls, call.updateRef? = none ∨ call.updateRef? = some r :=
        fun call mem => passing call (.tail _ mem)
      rw [run_cons, commits_cons]
      by_cases commit : (c.step call).1.isCommit = true
      · have current := ref_eq_of_isCommit c commit (passing call (.head _))
        have after : r ≠ (c.step call).2.ref := by
          rw [step_ref, if_pos commit, current]
          exact moved
        rw [(run_of_stale _ after calls rest).1, if_pos commit]
      · rw [if_neg commit]
        exact ih _ rest
  · subst split
    have after :=
      run_ref_of_commit c pre (fun call mem => passing call (List.mem_append_left _ mem)) once
    have failed := (run_of_stale _ (after ▸ moved) post
      fun call mem => passing call (List.mem_append_right _ mem)).2 result mem
    rwa [after] at failed

/-- The `i`-th success of a run passes the ref `i` revisions after the catalog's, modulo
`2 ^ w`. -/
theorem run_committedRefs (c : Catalog w) (calls : List (Call w)) :
    committedRefs calls (c.run calls).1 =
      (List.range (commits (c.run calls).1)).map
        fun i => { c.ref with rev := c.ref.rev + BitVec.ofNat w i } := by
  induction calls generalizing c with
  | nil => rfl
  | cons call calls ih =>
    rw [run_cons, committedRefs, ih, commits_cons]
    by_cases commit : (c.step call).1.isCommit = true
    · rw [if_pos commit, if_pos commit, updateRef_of_isCommit c commit, List.range_succ_eq_map,
        step_ref, if_pos commit]
      simp [Function.comp_def, BitVec.add_assoc, BitVec.ofNat_add_ofNat, Nat.add_comm]
    · rw [if_neg commit, if_neg commit, step_ref, if_neg commit]
      rfl

theorem UInt32.add_ofNat_add (a : UInt32) (i j : Nat) :
    a + UInt32.ofNat i + UInt32.ofNat j = a + UInt32.ofNat (i + j) := by
  rw [add_assoc]
  congr 1
  apply UInt32.eq_of_toBitVec_eq
  simp [UInt32.ofNat, UInt32.add_def, BitVec.ofNat_add_ofNat]

/-- `NextMessageID` takes the next sequence number modulo `2 ^ 32`, at the current ref. -/
theorem run_nextMessageID (c : Catalog w) (n : Nat) :
    c.run (List.replicate n .nextMessageID) =
      ((List.range n).map fun i =>
          .messageID (c.ref.message (c.seq + UInt32.ofNat (i + 1))) c.attrs,
        { c with seq := c.seq + UInt32.ofNat n }) := by
  induction n generalizing c with
  | zero =>
    have unchanged : c.seq + UInt32.ofNat 0 = c.seq :=
      UInt32.eq_of_toBitVec_eq (by simp [UInt32.ofNat, UInt32.add_def])
    simp [unchanged]
  | succ n ih =>
    have shift : ∀ i : Nat, c.seq + 1 + UInt32.ofNat i = c.seq + UInt32.ofNat (i + 1) := fun i => by
      rw [show (1 : UInt32) = UInt32.ofNat 1 from rfl, UInt32.add_ofNat_add, Nat.add_comm]
    simp only [List.replicate_succ, run_cons, ih, List.range_succ_eq_map, List.map_cons,
      List.map_map, Function.comp_def]
    simp [step, nextMessageID, shift]

end Catalog

/-- `n` calls `TryUpdate(ref, ns, nil)`, the first with `ref` and each later one with the ref
the call before it committed. -/
def emptyUpdates (ref : Ident.Ref w) (ns : String) : Nat → List (Call w)
  | 0 => []
  | n + 1 => .tryUpdate ref ns [] :: emptyUpdates { ref with rev := ref.rev + 1 } ns n

theorem run_emptyUpdates {c : Catalog w} (running : c.done = false) (ns : String) (n : Nat) :
    commits (c.run (emptyUpdates c.ref ns n)).1 = n ∧
      (c.run (emptyUpdates c.ref ns n)).2.ref = { c.ref with rev := c.ref.rev + BitVec.ofNat w n } ∧
      (c.run (emptyUpdates c.ref ns n)).2.attrs = c.attrs ∧
      (c.run (emptyUpdates c.ref ns n)).2.done = false := by
  induction n generalizing c with
  | zero => simp [emptyUpdates, running]
  | succ n ih =>
    let next := c.commit ns (c.ref.rev + 1) (c.attrs.get ns) (Attrmeta.newDiff ns (c.ref.rev + 1) 0)
    have step : c.step (.tryUpdate c.ref ns []) =
        (.update (.ok (next.head, Attrmeta.newDiff ns (c.ref.rev + 1) 0)), next) := by
      rw [Catalog.step, Catalog.tryUpdate, Catalog.update_of_ok running rfl rfl]
      rfl
    obtain ⟨counted, advanced, kept, stillOpen⟩ := ih (c := next) running
    have unfolded : c.run (emptyUpdates c.ref ns (n + 1)) =
        (.update (.ok (next.head, Attrmeta.newDiff ns (c.ref.rev + 1) 0)) ::
          (next.run (emptyUpdates next.ref ns n)).1,
        (next.run (emptyUpdates next.ref ns n)).2) := by
      rw [emptyUpdates, Catalog.run_cons, step]
      rfl
    rw [unfolded]
    refine ⟨by simp [counted, Reply.isCommit], ?_, ?_, stillOpen⟩
    · rw [advanced]
      simp [next, BitVec.add_assoc, BitVec.ofNat_add_ofNat, Nat.add_comm]
    · rw [kept]
      simp [next, Attrmeta.Diff.isEmpty]

/-- Past `2 ^ w` successful updates the bounds of the next module fail: `ident.Revision` wraps, so
`2 ^ w` successful updates bring a fresh catalog back to its first ref, and an update that passes
that ref then succeeds again. -/
theorem revision_wraps_to_first_ref (id : Ident.SessionID) (ns : String) :
    commits ((newCatalog (w := w) id).run (emptyUpdates (id.at 0) ns (2 ^ w))).1 = 2 ^ w ∧
      ((newCatalog (w := w) id).run (emptyUpdates (id.at 0) ns (2 ^ w))).2.ref = id.at 0 ∧
      (((newCatalog (w := w) id).run (emptyUpdates (id.at 0) ns (2 ^ w))).2.tryUpdate
        (id.at 0) ns []).1.isOk = true := by
  obtain ⟨counted, advanced, -, stillOpen⟩ :=
    run_emptyUpdates (c := newCatalog (w := w) id) rfl ns (2 ^ w)
  simp only [show (newCatalog (w := w) id).ref = id.at 0 from rfl] at counted advanced stillOpen
  have back : ((newCatalog (w := w) id).run (emptyUpdates (id.at 0) ns (2 ^ w))).2.ref =
      id.at 0 := by
    rw [advanced]
    simp [BitVec.ofNat_two_pow, Ident.SessionID.at]
  refine ⟨counted, back, ?_⟩
  rw [Catalog.tryUpdate, Catalog.update_of_ok stillOpen back.symm rfl]
  rfl

/-- The `uint32` sequence number wraps: the `2 ^ 32 + 1`-th `NextMessageID` of a fresh catalog
returns the message ID of the first. -/
theorem message_id_repeats (id : Ident.SessionID) :
    ((newCatalog (w := w) id).run (List.replicate (2 ^ 32 + 1) .nextMessageID)).1[0]? =
        some (.messageID ((id.at 0).message 1) ∅) ∧
      ((newCatalog (w := w) id).run (List.replicate (2 ^ 32 + 1) .nextMessageID)).1[2 ^ 32]? =
        some (.messageID ((id.at 0).message 1) ∅) := by
  have wrapped : UInt32.ofNat (2 ^ 32 + 1) = 1 := by decide
  rw [Catalog.run_nextMessageID]
  simp [List.getElem?_range, newCatalog, wrapped]

/-- After the revision wraps, an entry written at revision 1 has an `UpdatedAt` above the
catalog's revision. -/
theorem updatedAt_above_wrapped_revision (id : Ident.SessionID) (positive : 0 < w) :
    (((newCatalog (w := w) id).run (.tryUpdate (id.at 0) "ns" [Rinq.set "a" "1"] ::
        emptyUpdates (id.at 1) "ns" (2 ^ w - 1))).2.attrs.get "ns").lookup "a" =
        some ⟨Rinq.set "a" "1", 1, 1⟩ ∧
      ((newCatalog (w := w) id).run (.tryUpdate (id.at 0) "ns" [Rinq.set "a" "1"] ::
        emptyUpdates (id.at 1) "ns" (2 ^ w - 1))).2.ref.rev = 0 ∧
      ((newCatalog (w := w) id).run (.tryUpdate (id.at 0) "ns" [Rinq.set "a" "1"] ::
        emptyUpdates (id.at 1) "ns" (2 ^ w - 1))).2.ref.rev < 1 := by
  have clean : ¬Conflict ((newCatalog (w := w) id).attrs.get "ns") [Rinq.set "a" "1"] := by
    simp [Conflict, withPrefixes, Changes, workingView, view, Namespace.get, newCatalog, Rinq.set]
  obtain ⟨nextAttrs, diff, _, first⟩ :=
    Catalog.tryUpdate_of_clean (c := newCatalog (w := w) id) rfl rfl clean
  have stored := Catalog.tryUpdate_lookup (c := newCatalog (w := w) id) rfl rfl clean "a"
  rw [first] at stored
  simp only [show (newCatalog (w := w) id).ref = id.at 0 from rfl, Ident.SessionID.at_rev]
    at first stored
  obtain ⟨-, advanced, kept, -⟩ := run_emptyUpdates (c := ((newCatalog (w := w) id).commit "ns"
    (0 + 1) nextAttrs diff)) rfl "ns" (2 ^ w - 1)
  have fromOne : ∀ c : Catalog w, c.ref = id.at (0 + 1) → emptyUpdates (id.at 1) "ns" (2 ^ w - 1) =
      emptyUpdates c.ref "ns" (2 ^ w - 1) := fun c at1 => by rw [at1, zero_add]
  rw [Catalog.run_cons, Catalog.step, first, fromOne (((newCatalog (w := w) id).commit "ns" (0 + 1)
    nextAttrs diff)) rfl, advanced, kept, stored]
  have wrap : 1 + BitVec.ofNat w (2 ^ w - 1) = 0 := by
    rw [show (1 : BitVec w) = BitVec.ofNat w 1 from rfl, BitVec.ofNat_add_ofNat,
      Nat.add_sub_cancel' Nat.one_le_two_pow, BitVec.ofNat_two_pow]
  simp only [Catalog.commit_ref, zero_add]
  refine ⟨?_, wrap, ?_⟩
  · simp [afterSteps, ChangedBy, withPrefixes, Changes, workingView, view, Namespace.get, written,
      createdAtOf, newCatalog, Rinq.set, Finmap.not_mem_empty]
  · rw [wrap, show (0 : BitVec w) = BitVec.ofNat w 0 from rfl,
      show (1 : BitVec w) = BitVec.ofNat w 1 from rfl, BitVec.ofNat_lt_ofNat,
      Nat.mod_eq_of_lt (Nat.one_lt_two_pow (Nat.pos_iff_ne_zero.mp positive))]
    simp

end Rinq.Localsession
