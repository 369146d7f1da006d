import Overpass.LocalsessionUpdate
import Overpass.MessageIssuer

set_option autoImplicit false

namespace Overpass.Localsession

variable {w : Nat}

def Reply.isCommit : Reply w → Bool
  | .update (.ok _) _ => true
  | _ => false

def commits (replies : List (Reply w)) : Nat := replies.countP Reply.isCommit

@[simp] theorem commits_nil : commits ([] : List (Reply w)) = 0 := rfl

@[simp] theorem commits_cons (reply : Reply w) (replies : List (Reply w)) :
    commits (reply :: replies) = commits replies + if reply.isCommit then 1 else 0 :=
  List.countP_cons _ _ _

def Reply.isClosing : Reply w → Bool
  | .tryClose (.ok true) => true
  | _ => false

def closings (replies : List (Reply w)) : Nat := replies.countP Reply.isClosing

@[simp] theorem closings_nil : closings ([] : List (Reply w)) = 0 := rfl

@[simp] theorem closings_cons (reply : Reply w) (replies : List (Reply w)) :
    closings (reply :: replies) = closings replies + if reply.isClosing then 1 else 0 :=
  List.countP_cons _ _ _

def Reply.messageID? : Reply w → Option (Rinq.Ident.MessageID w)
  | .messageID id => some id
  | _ => none

def messageIDs (replies : List (Reply w)) : List (Rinq.Ident.MessageID w) :=
  replies.filterMap Reply.messageID?

@[simp] theorem messageIDs_cons (reply : Reply w) (replies : List (Reply w)) :
    messageIDs (reply :: replies) = reply.messageID?.toList ++ messageIDs replies := by
  cases reply <;> rfl

def Reply.tick : Reply w → Rinq.Ident.Tick
  | .messageID _ => .issue
  | .update (.ok _) _ => .commit
  | _ => .keep

theorem count_commit_ticks (replies : List (Reply w)) :
    (replies.map Reply.tick).count .commit = commits replies :=
  Rinq.Ident.Issuer.count_map _ _ (fun reply => by
    cases reply with
    | update result => cases result <;> simp [Reply.isCommit, Reply.tick]
    | _ => simp [Reply.isCommit, Reply.tick]) replies

theorem count_issue_ticks (replies : List (Reply w)) :
    (replies.map Reply.tick).count .issue = (messageIDs replies).length := by
  rw [messageIDs, List.length_filterMap_eq_countP]
  exact Rinq.Ident.Issuer.count_map _ _ (fun reply => by
    cases reply with
    | update result => cases result <;> simp [Reply.messageID?, Reply.tick]
    | _ => simp [Reply.messageID?, Reply.tick]) replies

namespace Catalog

variable {c : Catalog w} {ref : Rinq.Ident.Ref w} {attrs : List Rinq.Attr} {diff : Option Writer}

theorem step_ref (c : Catalog w) (call : Call w) :
    (c.step call).2.ref =
      if (c.step call).1.isCommit then { c.ref with rev := c.ref.rev + 1 } else c.ref := by
  cases call with
  | tryUpdate ref attrs diff =>
    cases result : (c.tryUpdate ref attrs diff).1 with
    | error err => simp [step, Reply.isCommit, result, tryUpdate_of_error result]
    | ok rev =>
      obtain ⟨-, current, -, advanced, committed⟩ := tryUpdate_of_ok result
      subst current
      simp [step, Reply.isCommit, result, committed, advanced]
  | tryClose ref =>
    simp only [step, Reply.isCommit, tryClose, Bool.false_eq_true, if_false]
    split_ifs <;> rfl
  | ref | nextMessageID | head | «at» | attrs | close => rfl

/-- Over any run, the revision advances by the number of successful updates, modulo `2 ^ w`. -/
theorem run_ref_eq_commits (c : Catalog w) (calls : List (Call w)) :
    (c.run calls).2.ref =
      { c.ref with rev := c.ref.rev + BitVec.ofNat w (commits (c.run calls).1) } := by
  induction calls generalizing c with
  | nil => simp
  | cons call calls ih =>
    rw [run_cons, ih, step_ref]
    split <;> simp_all [BitVec.add_assoc, BitVec.ofNat_add_ofNat, Nat.add_comm]

/-! ## A closed catalog -/

theorem tryUpdate_of_isClosed (closed : c.isClosed = true) :
    c.tryUpdate ref attrs diff = (.error (.notFound c.ref.id), c, diff) :=
  if_pos closed

theorem step_of_isClosed (closed : c.isClosed = true) (call : Call w) :
    (c.step call).2.isClosed = true ∧ (c.step call).2.ref = c.ref ∧
      (c.step call).2.attrs = c.attrs := by
  cases call with
  | tryUpdate ref attrs diff => simp only [step, tryUpdate_of_isClosed closed, closed, and_self]
  | tryClose ref =>
    simp only [step, tryClose]
    split_ifs <;> exact ⟨closed, rfl, rfl⟩
  | close => exact ⟨rfl, rfl, rfl⟩
  | ref | nextMessageID | head | «at» | attrs => exact ⟨closed, rfl, rfl⟩

/-- Once closed, a catalog stays closed over any calls, and its ref and table never change: every
`TryUpdate` fails with `NotFoundError`. -/
theorem run_of_isClosed (closed : c.isClosed = true) (calls : List (Call w)) :
    (c.run calls).2.isClosed = true ∧ (c.run calls).2.ref = c.ref ∧
      (c.run calls).2.attrs = c.attrs := by
  induction calls generalizing c with
  | nil => exact ⟨closed, rfl, rfl⟩
  | cons call calls ih =>
    obtain ⟨closed', ref', attrs'⟩ := step_of_isClosed closed call
    obtain ⟨stays, sameRef, sameAttrs⟩ := ih closed'
    exact ⟨stays, sameRef.trans ref', sameAttrs.trans attrs'⟩

theorem run_of_isClosed_example :
    let id : Rinq.Ident.SessionID := ⟨⟨1, 0xBAD⟩, 7⟩
    let c : Catalog 64 := (newCatalog id).close
    let calls : List (Call 64) := [.tryUpdate (id.at 0) [Rinq.set "a" "1"] none, .nextMessageID]
    c.isClosed = true ∧ (c.run calls).2.isClosed = true ∧ (c.run calls).2.ref = c.ref ∧
      (c.run calls).2.attrs = c.attrs := by
  intro id c calls
  have closed : c.isClosed = true := rfl
  exact ⟨closed, run_of_isClosed closed calls⟩

/-! ## Closing once -/

theorem tryUpdate_isClosed : (c.tryUpdate ref attrs diff).2.1.isClosed = c.isClosed := by
  cases result : (c.tryUpdate ref attrs diff).1 with
  | error err => rw [tryUpdate_of_error result]
  | ok rev => rw [(tryUpdate_of_ok result).2.2.2.2]

theorem step_closing (c : Catalog w) (call : Call w) :
    (c.step call).1.isClosing.toNat + c.isClosed.toNat ≤ (c.step call).2.isClosed.toNat := by
  cases call with
  | tryUpdate ref attrs diff => simp [step, Reply.isClosing, tryUpdate_isClosed]
  | tryClose ref =>
    by_cases stale : ref ≠ c.ref
    · simp [step, tryClose, stale, Reply.isClosing]
    · cases closed : c.isClosed <;> simp [step, tryClose, stale, closed, Reply.isClosing]
  | close => simp [step, close, Reply.isClosing, Bool.toNat_le]
  | ref | nextMessageID | head | «at» | attrs => simp [step, Reply.isClosing, nextMessageID]

theorem run_closing (c : Catalog w) (calls : List (Call w)) :
    closings (c.run calls).1 + c.isClosed.toNat ≤ (c.run calls).2.isClosed.toNat := by
  induction calls generalizing c with
  | nil => simp
  | cons call calls ih =>
    have first := step_closing c call
    have rest := ih (c.step call).2
    simp only [run_cons, closings_cons]
    cases closing : (c.step call).1.isClosing <;>
      simp only [closing, Bool.toNat_true, Bool.toNat_false, if_true, Bool.false_eq_true, if_false]
        at first ⊢ <;>
      omega

/-- Over any calls on any catalog, at most one `TryClose` returns true, none when the catalog
was already closed, and after one has, the catalog is closed. -/
theorem tryClose_true_at_most_once (c : Catalog w) (calls : List (Call w)) :
    closings (c.run calls).1 ≤ 1 ∧ (c.isClosed = true → closings (c.run calls).1 = 0) ∧
      (closings (c.run calls).1 = 1 → (c.run calls).2.isClosed = true) := by
  have bound := run_closing c calls
  have below := Bool.toNat_le (c.run calls).2.isClosed
  refine ⟨by omega, fun closed => ?_, fun closedIt => ?_⟩
  · rw [closed, Bool.toNat_true] at bound
    omega
  · cases closedAfter : (c.run calls).2.isClosed
    · rw [closedAfter, Bool.toNat_false] at bound
      omega
    · rfl

/-! ## Message IDs -/

def issuer (c : Catalog w) : Rinq.Ident.Issuer w := ⟨c.ref, c.seq⟩

theorem step_issuer (c : Catalog w) (call : Call w) :
    (c.step call).1.messageID? = (c.issuer.tick (c.step call).1.tick).1 ∧
      (c.step call).2.issuer = (c.issuer.tick (c.step call).1.tick).2 := by
  cases call with
  | tryUpdate ref attrs diff =>
    cases result : (c.tryUpdate ref attrs diff).1 with
    | error err => simp only [step, result, tryUpdate_of_error result]; exact ⟨rfl, rfl⟩
    | ok rev =>
      obtain ⟨-, current, -, advanced, committed⟩ := tryUpdate_of_ok result
      subst current
      simp only [step, result, committed, advanced]
      exact ⟨rfl, rfl⟩
  | tryClose ref =>
    simp only [step, tryClose]
    split_ifs <;> exact ⟨rfl, rfl⟩
  | ref | nextMessageID | head | «at» | attrs | close => exact ⟨rfl, rfl⟩

theorem run_issuer (c : Catalog w) (calls : List (Call w)) :
    messageIDs (c.run calls).1 = (c.issuer.run ((c.run calls).1.map Reply.tick)).1 ∧
      (c.run calls).2.issuer = (c.issuer.run ((c.run calls).1.map Reply.tick)).2 := by
  induction calls generalizing c with
  | nil => exact ⟨rfl, rfl⟩
  | cons call calls ih =>
    obtain ⟨returned, moved⟩ := step_issuer c call
    obtain ⟨ids, last⟩ := ih (c.step call).2
    rw [run_cons, List.map_cons, Rinq.Ident.Issuer.run_cons, messageIDs_cons, returned, ids, last,
      moved]
    exact ⟨rfl, rfl⟩

end Catalog

/-- As long as a run from `NewCatalog(id)` commits fewer than `2 ^ w` updates and issues fewer
than `2 ^ 32` message IDs, the message IDs `NextMessageID` returns are of the session `id`,
strictly increase in `(Rev, Seq)`, and so are pairwise distinct. -/
theorem messageIDs_distinct_below_wrap (id : Rinq.Ident.SessionID) (calls : List (Call w))
    (unwrapped : commits ((newCatalog id).run calls).1 < 2 ^ w)
    (fewer : (messageIDs ((newCatalog id).run calls).1).length < 2 ^ 32) :
    (messageIDs ((newCatalog id).run calls).1).Pairwise Rinq.Ident.IssuedBefore ∧
      (messageIDs ((newCatalog id).run calls).1).Nodup ∧
      ∀ issued ∈ messageIDs ((newCatalog id).run calls).1, issued.ref.id = id := by
  rw [← count_commit_ticks] at unwrapped
  rw [← count_issue_ticks] at fewer
  rw [(Catalog.run_issuer (newCatalog id) calls).1]
  exact Rinq.Ident.Issuer.run_increasing id _ unwrapped fewer

theorem messageIDs_distinct_below_wrap_example :
    let id : Rinq.Ident.SessionID := ⟨⟨1, 0xBAD⟩, 7⟩
    let calls : List (Call 64) :=
      [.nextMessageID, .tryUpdate (id.at 0) [Rinq.set "a" "1"] none, .tryClose (id.at 1),
        .nextMessageID, .nextMessageID]
    commits ((newCatalog id).run calls).1 < 2 ^ 64 ∧
      (messageIDs ((newCatalog id).run calls).1).length < 2 ^ 32 ∧
      (messageIDs ((newCatalog id).run calls).1).Pairwise Rinq.Ident.IssuedBefore ∧
      (messageIDs ((newCatalog id).run calls).1).Nodup ∧
      ∀ issued ∈ messageIDs ((newCatalog id).run calls).1, issued.ref.id = id := by
  intro id calls
  have unwrapped : commits ((newCatalog id).run calls).1 < 2 ^ 64 := by decide
  have fewer : (messageIDs ((newCatalog id).run calls).1).length < 2 ^ 32 := by decide
  exact ⟨unwrapped, fewer, messageIDs_distinct_below_wrap id calls unwrapped fewer⟩

/-! ## Revisions of the entries -/

/-- The loop keeps every entry of the working copy within bounds at `nextRev`: an entry it stores
is updated at `nextRev` and created at it or, for a key it had, at the old entry's `CreatedAt`. -/
theorem applyAll_ordered {nextRev : Rinq.Ident.Revision w} (pos : 0 < nextRev)
    {nextAttrs : Rinq.Attrmeta.Namespace w} (ordered : nextAttrs.Ordered nextRev)
    (frozen : List String) (attrs : List Rinq.Attr) :
    (applyAll nextRev nextAttrs frozen attrs).1.Ordered nextRev := by
  induction attrs generalizing nextAttrs frozen with
  | nil => exact ordered
  | cons attr attrs ih =>
    cases proposal : propose nextRev nextAttrs attr with
    | unchanged | frozen =>
      simp only [applyAll, proposal]
      exact ih ordered _
    | store entry =>
      simp only [applyAll, proposal]
      obtain ⟨-, -, updated, replaced, fresh⟩ := propose_eq_store proposal
      refine ih (ordered.insert ?_) _
      rw [updated]
      cases found : nextAttrs.lookup attr.key with
      | none =>
        rw [(fresh found).2]
        exact ⟨pos, BitVec.le_def.mpr le_rfl, BitVec.le_def.mpr le_rfl⟩
      | some old =>
        obtain ⟨created, createdLe, updatedLe⟩ := ordered _ _ found
        rw [(replaced old found).2]
        rw [BitVec.le_def] at createdLe updatedLe
        exact ⟨created, BitVec.le_def.mpr (createdLe.trans updatedLe), BitVec.le_def.mpr le_rfl⟩

namespace Catalog

variable {c : Catalog w}

/-- Every entry of the table was created at a revision above zero, updated no earlier, and
updated no later than the catalog's revision. -/
def Ordered (c : Catalog w) : Prop := c.attrs.Ordered c.ref.rev

theorem Ordered.step (ordered : c.Ordered) (call : Call w)
    (room : (c.step call).1.isCommit = true → c.ref.rev.toNat + 1 < 2 ^ w) :
    (c.step call).2.Ordered := by
  cases call with
  | tryUpdate ref attrs diff =>
    show ((c.tryUpdate ref attrs diff).2.1).Ordered
    cases result : (c.tryUpdate ref attrs diff).1 with
    | error err => rwa [tryUpdate_of_error result]
    | ok rev =>
      obtain ⟨-, current, looped, advanced, committed⟩ := tryUpdate_of_ok result
      subst current
      have next :=
        Rinq.Ident.Revision.toNat_add_one (room (by simp [Catalog.step, Reply.isCommit, result]))
      have applied : rev.attrs = (applyAll (c.ref.rev + 1) c.attrs [] attrs).1 := by
        rcases updateLoop_result (c.ref.rev + 1) c.attrs [] 0 diff attrs with failed | ok
        · rw [looped] at failed
          cases failed
        · rw [looped] at ok
          exact congrArg Prod.fst (Except.ok.inj ok)
      have pos : 0 < c.ref.rev + 1 := by
        rw [BitVec.lt_def, next]
        exact Nat.succ_pos _
      rw [committed, Ordered, advanced, applied]
      exact applyAll_ordered pos (ordered.mono (by rw [next]; exact Nat.le_succ _)) [] attrs
  | tryClose ref =>
    show ((c.tryClose ref).2).Ordered
    unfold tryClose
    split_ifs <;> exact ordered
  | ref | nextMessageID | head | «at» | attrs | close => exact ordered

theorem step_rev_le (c : Catalog w) (call : Call w) :
    (c.step call).2.ref.rev.toNat ≤
      c.ref.rev.toNat + if (c.step call).1.isCommit then 1 else 0 := by
  rw [step_ref]
  split
  · exact Rinq.Ident.Revision.toNat_add_one_le _
  · exact Nat.le_refl _

theorem Ordered.run (ordered : c.Ordered) (calls : List (Call w))
    (room : c.ref.rev.toNat + commits (c.run calls).1 < 2 ^ w) : (c.run calls).2.Ordered := by
  induction calls generalizing c with
  | nil => exact ordered
  | cons call calls ih =>
    rw [run_cons, commits_cons] at room
    have moved := step_rev_le c call
    by_cases commit : (c.step call).1.isCommit = true
    · rw [if_pos commit] at room moved
      exact ih (ordered.step call fun _ => by omega) (by omega)
    · rw [if_neg commit] at room moved
      exact ih (ordered.step call fun committed => absurd committed commit) (by omega)

end Catalog

/-- As long as a run from `NewCatalog` commits fewer than `2 ^ w` updates, every entry of the
table satisfies `0 < CreatedAt ≤ UpdatedAt ≤ Ref().Rev`. -/
theorem attrs_ordered_below_wrap (id : Rinq.Ident.SessionID) (calls : List (Call w))
    (unwrapped : commits ((newCatalog id).run calls).1 < 2 ^ w) :
    ∀ key entry, ((newCatalog id).run calls).2.attrs.lookup key = some entry →
      0 < entry.createdAt ∧ entry.createdAt ≤ entry.updatedAt ∧
        entry.updatedAt ≤ ((newCatalog id).run calls).2.ref.rev :=
  Catalog.Ordered.run (c := newCatalog id) (fun _ _ found => by cases found) calls
    (by simpa [newCatalog] using unwrapped)

theorem attrs_ordered_below_wrap_example :
    let id : Rinq.Ident.SessionID := ⟨⟨1, 0xBAD⟩, 7⟩
    let calls : List (Call 64) :=
      [.tryUpdate (id.at 0) [Rinq.set "a" "1"] none, .nextMessageID,
        .tryUpdate (id.at 1) [Rinq.set "a" "2", Rinq.set "b" "3"] none]
    commits ((newCatalog id).run calls).1 < 2 ^ 64 ∧
      ∀ key entry, ((newCatalog id).run calls).2.attrs.lookup key = some entry →
        0 < entry.createdAt ∧ entry.createdAt ≤ entry.updatedAt ∧
          entry.updatedAt ≤ ((newCatalog id).run calls).2.ref.rev := by
  intro id calls
  have unwrapped : commits ((newCatalog id).run calls).1 < 2 ^ 64 := by decide
  exact ⟨unwrapped, attrs_ordered_below_wrap id calls unwrapped⟩

end Overpass.Localsession
