import Overpass.Ident

set_option autoImplicit false

namespace Rinq.Ident

variable {w : Nat}

/-- What one catalog call does to the counters message IDs are made from, in both libraries:
`NextMessageID` issues the next sequence number at the ref, a committed update moves the ref to the
next revision and resets the sequence number, and every other call keeps both. -/
inductive Tick where
  | issue
  | commit
  | keep
  deriving DecidableEq

structure Issuer (w : Nat) where
  ref : Ref w
  seq : UInt32
  deriving DecidableEq

/-- `id` comes before `id'`: at a lower revision, or at the same one with a lower sequence
number. -/
def IssuedBefore (id id' : MessageID w) : Prop :=
  id.ref.rev < id'.ref.rev ∨ id.ref.rev = id'.ref.rev ∧ id.seq < id'.seq

theorem IssuedBefore.ne {id id' : MessageID w} (before : IssuedBefore id id') : id ≠ id' := by
  rintro rfl
  rcases before with earlier | ⟨-, earlier⟩
  · exact Nat.lt_irrefl _ (BitVec.lt_def.mp earlier)
  · exact Nat.lt_irrefl _ earlier

namespace Issuer

def tick (s : Issuer w) : Tick → Option (MessageID w) × Issuer w
  | .issue => (some (s.ref.message (s.seq + 1)), { s with seq := s.seq + 1 })
  | .commit => (none, ⟨{ s.ref with rev := s.ref.rev + 1 }, 0⟩)
  | .keep => (none, s)

@[simp] theorem tick_issue (s : Issuer w) :
    s.tick .issue = (some (s.ref.message (s.seq + 1)), { s with seq := s.seq + 1 }) := rfl

@[simp] theorem tick_commit (s : Issuer w) :
    s.tick .commit = (none, ⟨{ s.ref with rev := s.ref.rev + 1 }, 0⟩) := rfl

@[simp] theorem tick_keep (s : Issuer w) : s.tick .keep = (none, s) := rfl

theorem tick_rev_le (s : Issuer w) (t : Tick) :
    (s.tick t).2.ref.rev.toNat ≤ s.ref.rev.toNat + if t = .commit then 1 else 0 := by
  cases t with
  | commit => exact Revision.toNat_add_one_le s.ref.rev
  | issue | keep => simp

theorem tick_seq_le (s : Issuer w) (t : Tick) :
    (s.tick t).2.seq.toNat ≤ s.seq.toNat + if t = .issue then 1 else 0 := by
  cases t with
  | issue =>
    rw [tick_issue, if_pos rfl, show (s.seq + 1).toNat = (s.seq.toNat + 1) % 2 ^ 32 from rfl]
    exact Nat.mod_le _ _
  | commit | keep => simp

theorem count_cons (t u : Tick) (ts : List Tick) :
    (t :: ts).count u = ts.count u + if t = u then 1 else 0 := by
  simp [List.count_cons]

/-- The `t` moves among the moves of a list of replies are the replies `p` picks, when `p` picks
exactly the replies whose move is `t`. -/
theorem count_map {R : Type} (tick : R → Tick) (t : Tick) {p : R → Bool}
    (picks : ∀ r, p r = true ↔ tick r = t) (rs : List R) : (rs.map tick).count t = rs.countP p := by
  rw [List.count, List.countP_map]
  exact List.countP_congr fun r _ => by simp [picks]

def run (s : Issuer w) : List Tick → List (MessageID w) × Issuer w
  | [] => ([], s)
  | t :: ts => ((s.tick t).1.toList ++ ((s.tick t).2.run ts).1, ((s.tick t).2.run ts).2)

@[simp] theorem run_nil (s : Issuer w) : s.run [] = ([], s) := rfl

@[simp] theorem run_cons (s : Issuer w) (t : Tick) (ts : List Tick) :
    s.run (t :: ts) = ((s.tick t).1.toList ++ ((s.tick t).2.run ts).1, ((s.tick t).2.run ts).2) :=
  rfl

theorem run_ref_id (s : Issuer w) (ts : List Tick) : (s.run ts).2.ref.id = s.ref.id := by
  induction ts generalizing s with
  | nil => rfl
  | cons t ts ih => rw [run_cons, ih]; cases t <;> rfl

/-- Every message ID issued so far is of the counters' session and at most their current
`(Rev, Seq)`. -/
def Issued (s : Issuer w) (ids : List (MessageID w)) : Prop :=
  ∀ id ∈ ids, id.ref.id = s.ref.id ∧
    (id.ref.rev < s.ref.rev ∨ id.ref.rev = s.ref.rev ∧ id.seq ≤ s.seq)

variable {s : Issuer w} {ids : List (MessageID w)}

/-- One move with room left in the counter it advances: the ID it returns, if any, comes after
every one issued before, and all of them stay at most the new counters. -/
theorem Issued.tick (issued : s.Issued ids) (sorted : ids.Pairwise IssuedBefore) (t : Tick)
    (revRoom : t = .commit → s.ref.rev.toNat + 1 < 2 ^ w)
    (seqRoom : t = .issue → s.seq.toNat + 1 < 2 ^ 32) :
    (ids ++ (s.tick t).1.toList).Pairwise IssuedBefore ∧
      (s.tick t).2.Issued (ids ++ (s.tick t).1.toList) := by
  cases t with
  | issue =>
    have next : (s.seq + 1).toNat = s.seq.toNat + 1 := by
      rw [show (s.seq + 1).toNat = (s.seq.toNat + 1) % 2 ^ 32 from rfl,
        Nat.mod_eq_of_lt (seqRoom rfl)]
    refine ⟨List.pairwise_append.mpr ⟨sorted, List.pairwise_singleton _ _, ?_⟩, ?_⟩
    · intro id mem issuedNext fresh
      rw [List.mem_singleton.mp fresh]
      obtain ⟨-, earlier⟩ := issued id mem
      show id.ref.rev < s.ref.rev ∨ id.ref.rev = s.ref.rev ∧ id.seq.toNat < (s.seq + 1).toNat
      rw [next]
      exact earlier.imp_right fun ⟨same, below⟩ => ⟨same, Nat.lt_succ_of_le below⟩
    · intro id mem
      rcases List.mem_append.mp mem with mem | fresh
      · obtain ⟨session, earlier⟩ := issued id mem
        refine ⟨session, earlier.imp_right fun ⟨same, below⟩ => ⟨same, ?_⟩⟩
        show id.seq.toNat ≤ (s.seq + 1).toNat
        rw [next]
        exact Nat.le_succ_of_le below
      · rw [List.mem_singleton.mp fresh]
        exact ⟨rfl, .inr ⟨rfl, Nat.le_refl _⟩⟩
  | commit =>
    have next := Revision.toNat_add_one (revRoom rfl)
    simp only [tick_commit, Option.toList_none, List.append_nil]
    refine ⟨sorted, fun id mem => ?_⟩
    obtain ⟨session, earlier⟩ := issued id mem
    refine ⟨session, .inl ?_⟩
    show id.ref.rev.toNat < (s.ref.rev + 1).toNat
    rw [next]
    rcases earlier with earlier | ⟨same, -⟩
    · exact Nat.lt_succ_of_lt (BitVec.lt_def.mp earlier)
    · rw [same]
      exact Nat.lt_succ_self _
  | keep =>
    simp only [tick_keep, Option.toList_none, List.append_nil]
    exact ⟨sorted, issued⟩

/-- Over moves that commit fewer times than the revision has room for and issue fewer IDs than
the sequence number has room for, every ID comes after all those before it. -/
theorem Issued.run (issued : s.Issued ids) (sorted : ids.Pairwise IssuedBefore) (ts : List Tick)
    (revRoom : s.ref.rev.toNat + ts.count .commit < 2 ^ w)
    (seqRoom : s.seq.toNat + ts.count .issue < 2 ^ 32) :
    (ids ++ (s.run ts).1).Pairwise IssuedBefore ∧ (s.run ts).2.Issued (ids ++ (s.run ts).1) := by
  induction ts generalizing s ids with
  | nil => simpa using ⟨sorted, issued⟩
  | cons t ts ih =>
    rw [count_cons] at revRoom seqRoom
    obtain ⟨sorted', issued'⟩ := issued.tick sorted t
      (fun committed => by subst committed; simp only [if_true] at revRoom; omega)
      (fun issuing => by subst issuing; simp only [if_true] at seqRoom; omega)
    have rev := tick_rev_le s t
    have seq := tick_seq_le s t
    rw [run_cons, ← List.append_assoc]
    exact ih issued' sorted' (by omega) (by omega)

/-- From revision 0 and sequence number 0 of a session, below both wraps, the message IDs strictly
increase in `(Rev, Seq)`, so no two are equal, and all are of the session. -/
theorem run_increasing (id : SessionID) (ts : List Tick) (unwrapped : ts.count .commit < 2 ^ w)
    (fewer : ts.count .issue < 2 ^ 32) :
    ((⟨id.at 0, 0⟩ : Issuer w).run ts).1.Pairwise IssuedBefore ∧
      ((⟨id.at 0, 0⟩ : Issuer w).run ts).1.Nodup ∧
      ∀ issued ∈ ((⟨id.at 0, 0⟩ : Issuer w).run ts).1, issued.ref.id = id := by
  obtain ⟨sorted, issued⟩ := Issued.run (show (⟨id.at 0, 0⟩ : Issuer w).Issued [] from nofun)
    .nil ts (by simpa using unwrapped) (by simpa using fewer)
  rw [List.nil_append] at sorted issued
  refine ⟨sorted, sorted.imp IssuedBefore.ne, fun m mem => ?_⟩
  rw [(issued m mem).1, run_ref_id]
  rfl

end Issuer

end Rinq.Ident
