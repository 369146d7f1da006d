import Overpass.Payload

set_option autoImplicit false

namespace Rinq.Handles

variable {w : Nat} {α : Type} {codec : Codec α} {h : Handles w α} {p : Nat}

theorem ofNat_sub_one {n : Nat} (pos : 0 < n) : BitVec.ofNat w n - 1 = BitVec.ofNat w (n - 1) := by
  obtain ⟨m, rfl⟩ : ∃ m, n = m + 1 := ⟨n - 1, by omega⟩
  rw [BitVec.ofNat_add]
  exact BitVec.add_sub_cancel _ _

/-! ## One call -/

@[simp] theorem clone_of_not_mem (dead : p ∉ h.live) : h.clone p = (none, h) := if_pos dead

@[simp] theorem close_of_not_mem (dead : p ∉ h.live) : h.close p = h := if_pos dead

@[simp] theorem bytes_of_not_mem (codec : Codec α) (dead : p ∉ h.live) :
    h.bytes codec p = (none, h) :=
  if_pos dead

@[simp] theorem value_of_not_mem (codec : Codec α) (dead : p ∉ h.live) :
    h.value codec p = (.ok none, h) :=
  if_pos dead

theorem clone_of_mem (live : p ∈ h.live) :
    h.clone p = (some h.count,
      { h with
        data := { h.data with refCount := h.data.refCount + 1 }
        count := h.count + 1
        live := insert h.count h.live }) :=
  if_neg (not_not.mpr live)

theorem close_of_mem (live : p ∈ h.live) :
    h.close p =
      { h with
        data := { h.data with refCount := h.data.refCount - 1 }
        live := h.live.erase p
        puts := if h.data.refCount - 1 = 0 ∧ h.data.buffer.isSome then h.puts + 1 else h.puts } :=
  if_neg (not_not.mpr live)

/-- `Bytes` and `Value` on a live handle write only the buffer and the value, and only where
they were missing. -/
structure Fills (h h' : Handles w α) : Prop where
  refCount : h'.data.refCount = h.data.refCount
  live : h'.live = h.live
  count : h'.count = h.count
  puts : h'.puts = h.puts
  readable : h.data.hasValue = true ∨ h.data.buffer.isSome = true →
    h'.data.hasValue = true ∨ h'.data.buffer.isSome = true

theorem fills_bytes (codec : Codec α) (h : Handles w α) (p : Nat) :
    Fills h (h.bytes codec p).2 := by
  unfold bytes
  split
  · exact ⟨rfl, rfl, rfl, rfl, id⟩
  · split
    · exact ⟨rfl, rfl, rfl, rfl, id⟩
    · exact ⟨rfl, rfl, rfl, rfl, fun _ => .inr rfl⟩

theorem fills_value (codec : Codec α) (h : Handles w α) (p : Nat) :
    Fills h (h.value codec p).2 := by
  unfold value
  split
  · exact ⟨rfl, rfl, rfl, rfl, id⟩
  split
  · exact ⟨rfl, rfl, rfl, rfl, id⟩
  split
  · exact ⟨rfl, rfl, rfl, rfl, id⟩
  split
  · exact ⟨rfl, rfl, rfl, rfl, id⟩
  · exact ⟨rfl, rfl, rfl, rfl, fun _ => .inl rfl⟩

/-! ## What every call keeps -/

/-- The count is the number of live handles modulo `2 ^ w`, the value or the buffer is there to
read, and only handles already made are live. -/
structure Inv (h : Handles w α) : Prop where
  refCount : h.data.refCount = BitVec.ofNat w h.live.card
  readable : h.data.hasValue = true ∨ h.data.buffer.isSome = true
  made : ∀ q ∈ h.live, q < h.count

theorem Inv.card_le (inv : h.Inv) : h.live.card ≤ h.count := by
  simpa using Finset.card_le_card fun q mem => Finset.mem_range.mpr (inv.made q mem)

theorem Inv.fills {h' : Handles w α} (inv : h.Inv) (fills : Fills h h') : h'.Inv where
  refCount := by rw [fills.refCount, fills.live, inv.refCount]
  readable := fills.readable inv.readable
  made := by rw [fills.live, fills.count]; exact inv.made

theorem Inv.clone (inv : h.Inv) (p : Nat) : (h.clone p).2.Inv := by
  by_cases live : p ∈ h.live
  · have fresh : h.count ∉ h.live := fun mem => (inv.made _ mem).false
    rw [clone_of_mem live]
    refine ⟨?_, inv.readable, fun q mem => ?_⟩
    · show h.data.refCount + 1 = BitVec.ofNat w (insert h.count h.live).card
      rw [Finset.card_insert_of_not_mem fresh, inv.refCount, BitVec.ofNat_add]
      rfl
    · rcases Finset.mem_insert.mp mem with rfl | mem
      · exact Nat.lt_succ_self _
      · exact Nat.lt_succ_of_lt (inv.made q mem)
  · rwa [clone_of_not_mem live]

theorem Inv.close (inv : h.Inv) (p : Nat) : (h.close p).Inv := by
  by_cases live : p ∈ h.live
  · rw [close_of_mem live]
    refine ⟨?_, inv.readable, fun q mem => inv.made q (Finset.mem_of_mem_erase mem)⟩
    show h.data.refCount - 1 = BitVec.ofNat w (h.live.erase p).card
    rw [Finset.card_erase_of_mem live, inv.refCount,
      ofNat_sub_one (Finset.card_pos.mpr ⟨p, live⟩)]
  · rwa [close_of_not_mem live]

/-- What one call can do: nothing, when its handle is closed; on a live handle, clone it,
close it, or fill in the buffer or the value. -/
theorem step_cases (codec : Codec α) (h : Handles w α) (call : PayloadCall) :
    (h.step codec call).2 = h ∨ ∃ p ∈ h.live,
      (h.step codec call).2 = (h.clone p).2 ∨ (h.step codec call).2 = h.close p ∨
        Fills h (h.step codec call).2 := by
  cases call with
  | clone p =>
    by_cases live : p ∈ h.live
    · exact .inr ⟨p, live, .inl rfl⟩
    · exact .inl (by simp [step, live])
  | close p =>
    by_cases live : p ∈ h.live
    · exact .inr ⟨p, live, .inr (.inl rfl)⟩
    · exact .inl (by simp [step, live])
  | bytes p =>
    by_cases live : p ∈ h.live
    · exact .inr ⟨p, live, .inr (.inr (fills_bytes codec h p))⟩
    · exact .inl (by simp [step, live])
  | value p =>
    by_cases live : p ∈ h.live
    · exact .inr ⟨p, live, .inr (.inr (fills_value codec h p))⟩
    · exact .inl (by simp [step, live])

theorem Inv.step (inv : h.Inv) (codec : Codec α) (call : PayloadCall) :
    (h.step codec call).2.Inv := by
  rcases step_cases codec h call with same | ⟨p, -, cloned | closed | fills⟩
  · rwa [same]
  · rw [cloned]; exact inv.clone p
  · rw [closed]; exact inv.close p
  · exact inv.fills fills

theorem eq_first_of_created {h : Handles w α}
    (created : (∃ v, newPayload v = some h) ∨ ∃ buf, newPayloadFromBytes buf = some h) :
    ∃ data : PayloadData w α, h = .first data ∧ data.refCount = 1 ∧
      (data.hasValue = true ∨ data.buffer.isSome = true) := by
  rcases created with ⟨v, created⟩ | ⟨buf, created⟩
  · cases v <;> simp only [newPayload, Option.some.injEq, reduceCtorEq] at created
    exact ⟨_, created.symm, rfl, .inl rfl⟩
  · unfold newPayloadFromBytes at created
    split at created
    · cases created
    · exact ⟨_, (Option.some.inj created).symm, rfl, .inr rfl⟩

theorem Reachable.inv (reachable : h.Reachable codec) : h.Inv := by
  induction reachable with
  | newPayload v created =>
    obtain ⟨data, rfl, counted, readable⟩ := eq_first_of_created (.inl ⟨v, created⟩)
    exact ⟨counted, readable, by simp [first]⟩
  | newPayloadFromBytes buf created =>
    obtain ⟨data, rfl, counted, readable⟩ := eq_first_of_created (.inr ⟨buf, created⟩)
    exact ⟨counted, readable, by simp [first]⟩
  | step call _ inv => exact inv.step codec call

/-- Every call on a handle keeps the invariant: `Value` on a live handle never dereferences a
nil buffer. -/
theorem Reachable.value_ne_nilBuffer (reachable : h.Reachable codec) (p : Nat) :
    (h.value codec p).1 ≠ .error .nilBuffer := by
  unfold value
  split
  · nofun
  split
  · nofun
  next unread =>
  split
  · next none => simpa [unread, none] using reachable.inv.readable
  split <;> nofun

theorem Reachable.value_ne_nilBuffer_example :
    let codec : Codec UInt8 := ⟨Option.toList, fun | [b] => some (some b) | _ => none⟩
    let h : Handles 64 UInt8 := ((Handles.first ⟨some [7], none, false, 1⟩).run codec
      [.clone 0, .value 1, .close 0]).2
    h.Reachable codec ∧ (h.value codec 1).1 ≠ .error .nilBuffer := by
  intro codec h
  have reachable : h.Reachable codec :=
    .step _ (.step _ (.step _ (.newPayloadFromBytes [7] rfl)))
  exact ⟨reachable, Reachable.value_ne_nilBuffer reachable 1⟩

theorem Reachable.run (reachable : h.Reachable codec) (calls : List PayloadCall) :
    (h.run codec calls).2.Reachable codec := by
  induction calls generalizing h with
  | nil => exact reachable
  | cons call calls ih => exact ih (.step call reachable)

/-- While fewer than `2 ^ w` handles have been made, the count is the number of live handles. -/
theorem Reachable.refCount_toNat (reachable : h.Reachable codec) (small : h.count < 2 ^ w) :
    h.data.refCount.toNat = h.live.card := by
  rw [reachable.inv.refCount, BitVec.toNat_ofNat,
    Nat.mod_eq_of_lt (reachable.inv.card_le.trans_lt small)]

theorem Reachable.refCount_toNat_example :
    let codec : Codec UInt8 := ⟨Option.toList, fun | [b] => some (some b) | _ => none⟩
    let h : Handles 64 UInt8 := ((Handles.first ⟨some [7], none, false, 1⟩).run codec
      [.clone 0, .clone 1, .close 0]).2
    h.Reachable codec ∧ h.count < 2 ^ 64 ∧ h.data.refCount.toNat = h.live.card := by
  intro codec h
  have reachable : h.Reachable codec :=
    .step _ (.step _ (.step _ (.newPayloadFromBytes [7] rfl)))
  have small : h.count < 2 ^ 64 := by decide
  exact ⟨reachable, small, Reachable.refCount_toNat reachable small⟩

/-! ## The buffer goes to the pool once -/

/-- A close of a live handle, while at most `2 ^ w` are live, passes the buffer to the pool
exactly when it closes the last one. -/
theorem Inv.puts_close (inv : h.Inv) (live : p ∈ h.live) (small : h.live.card ≤ 2 ^ w) :
    (h.close p).puts = h.puts + if h.live.card = 1 ∧ h.data.buffer.isSome = true then 1 else 0 := by
  have pos := Finset.card_pos.mpr ⟨p, live⟩
  have last : h.data.refCount - 1 = 0 ↔ h.live.card = 1 := by
    rw [inv.refCount, ofNat_sub_one pos, BitVec.toNat_eq]
    simp only [BitVec.toNat_ofNat, Nat.mod_eq_of_lt (show h.live.card - 1 < 2 ^ w by omega),
      BitVec.ofNat_eq_ofNat, Nat.zero_mod]
    omega
  rw [close_of_mem live]
  simp only [last]
  split_ifs <;> rfl

theorem count_le_step (h : Handles w α) (call : PayloadCall) :
    h.count ≤ (h.step codec call).2.count := by
  rcases step_cases codec h call with same | ⟨p, live, cloned | closed | fills⟩
  · rw [same]
  · simp [cloned, clone_of_mem live]
  · simp [closed, close_of_mem live]
  · exact fills.count.ge

theorem puts_eq_zero_of_mem
    (owned : h.puts = if h.live = ∅ ∧ h.data.buffer.isSome = true then 1 else 0)
    (live : p ∈ h.live) : h.puts = 0 := by
  rwa [if_neg fun empty => Finset.ne_empty_of_mem live empty.1] at owned

theorem Reachable.puts_of_count_le (reachable : h.Reachable codec) (small : h.count ≤ 2 ^ w) :
    h.puts = if h.live = ∅ ∧ h.data.buffer.isSome = true then 1 else 0 := by
  induction reachable with
  | newPayload v created =>
    obtain ⟨data, rfl, -⟩ := eq_first_of_created (.inl ⟨v, created⟩)
    simp [first]
  | newPayloadFromBytes buf created =>
    obtain ⟨data, rfl, -⟩ := eq_first_of_created (.inr ⟨buf, created⟩)
    simp [first]
  | @step h call reachable ih =>
    have bounded := (count_le_step h call).trans small
    have owned := ih bounded
    rcases step_cases codec h call with same | ⟨p, live, cloned | closed | fills⟩
    · rwa [same]
    · simp [cloned, clone_of_mem live, puts_eq_zero_of_mem owned live]
    · have inv := reachable.inv
      have gone : h.live.erase p = ∅ ↔ h.live.card = 1 := by
        rw [← Finset.card_eq_zero, Finset.card_erase_of_mem live]
        have := Finset.card_pos.mpr ⟨p, live⟩
        omega
      rw [closed, inv.puts_close live (inv.card_le.trans bounded), puts_eq_zero_of_mem owned live]
      simp [close_of_mem live, gone]
    · rw [fills.puts, fills.live, puts_eq_zero_of_mem owned live,
        if_neg fun empty => Finset.ne_empty_of_mem live empty.1]

/-- While at most `2 ^ w` handles have been made, the pool has had the buffer once when no
handle is live and there is a buffer, and never otherwise: not while a handle is live, and
never twice. -/
theorem Reachable.puts_eq (reachable : h.Reachable codec) (small : h.count ≤ 2 ^ w) :
    h.puts = if h.live = ∅ ∧ h.data.buffer.isSome = true then 1 else 0 :=
  reachable.puts_of_count_le small

theorem Reachable.puts_eq_example :
    let codec : Codec UInt8 := ⟨Option.toList, fun | [b] => some (some b) | _ => none⟩
    let h : Handles 64 UInt8 := ((Handles.first ⟨some [7], none, false, 1⟩).run codec
      [.clone 0, .close 0, .bytes 1, .close 1]).2
    h.Reachable codec ∧ h.count ≤ 2 ^ 64 ∧
      h.puts = if h.live = ∅ ∧ h.data.buffer.isSome = true then 1 else 0 := by
  intro codec h
  have reachable : h.Reachable codec :=
    .step _ (.step _ (.step _ (.step _ (.newPayloadFromBytes [7] rfl))))
  have small : h.count ≤ 2 ^ 64 := by decide
  exact ⟨reachable, small, Reachable.puts_eq reachable small⟩

theorem close_data_buffer (h : Handles w α) (p : Nat) :
    (h.close p).data.buffer = h.data.buffer := by
  unfold close; split <;> rfl

/-- Closing every live handle, in any order, passes the buffer to the pool exactly once, at the
last close, when at most `2 ^ w` handles are live. -/
theorem Inv.run_close_each (codec : Codec α) {hs : List Nat} (nodup : hs.Nodup)
    (nonempty : hs ≠ []) :
    ∀ {h : Handles w α}, h.Inv → (∀ q, q ∈ h.live ↔ q ∈ hs) → hs.length ≤ 2 ^ w →
      h.data.buffer.isSome = true → (h.run codec (hs.map .close)).2.puts = h.puts + 1 := by
  induction hs with
  | nil => exact absurd rfl nonempty
  | cons q rest ih =>
    intro h inv live small buffered
    have card : h.live.card = rest.length + 1 := by
      rw [show h.live = (q :: rest).toFinset from Finset.ext (by simpa using live),
        List.toFinset_card_of_nodup nodup, List.length_cons]
    have open_q : q ∈ h.live := (live q).mpr (List.mem_cons_self q rest)
    have closing := inv.puts_close open_q (card ▸ small)
    rcases rest with _ | ⟨r, rest⟩
    · simp [Handles.step, closing, card, buffered]
    · rw [List.nodup_cons] at nodup
      have live' : ∀ q', q' ∈ (h.close q).live ↔ q' ∈ r :: rest := fun q' => by
        rw [close_of_mem open_q, Finset.mem_erase, live, List.mem_cons]
        exact ⟨fun ⟨apart, mem⟩ => mem.resolve_left apart,
          fun mem => ⟨fun same => nodup.1 (same ▸ mem), .inr mem⟩⟩
      have further := ih nodup.2 (List.cons_ne_nil r rest) (inv.close q) live'
        (by simp only [List.length_cons] at small ⊢; omega) (by rwa [close_data_buffer])
      simp only [List.map_cons, run_cons, Handles.step] at further ⊢
      rw [further, closing, card, if_neg (by simp)]

/-! ## Clones past the width of `uint` -/

theorem run_clones (codec : Codec α) (k : Nat) : ∀ {h : Handles w α}, p ∈ h.live →
    (h.run codec (List.replicate k (.clone p))).2.data =
        { h.data with refCount := h.data.refCount + BitVec.ofNat w k } ∧
      (h.run codec (List.replicate k (.clone p))).2.count = h.count + k ∧
      (∀ q, q ∈ (h.run codec (List.replicate k (.clone p))).2.live ↔
        q ∈ h.live ∨ h.count ≤ q ∧ q < h.count + k) ∧
      (h.run codec (List.replicate k (.clone p))).2.puts = h.puts := by
  induction k with
  | zero => intro h _; simp
  | succ k ih =>
    intro h live
    obtain ⟨data, count, made, puts⟩ := ih (h := (h.clone p).2) (by simp [clone_of_mem live, live])
    simp only [List.replicate_succ, run_cons, Handles.step]
    simp only [clone_of_mem live] at data count made puts ⊢
    refine ⟨by
      rw [data, BitVec.ofNat_add, BitVec.add_comm (BitVec.ofNat w k), BitVec.add_assoc]; rfl,
      by rw [count]; omega, fun q => ?_, puts⟩
    rw [made, Finset.mem_insert]
    by_cases mem : q ∈ h.live <;> simp only [mem, or_true, true_or, or_false, false_or]
    omega

/-- A payload made from bytes and cloned `2 ^ w` times has its count back at 1: closing the
first handle passes the buffer to the pool while `2 ^ w` handles are live and still return it
from `Bytes`, and closing those passes it to the pool a second time. -/
theorem buffer_put_while_live (codec : Codec α) (b : UInt8) (bs : List UInt8) :
    ∃ h : Handles w α, newPayloadFromBytes (b :: bs) = some h ∧
      let wrapped := (h.run codec (List.replicate (2 ^ w) (.clone 0) ++ [.close 0])).2
      wrapped.data.refCount = 0 ∧ wrapped.live.card = 2 ^ w ∧ wrapped.puts = 1 ∧
        (wrapped.step codec (.bytes 1)).1 = .bytes (some (b :: bs)) ∧
        (wrapped.run codec ((List.range' 1 (2 ^ w)).map .close)).2.puts = 2 := by
  let start : Handles w α := .first ⟨some (b :: bs), none, false, 1⟩
  have created : newPayloadFromBytes (b :: bs) = some start := by simp [newPayloadFromBytes, start]
  refine ⟨start, created, ?_⟩
  obtain ⟨data, -, made, puts⟩ :=
    run_clones codec (2 ^ w) (h := start) (p := 0) (Finset.mem_singleton_self 0)
  set cloned := (start.run codec (List.replicate (2 ^ w) (.clone 0))).2
  have wrap : BitVec.ofNat w (2 ^ w) = 0 := by simp [BitVec.toNat_eq]
  have counted : cloned.data.refCount = 1 := by
    rw [data]; exact (congrArg _ wrap).trans (BitVec.add_zero _)
  have buffer : cloned.data.buffer = some (b :: bs) := by rw [data]; rfl
  have live : cloned.live = Finset.range (2 ^ w + 1) := Finset.ext fun q => by
    rw [made, Finset.mem_range, show start.live = {0} from rfl, show start.count = 1 from rfl,
      Finset.mem_singleton]
    have := Nat.two_pow_pos w
    omega
  have open_0 : 0 ∈ cloned.live := by rw [live, Finset.mem_range]; exact Nat.succ_pos _
  have closed : (start.run codec (List.replicate (2 ^ w) (.clone 0) ++ [.close 0])).2 =
      cloned.close 0 := by rw [run_append, run_cons, run_nil]; rfl
  have rest : ∀ q, q ∈ (cloned.close 0).live ↔ q ∈ List.range' 1 (2 ^ w) := fun q => by
    rw [close_of_mem open_0, Finset.mem_erase, live, Finset.mem_range, List.mem_range'_1]
    omega
  have put : (cloned.close 0).puts = 1 := by
    simp [close_of_mem open_0, counted, buffer, puts, show start.puts = 0 from rfl]
  intro wrapped
  simp only [wrapped, closed]
  refine ⟨by simp [close_of_mem open_0, counted], ?_, put, ?_, ?_⟩
  · rw [close_of_mem open_0, Finset.card_erase_of_mem open_0, live, Finset.card_range,
      Nat.add_sub_cancel]
  · have open_1 : 1 ∈ (cloned.close 0).live := (rest 1).mpr (by simp [Nat.two_pow_pos w])
    simp [Handles.step, bytes, open_1, close_data_buffer, buffer]
  · have reachable : (cloned.close 0).Reachable codec := by
      rw [← closed]; exact (Reachable.newPayloadFromBytes _ created).run _
    rw [reachable.inv.run_close_each codec (List.nodup_range' 1 _)
      (by simp [Nat.pos_iff_ne_zero.mp (Nat.two_pow_pos w)]) rest (by simp)
      (by simp [close_data_buffer, buffer]), put]

end Rinq.Handles
