import Overpass.PayloadRefCount

set_option autoImplicit false

namespace Rinq

variable {w : Nat} {α : Type}

/-- What a payload was made from: a value, by `NewPayload`, or bytes, by `NewPayloadFromBytes`. -/
inductive Origin (α : Type) where
  | value (v : α)
  | bytes (buf : List UInt8)

namespace Origin

variable (codec : Codec α)

def create : Origin α → Option (Handles w α)
  | .value v => newPayload (some v)
  | .bytes buf => newPayloadFromBytes buf

/-- What `Bytes` owes a live handle: the encoding of the value, or the bytes themselves. -/
def encoded : Origin α → List UInt8
  | .value v => codec.encode (some v)
  | .bytes buf => buf

/-- What `Value` owes a live handle: the value, or the decoding of the bytes, which panics when
they do not decode. -/
def decoded : Origin α → Except Panic (Option α)
  | .value v => .ok (some v)
  | .bytes buf => match codec.decode buf with
    | some v => .ok v
    | none => .error .decode

/-- The buffer and the value of a `payloadData` agree with its origin: a value is always there
and a buffer, once made, is its encoding; or the bytes are the buffer and a value, once decoded,
is their decoding. -/
def Cached : Origin α → PayloadData w α → Prop
  | .value v, data => data.hasValue = true ∧ data.value = some v ∧
      ∀ buf ∈ data.buffer, buf = codec.encode (some v)
  | .bytes buf, data => data.buffer = some buf ∧
      (data.hasValue = true → codec.decode buf = some data.value)

variable {codec} {origin : Origin α} {data : PayloadData w α}

theorem Cached.of_eq {data' : PayloadData w α} (cached : origin.Cached codec data)
    (buffer : data'.buffer = data.buffer) (value : data'.value = data.value)
    (hasValue : data'.hasValue = data.hasValue) : origin.Cached codec data' := by
  cases origin <;> simpa only [Cached, buffer, value, hasValue] using cached

theorem create_cached {h : Handles w α} (created : origin.create = some h) :
    origin.Cached codec h.data := by
  cases origin with
  | value v =>
    simp only [create, newPayload, Option.some.injEq] at created
    subst created
    exact ⟨rfl, rfl, nofun⟩
  | bytes buf =>
    simp only [create, newPayloadFromBytes] at created
    split at created
    · cases created
    · simp only [Option.some.injEq] at created
      subst created
      exact ⟨rfl, nofun⟩

end Origin

namespace Handles

variable {codec : Codec α} {origin : Origin α} {h : Handles w α}

theorem bytes_of_cached (cached : origin.Cached codec h.data) {p : Nat} (live : p ∈ h.live) :
    (h.bytes codec p).1 = some (origin.encoded codec) := by
  rw [bytes, if_neg (not_not.mpr live)]
  cases origin with
  | value v =>
    obtain ⟨-, valued, encoded⟩ := cached
    cases buffer : h.data.buffer with
    | none => simp [valued, Origin.encoded]
    | some buf => simpa [Origin.encoded] using encoded buf buffer
  | bytes buf => simp [cached.1, Origin.encoded]

theorem value_of_cached (cached : origin.Cached codec h.data) {p : Nat} (live : p ∈ h.live) :
    (h.value codec p).1 = origin.decoded codec := by
  rw [value, if_neg (not_not.mpr live)]
  cases origin with
  | value v =>
    obtain ⟨read, valued, -⟩ := cached
    simp [read, valued, Origin.decoded]
  | bytes buf =>
    obtain ⟨buffer, decoded⟩ := cached
    cases read : h.data.hasValue
    · simp only [buffer, Origin.decoded, Bool.false_eq_true, if_false]
      cases codec.decode buf <;> rfl
    · simp [decoded read, Origin.decoded]

/-- Every call keeps the cache in agreement with the origin: `Clone` and `Close` leave it, and
`Bytes` and `Value` fill in only the encoding of the value or the decoding of the buffer. -/
theorem cached_step (cached : origin.Cached codec h.data) (call : PayloadCall) :
    origin.Cached codec (h.step codec call).2.data := by
  cases call with
  | clone p =>
    refine cached.of_eq ?_ ?_ ?_ <;> simp only [step, clone] <;> split <;> rfl
  | close p =>
    refine cached.of_eq ?_ ?_ ?_ <;> simp only [step, close] <;> split <;> rfl
  | bytes p =>
    simp only [step, bytes]
    split
    · exact cached
    split
    · exact cached
    · next none =>
      cases origin with
      | value v => exact ⟨cached.1, cached.2.1, by simp [cached.2.1]⟩
      | bytes buf => simp [Origin.Cached, none] at cached
  | value p =>
    simp only [step, value]
    split
    · exact cached
    split
    · exact cached
    next unread =>
    split
    · exact cached
    next buf stored =>
    split
    · exact cached
    next v decoded =>
    cases origin with
    | value v => exact absurd cached.1 unread
    | bytes bytes =>
      obtain ⟨buffer, -⟩ := cached
      rw [stored, Option.some.injEq] at buffer
      exact ⟨stored.trans (congrArg some buffer), fun _ => buffer ▸ decoded⟩

theorem cached_run (cached : origin.Cached codec h.data) (calls : List PayloadCall) :
    origin.Cached codec (h.run codec calls).2.data := by
  induction calls generalizing h with
  | nil => exact cached
  | cons call calls ih => exact ih (cached_step cached call)

end Handles

theorem Origin.reachable {codec : Codec α} {origin : Origin α} {h : Handles w α}
    (created : origin.create = some h) : h.Reachable codec := by
  cases origin with
  | value v => exact .newPayload (some v) created
  | bytes buf => exact .newPayloadFromBytes buf created

/-- While at most `2 ^ w` handles have been made, after any calls on any handles of a payload, the
buffer has not gone back to the pool while a handle is live; `Bytes` on a live handle returns the
bytes the payload was made from, or the encoding of the value it was made from, and `Value`
returns that value, or the decoding of those bytes: the cached results agree with computing them
afresh. -/
theorem cached_bytes_and_value (codec : Codec α) (origin : Origin α) {h : Handles w α}
    (created : origin.create = some h) (calls : List PayloadCall)
    (small : (h.run codec calls).2.count ≤ 2 ^ w) {p : Nat}
    (live : p ∈ (h.run codec calls).2.live) :
    (h.run codec calls).2.puts = 0 ∧
      ((h.run codec calls).2.bytes codec p).1 = some (origin.encoded codec) ∧
      ((h.run codec calls).2.value codec p).1 = origin.decoded codec :=
  have cached := Handles.cached_run (Origin.create_cached created) calls
  ⟨Handles.puts_eq_zero_of_mem ((Origin.reachable created).run calls |>.puts_of_count_le small)
    live, Handles.bytes_of_cached cached live, Handles.value_of_cached cached live⟩

theorem cached_bytes_and_value_example :
    let codec : Codec UInt8 := ⟨Option.toList, fun | [b] => some (some b) | _ => none⟩
    let origin : Origin UInt8 := .bytes [7]
    let h : Handles 64 UInt8 := .first ⟨some [7], none, false, 1⟩
    let calls := [.clone 0, .value 1, .close 0, .bytes 1]
    origin.create = some h ∧ (h.run codec calls).2.count ≤ 2 ^ 64 ∧
      1 ∈ (h.run codec calls).2.live ∧ (h.run codec calls).2.puts = 0 ∧
      ((h.run codec calls).2.bytes codec 1).1 = some (origin.encoded codec) ∧
      ((h.run codec calls).2.value codec 1).1 = origin.decoded codec := by
  intro codec origin h calls
  have created : origin.create = some h := rfl
  have small : (h.run codec calls).2.count ≤ 2 ^ 64 := by decide
  have live : 1 ∈ (h.run codec calls).2.live := by decide
  exact ⟨created, small, live, cached_bytes_and_value codec origin created calls small live⟩

end Rinq
