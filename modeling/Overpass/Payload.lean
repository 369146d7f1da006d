import Mathlib.Data.Finset.Card

set_option autoImplicit false

/- The rinq `Payload`: handles that share one `payloadData`, counted by `refCount`, whose buffer
goes back to the pool when the count reaches zero. `Clone` and `Close` hold the write mutex, and
`Bytes` and `Value` hold the read mutex and then the write mutex for their writes, so the calls
on the handles of one `payloadData` are sequences of whole calls. -/
namespace Rinq

/-- `payloadData`. The buffer is its bytes, `none` for nil; the value is `none` for nil; the
`uint` reference count is `w` bits wide (32 or 64 by platform). -/
structure PayloadData (w : Nat) (α : Type) where
  buffer : Option (List UInt8)
  value : Option α
  hasValue : Bool
  refCount : BitVec w
  deriving DecidableEq

/-- The handles of one `payloadData`: handle `i` is the `i`-th `*Payload` made for it (0 by
`NewPayload` or `NewPayloadFromBytes`, the next one by each `Clone`), and `live` holds those
whose `data` is not nil. `puts` counts the calls of `bufferpool.Put` with the buffer. -/
structure Handles (w : Nat) (α : Type) where
  data : PayloadData w α
  count : Nat
  live : Finset Nat
  puts : Nat
  deriving DecidableEq

/-- The CBOR codec: `cbor.MustEncode`, and `cbor.MustDecodeBytes`, which panics (`none`) on
bytes that do not decode. -/
structure Codec (α : Type) where
  encode : Option α → List UInt8
  decode : List UInt8 → Option (Option α)

/-- Why a call panicked: `Value` dereferenced a nil buffer, or the bytes did not decode. -/
inductive Panic where
  | nilBuffer
  | decode
  deriving DecidableEq

variable {w : Nat} {α : Type}

def Handles.first (data : PayloadData w α) : Handles w α := ⟨data, 1, {0}, 0⟩

/-- `NewPayload`: nil for a nil value (a nil interface or a nil pointer alike). -/
def newPayload : Option α → Option (Handles w α)
  | none => none
  | some v => some (.first ⟨none, some v, true, 1⟩)

/-- `NewPayloadFromBytes`: nil for an empty slice; the buffer owns the bytes. -/
def newPayloadFromBytes (buf : List UInt8) : Option (Handles w α) :=
  if buf.length = 0 then none else some (.first ⟨some buf, none, false, 1⟩)

namespace Handles

variable (codec : Codec α)

def clone (h : Handles w α) (p : Nat) : Option Nat × Handles w α :=
  if p ∉ h.live then (none, h)
  else
    (some h.count,
      { h with
        data := { h.data with refCount := h.data.refCount + 1 }
        count := h.count + 1
        live := insert h.count h.live })

def bytes (h : Handles w α) (p : Nat) : Option (List UInt8) × Handles w α :=
  if p ∉ h.live then (none, h)
  else match h.data.buffer with
    | some buf => (some buf, h)
    | none => (some (codec.encode h.data.value),
        { h with data := { h.data with buffer := some (codec.encode h.data.value) } })

def value (h : Handles w α) (p : Nat) : Except Panic (Option α) × Handles w α :=
  if p ∉ h.live then (.ok none, h)
  else if h.data.hasValue then (.ok h.data.value, h)
  else match h.data.buffer with
    | none => (.error .nilBuffer, h)
    | some buf => match codec.decode buf with
      | none => (.error .decode, h)
      | some v => (.ok v, { h with data := { h.data with value := v, hasValue := true } })

/-- `Payload.Close`: nothing on a closed handle, else one reference less, and the buffer back to
the pool when the count is then zero. `puts` counts the calls of `bufferpool.Put`; as in Go,
`data.buffer` still points at the buffer afterwards, and what the pool does with it is not
modelled. -/
def close (h : Handles w α) (p : Nat) : Handles w α :=
  if p ∉ h.live then h
  else
    { h with
      data := { h.data with refCount := h.data.refCount - 1 }
      live := h.live.erase p
      puts := if h.data.refCount - 1 = 0 ∧ h.data.buffer.isSome then h.puts + 1 else h.puts }

end Handles

inductive PayloadCall where
  | clone (p : Nat)
  | close (p : Nat)
  | bytes (p : Nat)
  | value (p : Nat)
  deriving DecidableEq

inductive PayloadReply (α : Type) where
  | clone (p : Option Nat)
  | close
  | bytes (buf : Option (List UInt8))
  | value (result : Except Panic (Option α))

namespace Handles

variable (codec : Codec α)

def step (h : Handles w α) : PayloadCall → PayloadReply α × Handles w α
  | .clone p => (.clone (h.clone p).1, (h.clone p).2)
  | .close p => (.close, h.close p)
  | .bytes p => (.bytes (h.bytes codec p).1, (h.bytes codec p).2)
  | .value p => (.value (h.value codec p).1, (h.value codec p).2)

def run (h : Handles w α) : List PayloadCall → List (PayloadReply α) × Handles w α
  | [] => ([], h)
  | call :: calls => ((h.step codec call).1 :: ((h.step codec call).2.run calls).1,
      ((h.step codec call).2.run calls).2)

@[simp] theorem run_nil (h : Handles w α) : h.run codec [] = ([], h) := rfl

@[simp] theorem run_cons (h : Handles w α) (call : PayloadCall) (calls : List PayloadCall) :
    h.run codec (call :: calls) =
      ((h.step codec call).1 :: ((h.step codec call).2.run codec calls).1,
      ((h.step codec call).2.run codec calls).2) := rfl

theorem run_append (h : Handles w α) (calls more : List PayloadCall) :
    (h.run codec (calls ++ more)).2 = ((h.run codec calls).2.run codec more).2 := by
  induction calls generalizing h with
  | nil => rfl
  | cons call calls ih => exact ih _

end Handles

/-- The handles of a `payloadData` made by `NewPayload` or `NewPayloadFromBytes`, after any
calls on any of its handles. -/
inductive Handles.Reachable (codec : Codec α) : Handles w α → Prop
  | newPayload (v : Option α) {h : Handles w α} : newPayload v = some h → Reachable codec h
  | newPayloadFromBytes (buf : List UInt8) {h : Handles w α} :
      newPayloadFromBytes buf = some h → Reachable codec h
  | step {h : Handles w α} (call : PayloadCall) : Reachable codec h →
      Reachable codec (h.step codec call).2

end Rinq
