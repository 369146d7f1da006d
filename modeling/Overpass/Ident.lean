import Mathlib.Data.UInt

set_option autoImplicit false

/- Identifiers of the `ident` package: peers, sessions, session-refs and message IDs.
The declaration of `ident.Revision` is not part of the sources; it is a fixed-width unsigned
integer, so its width `w` is a parameter of every definition that holds a revision. -/
namespace Rinq.Ident

structure PeerID where
  clock : UInt64
  rand : UInt16
  deriving DecidableEq, Repr

structure SessionID where
  peer : PeerID
  seq : UInt32
  deriving DecidableEq, Repr

/-- `ident.Revision`, an unsigned integer of `w` bits: `+ 1` wraps at `2 ^ w`. -/
abbrev Revision (w : Nat) := BitVec w

/-- `ident.Ref`: a session at one revision. Go compares refs field by field. -/
structure Ref (w : Nat) where
  id : SessionID
  rev : Revision w
  deriving DecidableEq, Repr

structure MessageID (w : Nat) where
  ref : Ref w
  seq : UInt32
  deriving DecidableEq, Repr

variable {w : Nat}

def SessionID.at (id : SessionID) (rev : Revision w) : Ref w := ⟨id, rev⟩

def Ref.message (ref : Ref w) (seq : UInt32) : MessageID w := ⟨ref, seq⟩

@[simp] theorem SessionID.at_id (id : SessionID) (rev : Revision w) : (id.at rev).id = id := rfl

@[simp] theorem SessionID.at_rev (id : SessionID) (rev : Revision w) : (id.at rev).rev = rev := rfl

@[simp] theorem Ref.message_ref (ref : Ref w) (seq : UInt32) : (ref.message seq).ref = ref := rfl

@[simp] theorem Ref.message_seq (ref : Ref w) (seq : UInt32) : (ref.message seq).seq = seq := rfl

theorem Revision.toNat_add_one_le (rev : Revision w) : (rev + 1).toNat ≤ rev.toNat + 1 := by
  rw [BitVec.toNat_add]
  exact (Nat.mod_le _ _).trans (Nat.add_le_add_left (Nat.mod_le 1 _) _)

/-- Below the top, `+ 1` on a revision adds one. -/
theorem Revision.toNat_add_one {rev : Revision w} (room : rev.toNat + 1 < 2 ^ w) :
    (rev + 1).toNat = rev.toNat + 1 := by
  have one : 1 < 2 ^ w := by omega
  rw [BitVec.toNat_add, show (1 : BitVec w) = BitVec.ofNat w 1 from rfl, BitVec.toNat_ofNat,
    Nat.mod_eq_of_lt one, Nat.mod_eq_of_lt room]

theorem Revision.add_one_ne (positive : 0 < w) (rev : Revision w) : rev + 1 ≠ rev := fun same => by
  have sum := congrArg BitVec.toNat same
  have two := Nat.one_lt_two_pow (Nat.pos_iff_ne_zero.mp positive)
  rw [BitVec.toNat_add, show (1 : BitVec w) = BitVec.ofNat w 1 from rfl, BitVec.toNat_ofNat,
    Nat.mod_eq_of_lt two] at sum
  rcases Nat.lt_or_ge (rev.toNat + 1) (2 ^ w) with room | top
  · rw [Nat.mod_eq_of_lt room] at sum
    omega
  · have full : rev.toNat + 1 = 2 ^ w := le_antisymm (by have := rev.isLt; omega) top
    rw [full, Nat.mod_self] at sum
    omega

end Rinq.Ident
