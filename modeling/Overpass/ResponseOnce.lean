import Overpass.Response
import Mathlib.Order.Basic

set_option autoImplicit false

namespace Rinq.Commandamqp.Response

variable {π : Type} {r : Response π}

/-- What a closed response answers: `Done`, `Error` and `Fail` panic, `Close` returns false,
`finalize` returns true, and the queries say it is closed and needs no reply. -/
def afterClose : Call π → Reply
  | .done _ => .done (.error (.value "responder is already closed"))
  | .error _ => .error (.error (.value "responder is already closed"))
  | .fail _ _ => .fail (.error (.value "responder is already closed"))
  | .close => .close (.ok false)
  | .finalize => .finalize true
  | .isRequired => .isRequired false
  | .isClosed => .isClosed true

theorem step_of_isClosed (closed : r.isClosed = true) (world : World) (call : Call π) :
    r.step world call = (afterClose call, r) := by
  cases call <;>
    simp [step, done, error, fail, close, finalize, isRequired, closed, afterClose, Except.map]

/-- `respond` closes the response, counts one run, and publishes at most once. -/
theorem respond_spec (r : Response π) (world : World) (msg : List (Packed π)) :
    (r.respond world msg).2.isClosed = true ∧ (r.respond world msg).2.responds = r.responds + 1 ∧
      (r.respond world msg).2.published.length ≤ r.published.length + 1 := by
  unfold respond
  dsimp only
  by_cases none : r.replyMode = .replyNone
  · rw [if_pos none]; simp
  rw [if_neg none]
  by_cases late : world.deadlinePassed
  · rw [if_pos late]; simp
  rw [if_neg late]
  by_cases lost : world.getFails
  · rw [if_pos lost]; simp
  rw [if_neg lost]
  by_cases noSpan : r.replyMode = .replyUncorrelated ∧ world.spanContextFails
  · rw [if_pos noSpan]; simp
  rw [if_neg noSpan]
  exact ⟨rfl, rfl, by simp⟩

theorem step_of_not_terminal {call : Call π} (query : ¬call.Terminal) (world : World) :
    (r.step world call).2 = r := by
  cases call <;> simp_all [Call.Terminal, step]

/-- On an open response, a call that ends it closes it, running `respond` once or not at all. -/
theorem step_of_terminal (opened : r.isClosed = false) {call : Call π} (terminal : call.Terminal)
    (world : World) :
    (r.step world call).2.isClosed = true ∧
      ((r.step world call).2.responds = r.responds ∧ (r.step world call).2.published = r.published ∨
        (r.step world call).2.responds = r.responds + 1 ∧
          (r.step world call).2.published.length ≤ r.published.length + 1) := by
  cases call with
  | done payload =>
    obtain ⟨closed, counted, sent⟩ := respond_spec r world [.successResponse payload]
    simp only [step, done, opened, Bool.false_eq_true, if_false]
    exact ⟨closed, .inr ⟨counted, sent⟩⟩
  | error err =>
    obtain ⟨closed, counted, sent⟩ := respond_spec r world [.errorResponse err]
    simp only [step, error, opened, Bool.false_eq_true, if_false]
    exact ⟨closed, .inr ⟨counted, sent⟩⟩
  | fail type message =>
    obtain ⟨closed, counted, sent⟩ := respond_spec r world [.errorResponse (.failure type message)]
    simp only [step, fail, error, opened, Bool.false_eq_true, if_false]
    exact ⟨closed, .inr ⟨counted, sent⟩⟩
  | close =>
    obtain ⟨closed, counted, sent⟩ := respond_spec r world [.successResponse none]
    simp only [step, close, opened, Bool.false_eq_true, if_false]
    exact ⟨closed, .inr ⟨counted, sent⟩⟩
  | finalize => simp [step, finalize, opened]
  | isRequired | isClosed => exact absurd terminal id

theorem isClosed_step (r : Response π) (world : World) (call : Call π) :
    (r.step world call).2.isClosed = true ↔ r.isClosed = true ∨ call.Terminal := by
  cases closed : r.isClosed
  · by_cases terminal : call.Terminal
    · simp [(step_of_terminal closed terminal world).1, terminal]
    · simp [step_of_not_terminal terminal, closed, terminal]
  · simp [step_of_isClosed closed, closed]

/-- Until the response is closed nothing has been sent; `respond` runs at most once, and
`channel.Publish` only inside it. -/
structure Inv (r : Response π) : Prop where
  unused : r.isClosed = false → r.responds = 0 ∧ r.published = []
  once : r.responds ≤ 1
  publishes : r.published.length ≤ r.responds

theorem Inv.step (inv : r.Inv) (world : World) (call : Call π) : (r.step world call).2.Inv := by
  cases closed : r.isClosed
  · by_cases terminal : call.Terminal
    · obtain ⟨responds, published⟩ := inv.unused closed
      obtain ⟨closed', same | ⟨counted, sent⟩⟩ := step_of_terminal closed terminal world
      · exact ⟨fun open' => absurd closed' (by simp [open']), by omega,
          by simp [same.1, same.2, responds, published]⟩
      · refine ⟨fun open' => absurd closed' (by simp [open']), by omega, ?_⟩
        rw [published] at sent
        simp only [List.length_nil] at sent
        omega
    · rwa [step_of_not_terminal terminal]
  · rwa [step_of_isClosed closed]

/-- Over any calls, the invariant holds, and the response is closed exactly when it was or one
of the calls ended it. -/
theorem Inv.run (inv : r.Inv) (calls : List (World × Call π)) :
    (r.run calls).2.Inv ∧
      ((r.run calls).2.isClosed = true ↔ r.isClosed = true ∨ ∃ call ∈ calls, call.2.Terminal) := by
  induction calls generalizing r with
  | nil => simpa using inv
  | cons call calls ih =>
    obtain ⟨inv', closed⟩ := ih (inv.step call.1 call.2)
    refine ⟨inv', ?_⟩
    rw [run_cons, closed, isClosed_step]
    simp [or_assoc]

/-- `respond`, and so `channel.Publish`, runs at most once over any calls of `Done`, `Error`,
`Fail`, `Close` and `finalize`. Once one of them has run, every later call answers as
`afterClose` says and changes nothing; `finalize` returns false only as the first of them. -/
theorem respond_at_most_once (request : Request) (replyMode : ReplyMode)
    (calls : List (World × Call π)) :
    ((newResponse request replyMode).run calls).2.responds ≤ 1 ∧
      ((newResponse request replyMode).run calls).2.published.length ≤ 1 ∧
      ((∃ call ∈ calls, call.2.Terminal) → ∀ world call,
        ((newResponse request replyMode).run calls).2.step world call =
          (afterClose call, ((newResponse request replyMode).run calls).2)) ∧
      ∀ world, (((newResponse request replyMode).run calls).2.step world .finalize).1 =
          .finalize false ↔ ¬∃ call ∈ calls, call.2.Terminal := by
  have fresh : (newResponse request replyMode : Response π).Inv :=
    ⟨fun _ => ⟨rfl, rfl⟩, Nat.zero_le _, Nat.le_refl _⟩
  obtain ⟨inv, closed⟩ := fresh.run calls
  simp only [show (newResponse request replyMode : Response π).isClosed = false from rfl,
    Bool.false_eq_true, false_or] at closed
  refine ⟨inv.once, Nat.le_trans inv.publishes inv.once,
    fun ended => step_of_isClosed (closed.mpr ended),
    fun world => ?_⟩
  by_cases ended : ∃ call ∈ calls, call.2.Terminal
  · simp [step_of_isClosed (closed.mpr ended), afterClose, ended]
  · have opened : ((newResponse request replyMode).run calls).2.isClosed = false := by
      simpa using mt closed.mp ended
    simp [step, finalize, opened, ended]

end Rinq.Commandamqp.Response
