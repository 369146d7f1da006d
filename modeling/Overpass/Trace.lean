import Mathlib.Logic.Basic

set_option autoImplicit false

namespace Rinq.Amqputil

/-- The properties of an `amqp.Publishing` or an `amqp.Delivery` that the trace functions use.
The broker carries both unchanged, so a delivery is the message as it was published. -/
structure Message where
  messageId : String
  correlationId : String
  deriving DecidableEq

def packTrace (msg : Message) (traceID : String) : Message :=
  if traceID ≠ msg.messageId then { msg with correlationId := traceID } else msg

/-- `UnpackTrace`, by the trace ID of the context it returns: `trace.With` and `trace.Get` are not
in the sources, so a context is modelled by the trace ID it carries. -/
def unpackTrace (msg : Message) : String :=
  if msg.correlationId ≠ "" then msg.correlationId else msg.messageId

/-- A root request, published with no correlation ID, starts the trace of its own message ID. -/
theorem unpackTrace_of_root {msg : Message} (root : msg.correlationId = "") :
    unpackTrace msg = msg.messageId := by
  simp [unpackTrace, root]

theorem unpackTrace_packTrace_of_named {msg : Message} (fresh : msg.correlationId = "")
    {traceID : String} (named : traceID ≠ "") : unpackTrace (packTrace msg traceID) = traceID := by
  by_cases own : traceID = msg.messageId
  · subst own
    simp [packTrace, unpackTrace_of_root fresh]
  · simp [packTrace, unpackTrace, own, named]

theorem unpackTrace_packTrace_empty {msg : Message} (fresh : msg.correlationId = "") :
    unpackTrace (packTrace msg "") = msg.messageId := by
  by_cases own : "" = msg.messageId
  · simp [packTrace, own, unpackTrace_of_root fresh]
  · simp [packTrace, own, unpackTrace]

/-- A trace ID packed into a message published with no correlation ID is what the receiver
unpacks, except for an empty trace ID on a message with an ID, which the receiver takes for a
root request. -/
theorem unpackTrace_packTrace {msg : Message} (fresh : msg.correlationId = "") (traceID : String) :
    unpackTrace (packTrace msg traceID) = traceID ↔ traceID ≠ "" ∨ msg.messageId = "" := by
  by_cases named : traceID = ""
  · subst named
    rw [unpackTrace_packTrace_empty fresh]
    simp
  · exact iff_of_true (unpackTrace_packTrace_of_named fresh named) (.inl named)

theorem unpackTrace_packTrace_example :
    let msg : Message := ⟨"peer.1#7", ""⟩
    msg.correlationId = "" ∧ (unpackTrace (packTrace msg "") = "" ↔ "" ≠ "" ∨ msg.messageId = "") ∧
      unpackTrace (packTrace msg "") = "peer.1#7" := by
  intro msg
  have fresh : msg.correlationId = "" := rfl
  exact ⟨fresh, unpackTrace_packTrace fresh "", by decide⟩

/-! ## A trace over many hops -/

/-- The messages published along a chain of requests, each made while handling the delivery of
the one before: each is packed with the trace ID unpacked from the previous one. -/
def relay (traceID : String) : List Message → List Message
  | [] => []
  | msg :: rest => packTrace msg traceID :: relay (unpackTrace (packTrace msg traceID)) rest

/-- A non-empty trace ID survives any number of hops: every message of the chain, each published
with no correlation ID, is delivered with the trace ID the chain started with. -/
theorem relay_keeps_trace {traceID : String} (named : traceID ≠ "") (msgs : List Message)
    (fresh : ∀ msg ∈ msgs, msg.correlationId = "") :
    ∀ sent ∈ relay traceID msgs, unpackTrace sent = traceID := by
  induction msgs with
  | nil => nofun
  | cons msg msgs ih =>
    have hop : unpackTrace (packTrace msg traceID) = traceID :=
      unpackTrace_packTrace_of_named (fresh msg (.head _)) named
    intro sent mem
    rcases List.mem_cons.mp mem with rfl | later
    · exact hop
    · rw [hop] at later
      exact ih (fun other mem => fresh other (.tail _ mem)) sent later

/-- Every request made on behalf of a root request with an ID is delivered with the root's
message ID as its trace ID. -/
theorem trace_of_root (root : Message) (rooted : root.correlationId = "")
    (named : root.messageId ≠ "")
    (msgs : List Message) (fresh : ∀ msg ∈ msgs, msg.correlationId = "") :
    ∀ sent ∈ relay (unpackTrace root) msgs, unpackTrace sent = root.messageId := by
  rw [unpackTrace_of_root rooted]
  exact relay_keeps_trace named msgs fresh

theorem trace_of_root_example :
    let root : Message := ⟨"peer.1#7", ""⟩
    let msgs : List Message := [⟨"peer.2#1", ""⟩, ⟨"peer.3#4", ""⟩]
    root.correlationId = "" ∧ root.messageId ≠ "" ∧ (∀ msg ∈ msgs, msg.correlationId = "") ∧
      ∀ sent ∈ relay (unpackTrace root) msgs, unpackTrace sent = root.messageId := by
  intro root msgs
  have rooted : root.correlationId = "" := rfl
  have named : root.messageId ≠ "" := by decide
  have fresh : ∀ msg ∈ msgs, msg.correlationId = "" := by decide
  exact ⟨rooted, named, fresh, trace_of_root root rooted named msgs fresh⟩

end Rinq.Amqputil
