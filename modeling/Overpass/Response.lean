import Mathlib.Logic.Basic

set_option autoImplicit false

/- The `commandamqp` response to one command request. Every method holds the response's mutex for
its whole body, so the calls of a handler and of the server's `finalize` are sequences of whole
calls. A panic inside a method releases the mutex through its deferred unlock and leaves the
fields as the method had set them. The pack helpers, the channel pool and the broker are not part
of the sources: what they pack is recorded by name, and whether a call of theirs fails is an input
of each call. -/
namespace Rinq.Commandamqp

inductive ReplyMode where
  | replyNone
  | replyCorrelated
  | replyUncorrelated
  deriving DecidableEq

/-- The fields of `rinq.Request` that `respond` reads; the ID by its `String()`. -/
structure Request where
  ns : String
  command : String
  id : String
  deriving DecidableEq

/-- An error passed to `Error`: a `rinq.Failure`, or any other error by its text. -/
inductive Err where
  | failure (type message : String)
  | other (text : String)
  deriving DecidableEq

/-- What a helper packs into the `amqp.Publishing`. -/
inductive Packed (π : Type) where
  | successResponse (payload : Option π)
  | errorResponse (err : Err)
  | deadline
  | trace
  | namespaceAndCommand (ns command : String)
  | replyMode (mode : ReplyMode)
  | spanContext
  deriving DecidableEq

/-- A call of `channel.Publish` on `responseExchange`, not mandatory, not immediate. -/
structure Publishing (π : Type) where
  routingKey : String
  msg : List (Packed π)
  deriving DecidableEq

/-- What the rest of the program answers during one call: whether the context is done, whether
its deadline has passed (`PackDeadline` fails), and whether `channels.Get`, `PackSpanContext`
and `channel.Publish` fail. -/
structure World where
  contextDone : Bool
  deadlinePassed : Bool
  getFails : Bool
  spanContextFails : Bool
  publishFails : Bool
  deriving DecidableEq

inductive Panic where
  | value (text : String)
  | getChannel
  | spanContext
  | publish
  deriving DecidableEq

/-- `response`. `responds` counts the runs of `respond` and `published` lists the calls of
`channel.Publish`, in order. -/
structure Response (π : Type) where
  request : Request
  replyMode : ReplyMode
  isClosed : Bool
  responds : Nat
  published : List (Publishing π)
  deriving DecidableEq

variable {π : Type}

/-- `newResponse`, for the response; the function it also returns is `finalize`. -/
def newResponse (request : Request) (replyMode : ReplyMode) : Response π :=
  ⟨request, replyMode, false, 0, []⟩

namespace Response

/-- `response.respond`: closes the response, then publishes `msg` unless no reply is wanted or
the deadline has passed. -/
def respond (r : Response π) (world : World) (msg : List (Packed π)) :
    Except Panic Unit × Response π :=
  let r := { r with isClosed := true, responds := r.responds + 1 }
  if r.replyMode = .replyNone then (.ok (), r)
  else if world.deadlinePassed then (.ok (), r)
  else if world.getFails then (.error .getChannel, r)
  else if r.replyMode = .replyUncorrelated ∧ world.spanContextFails then (.error .spanContext, r)
  else
    let msg := msg ++ [.deadline, .trace] ++
      if r.replyMode = .replyUncorrelated then
        [.namespaceAndCommand r.request.ns r.request.command, .replyMode r.replyMode, .spanContext]
      else []
    let r := { r with published := r.published ++ [⟨r.request.id, msg⟩] }
    (if world.publishFails then .error .publish else .ok (), r)

def done (r : Response π) (world : World) (payload : Option π) : Except Panic Unit × Response π :=
  if r.isClosed then (.error (.value "responder is already closed"), r)
  else r.respond world [.successResponse payload]

def error (r : Response π) (world : World) (err : Err) : Except Panic Unit × Response π :=
  if r.isClosed then (.error (.value "responder is already closed"), r)
  else r.respond world [.errorResponse err]

/-- `response.Fail`, given the message `fmt.Sprintf` formats. -/
def fail (r : Response π) (world : World) (type message : String) : Except Panic Err × Response π :=
  ((r.error world (.failure type message)).1.map fun _ => .failure type message,
    (r.error world (.failure type message)).2)

def close (r : Response π) (world : World) : Except Panic Bool × Response π :=
  if r.isClosed then (.ok false, r)
  else ((r.respond world [.successResponse none]).1.map fun _ => true,
    (r.respond world [.successResponse none]).2)

def finalize (r : Response π) : Bool × Response π :=
  if r.isClosed then (true, r) else (false, { r with isClosed := true })

def isRequired (r : Response π) (world : World) : Bool :=
  if r.isClosed then false
  else if r.replyMode = .replyNone then false
  else !world.contextDone

end Response

/-- A call on the response: the handler's methods, and the server's `finalize`. -/
inductive Call (π : Type) where
  | done (payload : Option π)
  | error (err : Err)
  | fail (type message : String)
  | close
  | finalize
  | isRequired
  | isClosed
  deriving DecidableEq

inductive Reply where
  | done (result : Except Panic Unit)
  | error (result : Except Panic Unit)
  | fail (result : Except Panic Err)
  | close (result : Except Panic Bool)
  | finalize (closed : Bool)
  | isRequired (required : Bool)
  | isClosed (closed : Bool)

/-- The calls that end the response: all but the two queries. -/
def Call.Terminal : Call π → Prop
  | .isRequired | .isClosed => False
  | _ => True

instance (call : Call π) : Decidable call.Terminal := by
  cases call <;> unfold Call.Terminal <;> infer_instance

namespace Response

/-- One call, in the world of that call. -/
def step (r : Response π) (world : World) : Call π → Reply × Response π
  | .done payload => (.done (r.done world payload).1, (r.done world payload).2)
  | .error err => (.error (r.error world err).1, (r.error world err).2)
  | .fail type message => (.fail (r.fail world type message).1, (r.fail world type message).2)
  | .close => (.close (r.close world).1, (r.close world).2)
  | .finalize => (.finalize r.finalize.1, r.finalize.2)
  | .isRequired => (.isRequired (r.isRequired world), r)
  | .isClosed => (.isClosed r.isClosed, r)

def run (r : Response π) : List (World × Call π) → List Reply × Response π
  | [] => ([], r)
  | call :: calls => ((r.step call.1 call.2).1 :: ((r.step call.1 call.2).2.run calls).1,
      ((r.step call.1 call.2).2.run calls).2)

@[simp] theorem run_nil (r : Response π) : r.run [] = ([], r) := rfl

@[simp] theorem run_cons (r : Response π) (call : World × Call π) (calls : List (World × Call π)) :
    r.run (call :: calls) = ((r.step call.1 call.2).1 :: ((r.step call.1 call.2).2.run calls).1,
      ((r.step call.1 call.2).2.run calls).2) := rfl

end Response

end Rinq.Commandamqp
