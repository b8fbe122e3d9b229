import Parley.Message.Basic

/-!
# Handlers

A handler answers requests. It may keep a state from one request to the next, it may refuse a
request in words of its own, and it may crash.

**Stock handlers.** `echo` answers with the request. The others exercise a connection: they
calculate, refuse, describe the request, answer at length, answer with nulls, or crash. One
that cannot read its argument off the request refuses in the words of the message error.
-/

namespace Parley

/-- What a handler makes of a request. -/
inductive Reply
  | response (message : Message)
  | refusal (text : String)
  | crash

/-- A handler that keeps a state of type `σ`. -/
abbrev Handler (σ : Type) := σ → Message → Reply × σ

namespace Handler

/-- A handler that keeps nothing. -/
def ofFunction (reply : Message → Reply) : Handler Unit := fun state request =>
  (reply request, state)

/-- Answers with a value made from the next field of the request. -/
def reading (kind : Kind) (reply : kind.Value → Reply) : Handler Unit := ofFunction fun request =>
  match (request.get kind).1 with
  | .ok value => reply value
  | .error error => .refusal error.message

/-- Answers with the request, not read from. -/
def echo : Handler Unit := ofFunction fun request => .response request

/-- Answers with the next number. -/
def addOne : Handler Unit := reading .int fun value =>
  .response (({} : Message).put .int (value + 1))

/-- Answers with the request if it asks to pass, and refuses otherwise. -/
def gate : Handler Unit := ofFunction fun request =>
  match (request.get .bool).1 with
  | .ok true => .response request
  | .ok false => .refusal "refused"
  | .error error => .refusal error.message

/-- Answers with the number of fields and the names of their kinds. -/
def kinds : Handler Unit := ofFunction fun request =>
  .response ((({} : Message).put .int (.ofNat request.size)).put .stringList
    (some (request.kinds.map Kind.name)))

/-- Answers with as long a string as it is asked for. -/
def grow : Handler Unit := reading .int fun value =>
  .response (({} : Message).put .string
    (some (String.ofList (List.replicate value.toInt.toNat 'x'))))

/-- Answers with the string, a null and an empty string. -/
def nulls : Handler Unit := reading .string fun value =>
  .response (((({} : Message).put .string value).put .string none).put .string (some ""))

/-- Crashes. -/
def crash : Handler Unit := ofFunction fun _ => .crash

/-- The stock handler of a name. -/
def named? (name : String) : Option (Handler Unit) :=
  [("echo", echo), ("add_one", addOne), ("gate", gate), ("kinds", kinds), ("grow", grow),
    ("nulls", nulls), ("crash", crash)].lookup name

end Handler

end Parley
