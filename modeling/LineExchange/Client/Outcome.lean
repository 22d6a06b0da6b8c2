import LineExchange.Channel.ChannelError

/-!
# Outcome — how a request ended

This file defines:

* `RequestError` — why a request has no response, and the texts;
* `Outcome` — a response's text, or an error;
* `Ending` — what made an end of the steps of a request, before its flag was looked at;
* `Ending.outcome` — how the request is reported.

A failure is reported as such whether or not the request was cancelled; without one, a request
that was cancelled reports nothing else, even if its response came.
-/

namespace LineExchange

/-- Why a request has no response. -/
inductive RequestError where
  | connect (error : IoError)
  | write (error : IoError)
  | read (error : IoError)
  | cancelled
  deriving DecidableEq, Repr

namespace RequestError

/-- The text of an error. -/
def message : RequestError → String
  | .connect e => "connect failed: " ++ e.message
  | .write e => "write failed: " ++ e.message
  | .read e => "read failed: " ++ e.message
  | .cancelled => "operation cancelled"

/-- Whether the request was cancelled. -/
def isCancelled : RequestError → Bool
  | .cancelled => true
  | _ => false

end RequestError

/-- How a request is reported. -/
inductive Outcome where
  | response (text : String)
  | failed (error : RequestError)
  deriving DecidableEq, Repr

/-- What made an end of the steps of a request. -/
inductive Ending where
  /-- The text of a response. -/
  | text (text : String)
  /-- A cancellation was seen. -/
  | cancelled
  | failed (error : RequestError)
  deriving DecidableEq, Repr

namespace Ending

/-- The end that an error of the channel makes at a step of the request. -/
def ofError (step : IoError → RequestError) (e : ChannelError) : Ending :=
  if e.isCancelled then .cancelled else .failed (step e.toIoError)

theorem ofError_of_ne {step : IoError → RequestError} {e : ChannelError} (h : e ≠ .cancelled) :
    ofError step e = .failed (step e.toIoError) := by
  cases e <;> simp_all [ofError, ChannelError.isCancelled]

/-- How a request is reported whose flag says `flagged` when it is looked at. -/
def outcome (flagged : Bool) : Ending → Outcome
  | .failed e => .failed e
  | .cancelled => .failed .cancelled
  | .text t => if flagged then .failed .cancelled else .response t

end Ending
end LineExchange
