import LineExchange.Line

/-!
# Request — what a client can ask for, and its line

This file defines:

* `Verb` — the commands, by their canonical names;
* `Pause` — a length of time in seconds and nanoseconds;
* `Request` — a request, and `Request.line`, the line that carries it.

The line of a long calculation gives whole seconds only, so its nanoseconds are not sent.
-/

namespace LineExchange

inductive Verb where
  | ping
  | echo
  | longCalculation
  deriving DecidableEq, Repr

namespace Verb

/-- The canonical name of a command. -/
def name : Verb → String
  | .ping => "PING"
  | .echo => "ECHO"
  | .longCalculation => "EMULATE_LONG_CALC_OP"

def all : List Verb :=
  [.ping, .echo, .longCalculation]

/-- The command whose name is `cs` up to the case of its ASCII letters. -/
def named? (cs : List Char) : Option Verb :=
  all.find? fun v => v.name.toList == cs.map Char.toUpper

end Verb

/-- A length of time. -/
structure Pause where
  seconds : UInt64
  nanos : Fin 1000000000
  deriving DecidableEq, Repr

namespace Pause

def ofSeconds (s : UInt64) : Pause :=
  ⟨s, 0⟩

end Pause

inductive Request where
  | ping
  /-- The text itself, unchanged. -/
  | echo (text : String)
  /-- An answer only after the pause. -/
  | longCalculation (pause : Pause)
  deriving DecidableEq, Repr

namespace Request

def text : Request → String
  | .ping => Verb.ping.name
  | .echo t => Verb.echo.name ++ " " ++ t
  | .longCalculation p => Verb.longCalculation.name ++ " " ++ toString p.seconds.toNat

/-- The line that carries a request, with its delimiter. -/
def line (r : Request) : Bytes :=
  Utf8.ofString r.text ++ [Line.delimiter]

/-- The line that asks for an answer after `s` seconds. -/
def longCalculationLine (s : UInt64) : Bytes :=
  (longCalculation (Pause.ofSeconds s)).line

end Request
end LineExchange
