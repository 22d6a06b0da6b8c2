import LineExchange.Request
import LineExchange.Text.Blank
import LineExchange.Text.Numeral

/-!
# Request reader — the request that a line carries

A line is stripped of its delimiter, decoded, and split into a command and the text after it.
This file defines:

* `Request.Refusal` — the causes for which a line carries no request, and their texts;
* `Request.ofText?` — the request in a text;
* `Request.ofLine?` — the request in a line, with or without its delimiter.
-/

namespace LineExchange
namespace Request

open Text

/-- Why a line carries no request. -/
inductive Refusal where
  /-- The line holds no command. -/
  | empty
  /-- The line is not text. -/
  | notText (fault : Utf8.Fault)
  /-- The first word is no command. -/
  | unknownCommand (name : String)
  /-- The command takes another number of arguments. -/
  | wrongArity (verb : Verb)
  /-- The argument is no whole number, or too large. -/
  | notANumber (word : String)
  deriving DecidableEq, Repr

namespace Refusal

/-- The text of a refusal. -/
def message : Refusal → String
  | .empty => "empty request"
  | .notText f => "invalid UTF-8: " ++ f.message
  | .unknownCommand n => "unknown command '" ++ n ++ "'"
  | .wrongArity v => "wrong number of arguments for '" ++ v.name ++ "'"
  | .notANumber w => "invalid integer: " ++ w

end Refusal

/-- The number of seconds that a word denotes. -/
def seconds? (word : List Char) : Option UInt64 :=
  (Numeral.natural? UInt64.size word).map UInt64.ofNat

/-- The request of a command with the text `rest` after it, which has no leading blank. -/
def ofVerb? (v : Verb) (rest : List Char) : Except Refusal Request :=
  match v with
  | .ping => if rest.isEmpty then .ok .ping else .error (.wrongArity .ping)
  | .echo =>
      if rest.isEmpty then .error (.wrongArity .echo) else .ok (.echo (String.ofList rest))
  | .longCalculation =>
      match words rest with
      | [word] =>
          match seconds? word with
          | some s => .ok (.longCalculation (Pause.ofSeconds s))
          | none => .error (.notANumber (String.ofList word))
      | _ => .error (.wrongArity .longCalculation)

/-- The request in a text. -/
def ofText? (cs : List Char) : Except Refusal Request :=
  let body := trimStart cs
  let name := firstWord body
  if name.isEmpty then .error .empty
  else
    match Verb.named? name with
    | some v => ofVerb? v (afterWord body)
    | none => .error (.unknownCommand (String.ofList name))

/-- The request in a line, which may still carry its delimiter. -/
def ofLine? (bs : Bytes) : Except Refusal Request :=
  match Utf8.decode (Line.strip bs) with
  | .ok cs => ofText? cs
  | .error f => .error (.notText f)

end Request
end LineExchange
