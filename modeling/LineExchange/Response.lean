import LineExchange.Request.Reader

/-!
# Response — what a server answers, and its line

This file defines:

* `Response` — an answer, `Response.display`, what it reads as, and `Response.line`, its line;
* `Request.answer` — the answer to a request;
* `answerLine` — the line that answers a line, whatever it holds.
-/

namespace LineExchange

inductive Response where
  | pong
  | text (text : String)
  | done
  /-- The request was refused for the reason `message`. -/
  | refused (message : String)
  deriving DecidableEq, Repr

namespace Response

def display : Response → String
  | .pong => "PONG"
  | .text t => t
  | .done => "OK"
  | .refused m => "ERR " ++ m

/-- The line that carries a response, with its delimiter. -/
def line (r : Response) : Bytes :=
  Utf8.ofString r.display ++ [Line.delimiter]

end Response

namespace Request

def answer : Request → Response
  | .ping => .pong
  | .echo t => .text t
  | .longCalculation _ => .done

end Request

/-- The answer to a line: that to its request, or the reason why it carries none. -/
def answerTo (bs : Bytes) : Response :=
  match Request.ofLine? bs with
  | .ok r => r.answer
  | .error e => .refused e.message

/-- What turns the bytes of a request line into the bytes of a response. -/
abbrev Responder := Bytes → Bytes

/-- The line that answers a line. -/
def answerLine : Responder :=
  fun bs => (answerTo bs).line

end LineExchange
