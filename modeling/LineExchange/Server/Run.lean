import LineExchange.Server.Server

/-!
# Server run — one server on a host, used step by step

A run starts with a listener on a crew of its own, or with a server that was started.  Somebody
starts and stops it, and peers on the same host try to connect.  This file defines:

* `Server.Step` and `Server.Reply` — what can be done, and what is answered;
* `Server.settle` — what happens by itself after every step;
* `Server.ready?` — a server with settings whose loop waits for a connection;
* `Server.step` and `Server.run` — the runs.

Between two steps the loop goes on until it waits for a connection or is over.  A peer that
reaches no route has its error as the answer.
-/

namespace LineExchange
namespace Server

inductive Step where
  /-- The listener is started at an endpoint, on a host where others are taken. -/
  | start (endpoint : Endpoint) (taken : List Endpoint)
  | stopListener
  | stopCrew
  /-- The server is stopped as a whole: first the listener, then the crew. -/
  | stop
  /-- A peer connects. -/
  | dial
  deriving DecidableEq, Repr

inductive Reply where
  | nothing
  | bound (endpoint : Endpoint)
  | refused (error : Listener.StartError)
  /-- There is no address to connect to. -/
  | noAddress
  | unreachable (error : IoError)
  | connected
  deriving DecidableEq, Repr

/-- The server after those of the events that can happen. -/
def advance (p : Responder) (s : Server) (es : List Event) : Server :=
  (machine p s.crew.size).advance s es

/-- The loop goes on until it waits or is over, and jobs that are over are counted no more. -/
def settle (p : Responder) (s : Server) : Server :=
  let jobs := List.range s.tenants.length
  s.advance p (List.replicate 8 .loop ++ jobs.map .leave)

/-- The crew goes down: every job is dropped, and the loop says that it is over. -/
def windUp (p : Responder) (s : Server) : Server :=
  let jobs := List.range s.tenants.length
  ((s.advance p (.stopCrew :: jobs.map .discard)).settle p).advance p [.joined]

/-- A server with settings on a host, whose loop waits for a connection. -/
def ready? (p : Responder) (h : Host) (settings : ServerSettings) : Except ServerError Server :=
  (start? p h settings).map (settle p)

def step (p : Responder) (h : Host) (s : Server) : Step → Server × Reply
  | .start e taken =>
      match s.listen p (h.holding taken) e with
      | .ok s => (s.settle p, .bound (s.listener.localAddress.getD e))
      | .error e => (s, .refused e)
  | .stopListener => ((s.advance p [.stopListener]).settle p, .nothing)
  | .stopCrew => (s.windUp p, .nothing)
  | .stop => (((s.advance p [.stopListener]).settle p).windUp p, .nothing)
  | .dial =>
      match s.listener.localAddress with
      | none => (s, .noAddress)
      | some e =>
          match h.dial e with
          | .error e => (s, .unreachable e)
          | .ok w => ((s.advance p [.complete (.ok w)]).settle p, .connected)

def run (p : Responder) (h : Host) (s : Server) : List Step → List (Server × Reply)
  | [] => []
  | a :: as =>
      let r := step p h s a
      r :: run p h r.1 as

end Server
end LineExchange
