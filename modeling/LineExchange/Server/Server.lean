import LineExchange.Net.Host
import LineExchange.Server.Exchange
import LineExchange.Server.Listener
import LineExchange.Settings
import LineExchange.Work.Crew

/-!
# Server — a listener and its exchanges on one crew

The loop of the listener and every exchange are jobs of one crew.  This file defines:

* `ServerError` — why a server does not start, and the texts;
* `Server` — the state, with what each job of the crew is;
* `Server.Event` and `Server.machine` — everything that can happen, one lock at a time;
* `Server.start?` — a server with settings on a host, as far as its first steps.

Settings are looked at first, then the crew is made, then the socket is opened.
-/

namespace LineExchange

inductive ServerError where
  | crew (error : IoError)
  | listener (error : Listener.StartError)
  | settings (error : SettingsError)
  deriving DecidableEq, Repr

namespace ServerError

def message : ServerError → String
  | .crew e => "failed to start worker pool: " ++ e.message
  | .listener e => e.message
  | .settings e => e.message

end ServerError

namespace Server

inductive Tenant where
  | loop
  | exchange (i : Nat)
  deriving DecidableEq, Repr

end Server

/-- A listener and its exchanges on one crew. -/
structure Server where
  listener : Listener
  exchanges : Exchanges
  crew : Crew
  /-- What the jobs of the crew are, in their order. -/
  tenants : List Server.Tenant
  /-- The connection that was accepted and has no exchange yet. -/
  incoming : Option Wire
  deriving DecidableEq, Repr

namespace Server

def onCrew (crew : Crew) : Server :=
  ⟨.fresh, .fresh, crew, [], none⟩

inductive Event where
  /-- Somebody starts the listener; opening the socket has the result `r`. -/
  | start (r : Except IoError Endpoint)
  /-- The starter moves the phase on. -/
  | arm
  /-- The starter brings the loop to the crew. -/
  | spawn
  | stopListener
  | stopCrew
  | loop
  /-- The accept under way is completed: by a connection, or by an error. -/
  | complete (r : Except IoError Wire)
  /-- Something happens to the stream of an exchange, or an exchange goes on. -/
  | exchange (e : Exchanges.Event)
  /-- Job `j`, which is over, is counted no more. -/
  | leave (j : Nat)
  | discard (j : Nat)
  | joined

def onListener (s : Server) (e : Listener.Event) : Option Server :=
  (s.listener.step? e).map fun l => { s with listener := l }

/-- A job is counted and comes to the crew; it is dropped there if the crew is down. -/
def bring (s : Server) (t : Tenant) : Server :=
  let j := s.crew.jobs.length
  let crew : Crew :=
    { s.crew with count := s.crew.count.acquire, jobs := s.crew.jobs ++ [.counted] }
  { s with crew := (crew.step? (.enqueue j)).getD crew, tenants := s.tenants ++ [t] }

def dropExchange (s : Server) (i : Nat) : Option Server :=
  (s.exchanges.drop? i).map fun xs => { s with exchanges := xs }

/-- The exchange on the connection that was accepted; it is dropped if the crew is down. -/
def engage (s : Server) (w : Wire) : Server :=
  let i := s.exchanges.all.length
  let s := { s with exchanges := s.exchanges.accept w, incoming := none }.bring (.exchange i)
  if s.crew.isUp then s else (s.dropExchange i).getD s

/-- A step of the loop; after an accept, its connection or its error is accounted for. -/
def loopStep (s : Server) : Option Server :=
  -- The exchange is on the crew before the loop looks whether to go on.
  let s? := match s.listener.loop, s.incoming with
    | .completed true, some w => s.engage w
    | .completed false, _ =>
        { s with
          exchanges := { s.exchanges with traffic := s.exchanges.traffic.acceptFailed } }
    | _, _ => s
  s?.onListener .step

/-- Whether a job of the crew may take steps. -/
def mayWork (s : Server) (t : Tenant) : Bool :=
  match s.tenants.findIdx? (· == t) with
  | some j => (s.crew.step? (.work j)).isSome
  | none => false

/-- Whether what a job does is over. -/
def isFinished (s : Server) : Tenant → Bool
  | .loop => s.listener.loop == .finished || s.listener.loop == .lost
  | .exchange i =>
      match s.exchanges.all[i]? with
      | some x => x.isFinished
      | none => true

/-- The exchange that an event lets go on. -/
def goesOn? : Exchanges.Event → Option Nat
  | .step i | .crash i => some i
  | _ => none

def dropTenant (s : Server) : Tenant → Option Server
  | .loop => s.onListener .drop
  | .exchange i => s.dropExchange i

/-- What an event does, when `p` answers the lines. -/
def step? (p : Responder) (s : Server) : Event → Option Server
  | .start r => s.onListener (.start r)
  | .arm => s.onListener .arm
  | .spawn =>
      match s.listener.loop with
      | .armed => (s.bring .loop).onListener (.spawn s.crew.isUp)
      | _ => none
  | .stopListener => s.onListener .stop
  | .stopCrew => (s.crew.step? .stop).map fun crew => { s with crew }
  | .loop => if s.mayWork .loop then s.loopStep else none
  | .complete r =>
      match r with
      | .ok w => (s.onListener (.complete true)).map fun s => { s with incoming := some w }
      | .error _ => s.onListener (.complete false)
  | .exchange e =>
      match e, goesOn? e with
      | .accept _, _ | .acceptFailed, _ | .drop _, _ => none
      | e, some i =>
          if s.mayWork (.exchange i) then
            (Exchanges.step? p s.exchanges e).map fun xs => { s with exchanges := xs }
          else none
      | e, none => (Exchanges.step? p s.exchanges e).map fun xs => { s with exchanges := xs }
  | .leave j =>
      match s.tenants[j]? with
      | some t =>
          if s.isFinished t then
            match (s.crew.step? (.finish j false)).bind fun c => c.step? (.leave j) with
            | some crew => some { s with crew }
            | none => none
          else none
      | none => none
  | .discard j =>
      match s.tenants[j]?, s.crew.closing with
      | some t, .joining => s.dropTenant t
      | _, _ => none
  | .joined => (s.crew.step? .joined).map fun crew => { s with crew }

/-- All orders in which a server with `threads` workers is used. -/
def machine (p : Responder) (threads : Nat) : Machine Server Event :=
  ⟨onCrew (.ofSize threads), step? p⟩

/-- The error of opening a socket for workers that are gone. -/
def loopGone : IoError :=
  .custom .other "A Tokio 1.x context was found, but it is being shutdown."

/-- What comes of opening a socket at an endpoint. -/
def open? (h : Host) (s : Server) (e : Endpoint) : Except IoError Endpoint :=
  -- The host is asked first, so a port that is taken is reported even when the workers are gone.
  match h.listen e with
  | .ok e => if s.crew.isUp then .ok e else .error loopGone
  | .error e => .error e

/-- The listener is started at an endpoint, up to the point where its loop accepts. -/
def listen (p : Responder) (h : Host) (e : Endpoint) (s : Server) :
    Except Listener.StartError Server :=
  let r := s.open? h e
  match s.listener.begin r with
  | .error e => .error e
  | .ok _ => .ok ((machine p s.crew.size).advance s [.start r, .arm, .spawn, .loop, .loop])

/-- A server with settings on a host. -/
def start? (p : Responder) (h : Host) (settings : ServerSettings) : Except ServerError Server :=
  match settings.bindAddress with
  | .error e => .error (.settings e)
  | .ok e =>
      match Crew.start? settings.threads with
      | .error e => .error (.crew e)
      | .ok crew =>
          match (onCrew crew).listen p h e with
          | .error e => .error (.listener e)
          | .ok s => .ok s

end Server
end LineExchange
