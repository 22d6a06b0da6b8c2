import LineExchange.Client.Client
import LineExchange.Proofs.Channel.Transfer
import LineExchange.Server.Exchange

/-!
# Link — one request of a client and the exchange that answers it, on one connection

A client and a server each have a stream with a script; on a connection, what arrives at the one is
what the other sent.  This file defines:

* `Call` — a request, what answers it, and how the connection takes what is written;
* `Link` — a client and the exchanges of a server, with how much of what each side sent has come
  to the other;
* `Link.Event` and `Link.machine` — everything that can happen, in any order: either side goes on,
  and the connection brings some of the bytes that are on their way.

Whatever an event does to the client or to the exchanges is an event of `Client.step?` or of
`Exchanges.step?`; the connection only chooses how many bytes a read brings.  It fails at nothing,
and nobody cancels the request.
-/

namespace LineExchange

/-- A request, what answers it, and how the connection takes what is written. -/
structure Call where
  threads : Nat
  id : UInt32
  endpoint : Endpoint
  payload : Bytes
  respond : Responder
  /-- What becomes of the first writes of the client, and then of the server. -/
  up : List Uptake
  down : List Uptake

namespace Call

def ticket (a : Call) : Ticket :=
  .issue a.id a.endpoint a.payload

def answer (a : Call) : Bytes :=
  a.respond a.payload

/-- The client's end of the connection, and the server's. -/
def upstream (a : Call) : Wire :=
  ⟨[], a.up, [], []⟩

def downstream (a : Call) : Wire :=
  ⟨[], a.down, [], []⟩

end Call

/-- A client with one request, and the exchanges of the server that it connects to. -/
structure Link where
  client : Client
  exchanges : Exchanges
  /-- How many of the bytes that the client sent have come to the server. -/
  carried : Nat
  /-- How many of the bytes that the server sent have come to the client. -/
  returned : Nat
  /-- Whether the client's stream was told that nothing more will come. -/
  hungUp : Bool

namespace Link

def trip? (l : Link) : Option Trip :=
  l.client.trips[0]?

def exchange? (l : Link) : Option Exchange :=
  l.exchanges.all[0]?

def sentUp (l : Link) : Bytes :=
  match l.trip? with
  | some t => t.sent
  | none => []

def sentDown (l : Link) : Bytes :=
  match l.exchange? with
  | some x => x.sent
  | none => []

def start (a : Call) : Link where
  client := ((Client.ofThreads a.threads).submit ⟨a.id, a.endpoint, a.payload, []⟩).1
  exchanges := .fresh
  carried := 0
  returned := 0
  hungUp := false

inductive Event where
  /-- The request's job comes to the loop. -/
  | enqueue
  /-- The client looks whether it is connected. -/
  | connect (ready : Bool)
  /-- The client's request goes on. -/
  | step
  | accept
  /-- The server's exchange goes on. -/
  | serve
  /-- At most `n + 1` of the bytes on their way to the server come there together. -/
  | carry (n : Nat)
  /-- At most `n + 1` of the bytes on their way to the client come there together. -/
  | bring (n : Nat)
  /-- The server let the connection go, and everything that it sent has come. -/
  | hangUp
  deriving DecidableEq, Repr

def onClient (l : Link) (e : Client.Event) : Option Link :=
  (l.client.step? e).map fun c => { l with client := c }

def onServer (a : Call) (l : Link) (e : Exchanges.Event) : Option Link :=
  (Exchanges.step? a.respond l.exchanges e).map fun xs => { l with exchanges := xs }

def isConnected (l : Link) : Bool :=
  l.trip?.any fun t => t.channel.isSome

/-- The server's exchange is over, and the client's stream was told everything but that. -/
def isDrained (l : Link) : Bool :=
  l.exchange?.any Exchange.isFinished && l.sentDown.length ≤ l.returned && !l.hungUp

def step? (a : Call) (l : Link) : Event → Option Link
  | .enqueue => l.onClient (.enqueue 0)
  | .connect ready => l.onClient (.connect 0 (if ready then some (.ok a.upstream) else none))
  | .step => l.onClient (.step 0)
  | .accept =>
      if l.isConnected ∧ l.exchange? = none then l.onServer a (.accept a.downstream) else none
  | .serve => l.onServer a (.step 0)
  | .carry n =>
      match (l.sentUp.drop l.carried).take (n + 1) with
      -- Nothing is on its way.
      | [] => none
      | b :: bs =>
          (l.onServer a (.arrive 0 (.piece (b :: bs)))).map fun l =>
            { l with carried := l.carried + (b :: bs).length }
  | .bring n =>
      match (l.sentDown.drop l.returned).take (n + 1) with
      | [] => none
      | b :: bs =>
          (l.onClient (.arrive 0 (.piece (b :: bs)))).map fun l =>
            { l with returned := l.returned + (b :: bs).length }
  | .hangUp =>
      if l.isDrained then (l.onClient (.arrive 0 .close)).map fun l => { l with hungUp := true }
      else none

/-- All orders in which a request goes to its server and an answer comes back. -/
def machine (a : Call) : Machine Link Event :=
  ⟨start a, step? a⟩

/-- The parties that have to go on for the request to come to its end. -/
inductive Party where
  | loop
  | network
  | client
  | listener
  | server
  /-- The connection on the way to the server, and on the way back. -/
  | onward
  | homeward
  deriving DecidableEq, Repr

def Event.party? : Event → Option Party
  | .enqueue => some .loop
  | .connect ready => if ready then some .network else none
  | .step => some .client
  | .accept => some .listener
  | .serve => some .server
  | .carry _ => some .onward
  | .bring _ => some .homeward
  | .hangUp => none

end Link
end LineExchange
