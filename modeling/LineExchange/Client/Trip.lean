import LineExchange.Channel.Channel
import LineExchange.Client.Outcome
import LineExchange.Client.Ticket

/-!
# Trip — the way of one request to its server and back

A trip connects, looks at its flag, writes the payload, looks at its flag again, reads one line,
and is then on its way home: it closes the socket, gives back its name, looks at the flag a last
time, and reports.  This file defines:

* `Trip.Stage` — where a trip stands;
* `Trip` — a trip with its channel;
* `Trip.refuse` — there is no socket to connect;
* `Trip.connect` — one look at the latch and at what came of connecting;
* `Trip.step` — one step between connecting and the end of reading: one look at the flag, one
  write, one flush, one search of the inbox, or one look at the latch with one read;
* `Trip.close` — the socket is closed.
-/

namespace LineExchange

namespace Trip

inductive Stage where
  | connecting (signal : Signal) (wait : Wait)
  | connected
  /-- The bytes `rest` are left to write, and then to flush. -/
  | writing (rest : Bytes)
  /-- All is written, before the second look at the flag. -/
  | written
  | searching
  /-- About to look at the latch and to read. -/
  | awaiting (wait : Wait)
  /-- The ending is known; the socket may be open. -/
  | closing (ending : Ending)
  /-- About to give back the name. -/
  | retiring (ending : Ending)
  /-- About to look at the flag a last time. -/
  | judging (ending : Ending)
  /-- About to call back. -/
  | reporting (outcome : Outcome)
  /-- In the middle of calling back: about to submit `payload` again, having asked whether the name
  is in use; `later` is left to the callbacks behind this one. -/
  | resubmitting (outcome : Outcome) (inUse : Bool) (payload : Bytes) (later : List Bytes)
  | home
  | dropped
  deriving DecidableEq, Repr

end Trip

structure Trip where
  stage : Trip.Stage
  /-- The channel, once connected; it is kept when the socket is closed, for what was sent. -/
  channel : Option Channel
  socketOpen : Bool
  deriving DecidableEq, Repr

namespace Trip

def start : Trip :=
  ⟨.connecting .first .unpolled, none, false⟩

def sent (t : Trip) : Bytes :=
  match t.channel with
  | some c => c.wire.sent
  | none => []

def standing (t : Trip) (s : Stage) : Trip :=
  { t with stage := s }

/-- The trip at another stage with another channel. -/
def standingOn (t : Trip) (s : Stage) (c : Channel) : Trip :=
  { t with stage := s, channel := some c }

/-- The text of a response line: without its delimiter, with replacements for what is no text. -/
def responseText (line : Bytes) : String :=
  String.ofList (Utf8.decodeLossy (Line.dropLast Line.delimiter line))

/-- No socket can be opened: the trip is over before it looks at its latch. -/
def refuse (e : IoError) (t : Trip) : Option Trip :=
  match t.stage with
  | .connecting _ .unpolled => some (t.standing (.closing (.failed (.connect e))))
  | _ => none

/-- Looks at the latch, and then at what came of connecting, if anything did. -/
def connect (k : Ticket) (result : Option (Except IoError Wire)) (t : Trip) : Option Trip :=
  match t.stage with
  | .connecting s wait =>
      -- The latch is looked at first, even when there is a connection already.
      match s.poll k.latch wait with
      | (_, none) => some (t.standing (.closing .cancelled))
      | (s, some wait) =>
          match result with
          | none => some (t.standing (.connecting s wait))
          | some (.error e) => some (t.standing (.closing (.failed (.connect e))))
          | some (.ok w) => some ⟨.connected, some (.ofWire w s), true⟩
  | _ => none

/-- The next stage, unless the flag is set. -/
def checkpoint (k : Ticket) (s : Stage) : Stage :=
  if k.cancelled then .closing .cancelled else s

/-- One write of `rest`, or the flush behind the last. -/
def writeStep (rest : Bytes) (c : Channel) : Stage × Wire :=
  match rest with
  | [] =>
      -- An empty payload is flushed as well.
      match c.wire.flush with
      | (w, none) => (.written, w)
      | (w, some e) => (.closing (.failed (.write e)), w)
  | b :: bs =>
      match c.wire.take (b :: bs) with
      | (w, .left rest) => (.writing rest, w)
      | (w, .blocked) => (.writing (b :: bs), w)
      | (w, .failed e) => (.closing (.failed (.write e)), w)

def searchStep (c : Channel) : Stage × Channel :=
  match c.offer Line.delimiter with
  | (c, .line line) => (.closing (.text (responseText line)), c)
  | (c, .full) => (.closing (.ofError .read .bufferFull), c)
  | (c, .more) => (.awaiting .unpolled, c)

def awaitStep (k : Ticket) (wait : Wait) (c : Channel) : Stage × Channel :=
  match c.await k.latch wait with
  | (c, .arrived) => (.searching, c)
  | (c, .pending wait) => (.awaiting wait, c)
  | (c, .failed e) => (.closing (.ofError .read e), c)

/-- One step between connecting and the end of reading. -/
def step (k : Ticket) (t : Trip) : Option Trip :=
  match t.channel with
  | none => none
  | some c =>
      match t.stage with
      | .connected => some (t.standing (checkpoint k (.writing k.payload)))
      | .writing rest =>
          let (s, w) := writeStep rest c
          some (t.standingOn s { c with wire := w })
      | .written => some (t.standing (checkpoint k .searching))
      | .searching =>
          let (s, c) := searchStep c
          some (t.standingOn s c)
      | .awaiting wait =>
          let (s, c) := awaitStep k wait c
          some (t.standingOn s c)
      | _ => none

def close (t : Trip) : Option Trip :=
  match t.stage with
  | .closing e => some { t with stage := .retiring e, socketOpen := false }
  | _ => none

/-- Something is added to the script of the trip's stream. -/
def onWire (f : Wire → Wire) (t : Trip) : Trip :=
  { t with channel := t.channel.map fun c => { c with wire := f c.wire } }

end Trip
end LineExchange
