import LineExchange.Settings

/-!
# CommandLine — what the arguments of the program ask for

The arguments are an optional mode, then options with one value each; two words end the reading
at once.  This file defines:

* `Mode` — serving or sending, with the options of each;
* `Draft` — the settings read so far, and `Draft.set?`, what one option does to them;
* `Command.ofArguments` — the command that a list of arguments asks for, or why it asks for none.

Values are looked at where they stand, and an option that is given twice takes its last value.
Only after the last argument is it checked that a server's host is an address and that a client
has something to send.
-/

namespace LineExchange

inductive Command where
  | serve (settings : ServerSettings)
  | send (settings : ClientSettings)
  | help
  | version
  deriving DecidableEq, Repr

inductive Mode where
  | server
  | client
  deriving DecidableEq, Repr

namespace Mode

/-- The argument that chooses a mode. -/
def name : Mode → String
  | .server => "server"
  | .client => "client"

def flags : Mode → List Flag
  | .server => [.host, .port, .threads, .delay]
  | .client => [.endpoint, .request, .threads]

/-- The option of a mode that a word spells. -/
def flag? (m : Mode) (word : String) : Option Flag :=
  m.flags.find? fun f => word == f.long || word == f.short

end Mode

inductive Draft where
  | server (settings : ServerSettings)
  /-- The settings, with the requests that come behind those of the settings, last first. -/
  | client (settings : ClientSettings) (given : List String)
  deriving DecidableEq, Repr

namespace Draft

def mode : Draft → Mode
  | .server _ => .server
  | .client .. => .client

/-- A positive count of at most 64 bits. -/
def count? (value : String) : Option Nat :=
  (Numeral.natural? UInt64.size value.toList).filter (0 < ·)

/-- The settings after the option `f` with `value`; nothing when it does not take that value. -/
def set? (f : Flag) (value : String) : Draft → Option Draft
  | .server s =>
      match f with
      | .host => some (.server { s with host := value })
      | .port =>
          (Numeral.natural? UInt16.size value.toList).map fun n =>
            .server { s with port := .ofNat n }
      | .threads => (count? value).map fun n => .server { s with threads := n }
      | .delay =>
          (Numeral.natural? UInt64.size value.toList).map fun n =>
            .server { s with delayMs := .ofNat n }
      | .endpoint | .request => none
  | .client s given =>
      match f with
      | .endpoint => (Endpoint.ofText? value).map fun e => .client { s with endpoint := e } given
      | .request => some (.client s (value :: given))
      | .threads => (count? value).map fun n => .client { s with threads := n } given
      | .host | .port | .delay => none

def finish : Draft → Except SettingsError Command
  | .server s => s.bindAddress.map fun _ => .serve s
  | .client s given =>
      let s := { s with requests := s.requests ++ given.reverse }
      if s.requests.isEmpty then .error .noRequests else .ok (.send s)

/-- Reads options into settings. -/
def read (d : Draft) : List String → Except SettingsError Command
  | [] => d.finish
  | word :: words =>
      match d.mode.flag? word with
      | some f =>
          match words with
          | [] => .error (.missingValue f)
          | value :: rest =>
              match d.set? f value with
              | some d' => d'.read rest
              | none => .error (.invalidValue f value)
      | none =>
          if word == "--help" then .ok .help
          else if word == "--version" || word == "-v" then .ok .version
          else .error (.unknownArgument word)

end Draft

/-- What the arguments of the program ask for, on a machine with `processors` processors. -/
def Command.ofArguments (processors : Nat) (arguments : List String) :
    Except SettingsError Command :=
  let server := Draft.server (ServerSettings.standard processors)
  match arguments with
  | word :: rest =>
      if word == Mode.client.name then (Draft.client ClientSettings.standard []).read rest
      else if word == Mode.server.name then server.read rest
      else server.read arguments
  | [] => server.read []

end LineExchange
