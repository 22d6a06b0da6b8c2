import LineExchange.Net.Address.Reader

/-!
# Settings — what a server and a client are told, and what they assume

This file defines:

* `ServerSettings`, `ClientSettings` — the settings, with their defaults;
* `SettingsError` — why settings or arguments are refused, and the texts;
* `ServerSettings.bindAddress` — the endpoint that a server listens on.

A server's default number of threads is twice the number of processors that it may use.
-/

namespace LineExchange

/-- The options of the command line that take a value. -/
inductive Flag where
  | host
  | port
  | threads
  | delay
  | endpoint
  | request
  deriving DecidableEq, Repr

namespace Flag

def long : Flag → String
  | .host => "--host"
  | .port => "--port"
  | .threads => "--threads"
  | .delay => "--delay-ms"
  | .endpoint => "--endpoint"
  | .request => "--request"

def short : Flag → String
  | .host => "-h"
  | .port => "-p"
  | .threads => "-t"
  | .delay => "-d"
  | .endpoint => "-e"
  | .request => "-r"

end Flag

inductive SettingsError where
  | missingValue (flag : Flag)
  | invalidValue (flag : Flag) (value : String)
  | unknownArgument (argument : String)
  | invalidHost (host : String)
  | noRequests
  deriving DecidableEq, Repr

namespace SettingsError

/-- The text of a refusal; an option is named by its long spelling. -/
def message : SettingsError → String
  | .missingValue f => f.long ++ " requires a value"
  | .invalidValue f v => "invalid value '" ++ v ++ "' for " ++ f.long
  | .unknownArgument a => "unknown argument: " ++ a
  | .invalidHost h => "invalid host address: " ++ h
  | .noRequests => "client mode needs at least one --request"

end SettingsError

/-- The host that a server listens on by default. -/
def defaultHost : String := "127.0.0.1"

/-- The port of the protocol. -/
def defaultPort : UInt16 := 3333

/-- What a server is told. -/
structure ServerSettings where
  host : String
  /-- Zero lets the system choose. -/
  port : UInt16
  threads : Nat
  /-- How long every request is worked on before its answer, in milliseconds. -/
  delayMs : UInt64
  deriving DecidableEq, Repr

namespace ServerSettings

/-- The settings of a server on a machine with `processors` processors. -/
def standard (processors : Nat) : ServerSettings where
  host := defaultHost
  port := defaultPort
  threads := 2 * processors
  delayMs := 500

/-- The endpoint that a server listens on. -/
def bindAddress (s : ServerSettings) : Except SettingsError Endpoint :=
  match IpAddr.ofText? s.host with
  | some ip => .ok (.ofIp ip s.port)
  | none => .error (.invalidHost s.host)

end ServerSettings

/-- What a client is told. -/
structure ClientSettings where
  threads : Nat
  endpoint : Endpoint
  /-- The lines to send, without their delimiters. -/
  requests : List String
  deriving DecidableEq, Repr

namespace ClientSettings

def standard : ClientSettings where
  threads := 4
  endpoint := .v4 .loopback defaultPort
  requests := []

end ClientSettings
end LineExchange
