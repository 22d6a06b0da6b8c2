import LineExchange.Client.Run
import LineExchange.CommandLine
import LineExchange.Program.Screen
import LineExchange.Server.Run

/-!
# Program — what a call of the program does on a host

This file defines:

* `Program.Result` — what a call shows, logs and returns, and the server that it leaves running;
* `Program.send` — each request on its own, numbered from one, until all are reported;
* `Program.serve` — a server that is ready, or why there is none;
* `Program.call` — the call with a list of arguments.
-/

namespace LineExchange
namespace Program

/-- What a call of the program does. -/
structure Result where
  output : String
  errors : String
  log : List Notice
  exitCode : UInt32
  /-- The server that runs until it is interrupted. -/
  server : Option Server
  deriving Repr

/-- A call that shows `output` and succeeds. -/
def Result.shown (output : String) : Result :=
  ⟨output, "", [], 0, none⟩

/-- A call that logs an error and fails. -/
def Result.failed (text : String) : Result :=
  ⟨"", "", [⟨"ERROR", text⟩], 1, none⟩

/-- The submission of request `number` with the text `line`. -/
def submission (s : ClientSettings) (number : Nat) (line : String) : Submission where
  id := .ofNat number
  endpoint := s.endpoint
  payload := Utf8.ofString line ++ [Line.delimiter]
  again := []

/-- Sends every request and waits until all are reported. -/
def send (h : Host) (s : ClientSettings) : Result :=
  match Client.start? s.threads with
  | .error e => .failed ("failed to start client: " ++ e.message)
  | .ok c =>
      let steps := s.requests.mapIdx fun i line => Client.Step.submit (submission s (i + 1) line)
      match (Client.run h (.ofClient c) (steps ++ [.shutdown])).getLast? with
      | some (.reports rs) => ⟨"", "", rs.map fun r => Screen.notice r.id r.outcome, 0, none⟩
      | _ => ⟨"", "", [], 0, none⟩

/-- An error of a server with the error that caused it. -/
def chain : ServerError → String
  | .crew e => (ServerError.crew e).message ++ ": " ++ e.message
  | .listener (.bind e) => (ServerError.listener (.bind e)).message ++ ": " ++ e.message
  | e => e.message

/-- The address of a server, where a port that the system chose is written `port`. -/
def addressText (port : String) (e : Endpoint) : String :=
  if e.port = 0 then e.hostText ++ ":" ++ port else e.text

/-- Starts a server. -/
def serve (h : Host) (port : String) (s : ServerSettings) : Result :=
  match Server.start? answerLine h s with
  | .error e => .failed ("failed to start server: " ++ chain e)
  | .ok server =>
      let address := (server.listener.localAddress.map (addressText port)).getD ""
      ⟨Screen.banner s address, "", [], 0, some server⟩

/-- The call with `arguments`, on a host with `processors` processors, where a port that the
system chooses is written `port`. -/
def call (h : Host) (processors : Nat) (port : String) (arguments : List String) : Result :=
  match Command.ofArguments processors arguments with
  | .error e => ⟨Screen.help, Screen.refusal e, [], 1, none⟩
  | .ok .help => .shown Screen.help
  | .ok .version => .shown Screen.version
  | .ok (.serve s) => serve h port s
  | .ok (.send s) => send h s

end Program
end LineExchange
