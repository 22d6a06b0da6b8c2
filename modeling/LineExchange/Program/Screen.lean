import LineExchange.Client.Outcome
import LineExchange.Settings

/-!
# Screen — what the program shows

This file holds the texts of the program:

* `Screen.help`, `Screen.version` — what it shows about itself;
* `Screen.banner` — what a server shows when it is ready;
* `Notice`, `Screen.notice` — what a client logs about a request.
-/

namespace LineExchange

/-- A line of the log, with its level. -/
structure Notice where
  level : String
  text : String
  deriving DecidableEq, Repr

namespace Screen

/-- The program's version. -/
def versionNumber : String := "0.1.0"

/-- Lines of text, each with its end. -/
def page (lines : List String) : String :=
  String.join (lines.map (· ++ "\n"))

/-- How the program is used. -/
def help : String :=
  page
    [ "",
      "Lifeline - Request/Response TCP Server and Cancellable Client",
      "",
      "USAGE:",
      "    lifeline [server] [OPTIONS]",
      "    lifeline client --request <LINE> [--request <LINE> ...] [OPTIONS]",
      "",
      "SERVER OPTIONS:",
      "    -h, --host <HOST>        Host to bind to (default: 127.0.0.1)",
      "    -p, --port <PORT>        Port to listen on (default: 3333)",
      "    -t, --threads <N>        Worker threads (default: 2 x CPU count)",
      "    -d, --delay-ms <MS>      Delay spent on every request (default: 500)",
      "",
      "CLIENT OPTIONS:",
      "    -e, --endpoint <ADDR>    Server address (default: 127.0.0.1:3333)",
      "    -r, --request <LINE>     Request to send; repeat for more requests",
      "    -t, --threads <N>        Worker threads (default: 4)",
      "",
      "COMMON:",
      "    -v, --version            Print version information",
      "        --help               Print this help message",
      "",
      "PROTOCOL:",
      "    PING                     -> PONG",
      "    ECHO <text>              -> <text>",
      "    EMULATE_LONG_CALC_OP <s> -> OK after <s> seconds",
      "",
      "EXAMPLES:",
      "    lifeline server --port 3333 --delay-ms 0",
      "    lifeline client -r PING -r \"ECHO hello\" -r \"EMULATE_LONG_CALC_OP 2\"",
      "" ]

/-- The program's name and version. -/
def version : String :=
  page ["Lifeline version " ++ versionNumber]

/-- The line under the title of the banner. -/
def rule : String :=
  String.ofList (List.replicate 62 '─')

/-- What a server shows that listens at `address`. -/
def banner (s : ServerSettings) (address : String) : String :=
  page
    [ "",
      "Lifeline v" ++ versionNumber,
      rule,
      "Server started on " ++ address,
      "Worker threads: " ++ toString s.threads ++ ", delay per request: "
        ++ toString s.delayMs.toNat ++ " ms",
      "Ready to accept connections.",
      "",
      "Use Ctrl+C to stop." ]

/-- What is shown of arguments that are refused. -/
def refusal (e : SettingsError) : String :=
  page ["Error: " ++ e.message]

/-- What a client logs about the request `id`. -/
def notice (id : UInt32) : Outcome → Notice
  | .response text =>
      ⟨"INFO", "Request #" ++ toString id.toNat ++ " has completed. Response: " ++ text⟩
  | .failed .cancelled =>
      ⟨"INFO", "Request #" ++ toString id.toNat ++ " has been cancelled by the user."⟩
  | .failed e =>
      ⟨"ERROR", "Request #" ++ toString id.toNat ++ " failed! Error message: " ++ e.message⟩

end Screen
end LineExchange
