import LineExchange.Program.Program

/-!
# Main — the command line

A call shows its output, logs, and returns its code.  A server sets its banner off by an empty line
and runs until its input ends.  The machine is taken to have no route to any destination.
-/

namespace LineExchange
namespace Main

/-- The number of processors that the system lists; one if it lists none. -/
def processors : IO Nat := do
  let listing ← try IO.FS.readFile "/proc/cpuinfo" catch _ => pure ""
  let n := (listing.splitOn "\n").countP fun line => line.startsWith "processor"
  return max n 1

/-- Reads until the input ends. -/
partial def waitForEnd (input : IO.FS.Stream) : IO Unit := do
  let line ← input.getLine
  if line.isEmpty then return
  waitForEnd input

end Main
end LineExchange

open LineExchange in
def main (arguments : List String) : IO UInt32 := do
  let result := Program.call Host.isolated (← Main.processors) "*" arguments
  IO.print result.output
  IO.eprint result.errors
  for notice in result.log do
    IO.println (notice.level ++ " " ++ notice.text)
  if result.server.isSome then
    IO.println ""
    Main.waitForEnd (← IO.getStdin)
  return result.exitCode
