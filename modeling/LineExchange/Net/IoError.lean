import LineExchange.Net.SystemError

/-!
# IoError — errors of input and output

An error comes from the operating system with a number, is known by its kind alone, or has a
kind and a text of its own.  This file defines `IoError` with its kind and its message.
-/

namespace LineExchange

/-- An error of input or output. -/
inductive IoError where
  /-- The operating system reported the number `code`. -/
  | system (code : Int)
  /-- Only the kind is known. -/
  | bare (kind : IoKind)
  /-- The error has a text of its own. -/
  | custom (kind : IoKind) (text : String)
  deriving DecidableEq, Repr

namespace IoError

/-- The kind of an error. -/
def kind : IoError → IoKind
  | .system code => SystemError.kind code
  | .bare k => k
  | .custom k _ => k

/-- The text of an error. -/
def message : IoError → String
  | .system code => SystemError.text code ++ " (os error " ++ toString code ++ ")"
  | .bare k => k.description
  | .custom _ t => t

end IoError
end LineExchange
