import LineExchange.Net.IoError

/-!
# ChannelError — why an operation on a channel ends without its result

This file defines `ChannelError`, its message, and `ChannelError.toIoError`, the plain error that
says the same.
-/

namespace LineExchange

/-- Why an operation on a channel ends without its result. -/
inductive ChannelError where
  /-- Reading or writing failed. -/
  | io (error : IoError)
  /-- The latch was raised. -/
  | cancelled
  /-- No delimiter came before the end. -/
  | endOfStream
  /-- Too many bytes came without a delimiter. -/
  | bufferFull
  deriving DecidableEq, Repr

namespace ChannelError

/-- The text of an error. -/
def message : ChannelError → String
  | .io e => "I/O error: " ++ e.message
  | .cancelled => "operation cancelled"
  | .endOfStream => "unexpected end of stream"
  | .bufferFull => "buffer size limit exceeded"

/-- Whether the operation was cancelled. -/
def isCancelled : ChannelError → Bool
  | .cancelled => true
  | _ => false

/-- The plain error that says the same. -/
def toIoError : ChannelError → IoError
  | .io e => e
  | .cancelled => .custom .interrupted "operation cancelled"
  | .endOfStream => .bare .unexpectedEof
  | .bufferFull => .custom .invalidData "buffer size limit exceeded"

end ChannelError
end LineExchange
