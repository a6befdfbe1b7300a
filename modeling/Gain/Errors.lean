import Mathlib.Init

/-! # Error values

The errors returned by the modelled functions, one constructor per error
variable of the server and of the standard library that they use. An error
built with a format string keeps the formatted arguments, and an error wrapped
with a message keeps the message and the wrapped error.
-/

namespace Gain

inductive Error where
  /-- `errors.ErrIsEmpty` -/
  | isEmpty
  /-- `errors.ErrConnectionAlreadyClosed` -/
  | connectionAlreadyClosed
  /-- `errors.ErrConnectionClosed` -/
  | connectionClosed
  /-- `errors.ErrorOpNotAvailableInMode` -/
  | opNotAvailableInMode (op mode : String)
  /-- `errors.ErrorUnknownConnectionState` -/
  | unknownConnectionState (state : Nat)
  /-- `errors.ErrGettingSQE` -/
  | gettingSQE
  /-- `errors.ErrConnectionQueueIsNil` -/
  | connectionQueueIsNil
  /-- `errors.ErrNotSupported` -/
  | notSupported
  /-- `errors.ErrUnsupportedProtocol` -/
  | unsupportedProtocol
  /-- `errors.ErrUnsupportedTCPProtocol` -/
  | unsupportedTCPProtocol
  /-- `errors.ErrUnsupportedUDPProtocol` -/
  | unsupportedUDPProtocol
  /-- `errors.ErrInvalidState` -/
  | invalidState
  /-- `errors.ErrServerAlreadyRunning` -/
  | serverAlreadyRunning
  /-- `errors.ErrSkippable` -/
  | skippable
  /-- `io.EOF` -/
  | eof
  /-- `io.ErrShortBuffer` -/
  | shortBuffer
  /-- `io.ErrShortWrite` -/
  | shortWrite
  /-- `net.AddrError` -/
  | addrError (err : String) (addr : List Char)
  /-- An error of the environment: a failed system call, a reader or a writer. -/
  | external (code : Nat)
  /-- `fmt.Errorf(message + ": %w", err)` -/
  | wrapped (message : String) (err : Error)
  deriving DecidableEq, Repr

end Gain
