import ZeroProxy.Text.Basic

/-!
# Errors of input and output

The errors that the streams of the kernel return (`std::io::Error`): a kind and a message.
-/

namespace ZeroProxy.Kernel

open Text

/-- `io::ErrorKind`, the kinds that the kernel uses. -/
inductive ErrorKind
  | invalidData
  | invalidInput
  | permissionDenied
  | connectionAborted
  | connectionReset
  | connectionRefused
  | networkUnreachable
  | hostUnreachable
  | timedOut
  | unsupported
  | brokenPipe
  | unexpectedEof
  | other

/-- An error of a stream. -/
structure IoError where
  kind : ErrorKind
  message : Text

end ZeroProxy.Kernel
