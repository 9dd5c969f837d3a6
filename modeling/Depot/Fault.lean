/-! # Faults of the outside world

What a stream, a file or a socket reports when it fails, and the words for it. -/

namespace Depot

inductive SystemError where
  | notFound
  | accessDenied
  | notDirectory
  | isDirectory
  | invalidArgument
  | nameTooLong
  | addressInUse
  | addressNotAvailable
  | networkUnreachable
  | connectionRefused
  deriving Repr, DecidableEq

namespace SystemError

/-- The number the system gives the refusal. -/
def code : SystemError → Nat
  | .notFound => 2
  | .accessDenied => 13
  | .notDirectory => 20
  | .isDirectory => 21
  | .invalidArgument => 22
  | .nameTooLong => 36
  | .addressInUse => 98
  | .addressNotAvailable => 99
  | .networkUnreachable => 101
  | .connectionRefused => 111

def text : SystemError → String
  | .notFound => "No such file or directory"
  | .accessDenied => "Permission denied"
  | .notDirectory => "Not a directory"
  | .isDirectory => "Is a directory"
  | .invalidArgument => "Invalid argument"
  | .nameTooLong => "File name too long"
  | .addressInUse => "Address already in use"
  | .addressNotAvailable => "Cannot assign requested address"
  | .networkUnreachable => "Network is unreachable"
  | .connectionRefused => "Connection refused"

end SystemError

inductive Fault where
  /-- The stream ended where a value was due. -/
  | endOfStream
  /-- The stream ended inside a value. -/
  | bytesRemaining
  | brokenPipe
  /-- Nothing comes, and the stream does not end either: who waits for it waits for ever. -/
  | silence
  | connectionReset
  /-- The operation does not fit the state it met. -/
  | invalidInput
  | unsupported
  | zeroInName
  | zeroInPath
  | longPath
  | longSocketName
  | unresolved
  | system (e : SystemError)
  deriving Repr, DecidableEq

def Fault.message : Fault → String
  | .endOfStream => "unexpected end of file"
  | .bytesRemaining => "bytes remaining on stream"
  | .brokenPipe => "broken pipe"
  | .silence => "no answer"
  | .connectionReset => "connection reset"
  | .invalidInput => "invalid input parameter"
  | .unsupported => "unsupported"
  | .zeroInName => "file name contained an unexpected NUL byte"
  | .zeroInPath => "paths must not contain interior null bytes"
  | .longPath => "path must be shorter than SUN_LEN"
  | .longSocketName => "abstract socket name must be shorter than SUN_LEN"
  | .unresolved =>
    "failed to lookup address information: Temporary failure in name resolution"
  | .system e => e.text ++ " (os error " ++ toString e.code ++ ")"

end Depot
