import Pratt.Command

set_option autoImplicit false

/-!
# The program

Carries out the command line with the standard input and the files of the
system, and writes the outcome.
-/

namespace Pratt

/-- Reads all bytes of a stream. -/
partial def readAll (stream : IO.FS.Stream) (read : ByteArray := .empty) :
    IO ByteArray := do
  let chunk ← stream.read 65536
  if chunk.isEmpty then return read else readAll stream (read ++ chunk)

/-- The fault of a refusal, the number of which may come negated. -/
def refusal (reason : String) (number : UInt32) : ReadFault :=
  .refused reason.capitalize (min number (-number)).toNat

/-- The fault that an error of the system tells. -/
def faultOf : IO.Error → ReadFault
  | .noFileOrDirectory _ number reason
  | .interrupted _ number reason
  | .alreadyExists _ number reason
  | .invalidArgument _ number reason
  | .permissionDenied _ number reason
  | .resourceExhausted _ number reason
  | .inappropriateType _ number reason
  | .noSuchThing _ number reason
  | .otherError number reason
  | .resourceBusy number reason
  | .resourceVanished number reason
  | .unsupportedOperation number reason
  | .hardwareFault number reason
  | .unsatisfiedConstraints number reason
  | .illegalOperation number reason
  | .protocolError number reason
  | .timeExpired number reason => refusal reason number
  | .unexpectedEof => refusal "unexpected end of file" 0
  | .userError reason => refusal reason 0

/-- Reads bytes, or tells why there are none. -/
def readBytes (bytes : IO ByteArray) : IO (Except ReadFault ByteArray) := do
  try
    return .ok (← bytes)
  catch error =>
    return .error (faultOf error)

end Pratt

/-- Carries out the command line. -/
def main (arguments : List String) : IO UInt32 := do
  let outcome ← Pratt.Command.perform
    (Pratt.readBytes do Pratt.readAll (← IO.getStdin))
    (fun path => Pratt.readBytes (IO.FS.readBinFile path)) arguments
  IO.print outcome.stdout
  IO.eprint outcome.stderr
  return outcome.code.toUInt32
