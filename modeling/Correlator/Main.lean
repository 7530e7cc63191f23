import Correlator.Command.Basic

/-!
# The program

Opens the input, lets the command do its work, and prints.
-/

section

open Correlator

/-- The error code of reading a folder.  Those of opening have another sign. -/
def readsFolder : UInt32 := 21

/-- The input as a source, or why it does not open. -/
def openFile (path : String) : IO (Except OpenError Source) := do
  if path.contains '\x00' then return .error .invalidName
  try
    let bytes ← IO.FS.readBinFile path
    return .ok { bytes := bytes.data }
  catch
    | .noFileOrDirectory .. => return .error .notFound
    | .permissionDenied .. => return .error .denied
    | .inappropriateType _ code _ =>
      return if code = readsFolder then .ok folderSource else .error .notAFolder
    | .invalidArgument .. => return .error .nameTooLong
    | reason => return .error (.other reason.toString)

def main (arguments : List String) : IO UInt32 := do
  let opened ← match Survey.request arguments with
    | .ok (_, input, _) => openFile input
    | .error _ => pure (.error .notFound)
  let (lines, ending) := Command.execute (fun _ => opened) arguments
  for line in lines do
    if line.level != .debug then IO.eprintln line.text
  if let some text := ending.complaint then IO.eprintln text
  if let some text := ending.printed then IO.print text
  return ending.status.toUInt32

end
