import Correlator.Command.Arguments
import Correlator.Command.Folder
import Correlator.Decimal.Reader
import Correlator.Report.Slice
import Correlator.Text.Quoted

/-!
# Surveys

A survey goes through a recording and reports every slice.  `Survey.prepare` decides
from the arguments and the header what is to be done, `Survey.run` does it.
-/

namespace Correlator

/-- Why a survey is not made, or not finished. -/
inductive SurveyError
  | usage (reason : UsageError)
  | guardOutOfRange (received : Float)
  | cannotOpen (reason : OpenError)
  | decode (reason : DecodeError)
  /-- Only the summary was asked for. -/
  | dryRun
deriving DecidableEq

structure Survey where
  input : String
  header : Header
  settings : Settings
  style : ReportStyle
  /-- Whether progress may be shown. -/
  progress : Bool
deriving DecidableEq

/-- What the command logs, and how it ends. -/
abbrev Logged (α : Type) := List LogLine × Except SurveyError α

namespace Survey

/-- The guard fraction from the arguments: the default, or what was given if that is a
number and leaves some lags over. -/
def guardOf (a : Arguments) : Except SurveyError Float :=
  match (a.values .guard).head? with
  | none => .ok defaultGuard
  | some text =>
    match Decimal.read? text with
    | none => .error (.usage (.notANumber text))
    | some guard => if 0 ≤ guard ∧ guard < 0.5 then .ok guard else .error (.guardOutOfRange guard)

def scaleOf (a : Arguments) : OffsetScale :=
  if (a.values .offsetScale).head? = some "oversampled" then .oversampled else .nyquist

/-- One of the two lists of names: that of the header, unless another is given. -/
def chooseNames (a : Arguments) (o : CommandOption) (what : String) (embedded : List String) :
    List LogLine × List String :=
  if a.isGiven o then
    (if embedded.isEmpty then [] else
      [⟨.info, s!"Overriding {what} names from the global header."⟩], a.values o)
  else ([], embedded)

def layoutText (h : Header) : String :=
  match h.job? with
  | none => s!"Global header is {h.size} bytes, with no branch or name table."
  | some job =>
    s!"Global header is {h.size} bytes, job {job.number.toInt}.{job.part.toInt} " ++
      s!"of branch {Quoted.text job.branch}."

def scaleText : OffsetScale → String
  | .oversampled => "oversampled"
  | .nyquist => "Nyquist"

/-- What the survey is going to do. -/
def summary (s : Survey) : String :=
  s!"Reading correlator output from {s.input}\n" ++
  s!"{s.header.summary}\n" ++
  s!"{layoutText s.header}\n" ++
  s!"Integration time is {Decimal.plain (Float.ofInt s.header.integration.toInt / 1e6)}s, " ++
    s!"output format version {s.header.formatVersion.toInt}.\n" ++
  s!"Will label {s.style.names.stations.length} stations and " ++
    s!"{s.style.names.sources.length} sources by name.\n" ++
  s.settings.text ++
  s!"Will report fringe offsets in {scaleText s.style.scale} lags.\n" ++
  (if s.progress then "Will" else "Will not") ++ " draw progress bars.\n"

/-- The input and the settings that the arguments ask for. -/
def request (arguments : List String) : Except SurveyError (Arguments × String × Settings) :=
  match Arguments.parse arguments with
  | .error reason => .error (.usage reason)
  | .ok a =>
    match guardOf a with
    | .error reason => .error reason
    | .ok guard =>
      .ok (a, a.input.getD "", { autos := a.isGiven .autos, guardFraction := guard })

/-- Read the arguments and then the header of the input. -/
def prepare (openPath : OpenPath) (arguments : List String) : Logged Survey :=
  match request arguments with
  | .error reason => ([], .error reason)
  | .ok (a, input, settings) =>
    match openPath input with
    | .error reason => ([], .error (.cannotOpen reason))
    | .ok source =>
      match Header.read source with
      | .error reason _ => ([], .error (.decode reason))
      | .ok header _ =>
        let embedded := header.names?.getD {}
        let (stationLines, stations) :=
          chooseNames a .stationNames "station" embedded.stations
        let (sourceLines, sources) := chooseNames a .sourceNames "source" embedded.sources
        let survey : Survey :=
          { input, header, settings
            style := ⟨⟨stations, sources⟩, scaleOf a⟩
            progress := !a.isGiven .noProgress }
        (⟨.debug, header.notice⟩ :: stationLines ++ sourceLines ++ [⟨.info, survey.summary⟩],
          if a.isGiven .dryRun then .error .dryRun else .ok survey)

/-- The report of a slice in the log. -/
def sliceLines (s : Survey) (slice : Slice) : List LogLine :=
  (s.style.report slice (s.header.sliceLabel slice.number)).map ReportLine.line

def droppingLine (reason : DecodeError) : LogLine :=
  ⟨.warn, s!"Dropping the final, incomplete time slice: {reason.message}"⟩

def endLine (slices : Nat) : LogLine :=
  ⟨.info, s!"Reached end of file after {slices} time slices"⟩

/-- How a survey ends after some slices, with a failure or without.  A slice that the end
of the stream cuts off is dropped, any other failure is passed on. -/
def ending (slices : Nat) : Option DecodeError → Logged Nat
  | none => ([endLine slices], .ok slices)
  | some reason =>
    if reason.isEndOfStream then ([droppingLine reason, endLine slices], .ok slices)
    else ([], .error (.decode reason))

/-- Decode slice after slice into the tally that is kept, and report each of them. -/
def walk (s : Survey) (d : Decoder) (kept : Tally) : Logged Nat :=
  let found := d.nextInto kept
  let happened := found.1.events.filterMap Event.line?
  match _h : found.1.result with
  | .ok (some number) =>
    let (later, outcome) := s.walk found.1.decoder found.2
    (happened ++ s.sliceLines ⟨number, found.2⟩ ++ later, outcome)
  | .ok none =>
    let (last, outcome) := ending found.1.decoder.slices none
    (happened ++ last, outcome)
  | .error reason =>
    let (last, outcome) := ending found.1.decoder.slices (some reason)
    (happened ++ last, outcome)
termination_by d.left
decreasing_by exact d.left_next_lt _h

/-- Decode every slice and report it. -/
def run (openPath : OpenPath) (s : Survey) (transform : Transform := .inverse) : Logged Nat :=
  match openPath s.input with
  | .error reason => ([], .error (.cannotOpen reason))
  | .ok source =>
    match source.seek s.header.size with
    | (.error reason, _) => ([], .error (.cannotOpen (.other reason)))
    | (.ok (), source) =>
      let decoder := Decoder.start s.header s.settings source transform
      s.walk decoder (.empty decoder.stations)

end Survey

/-- How the command ends: its exit status, what it says about it on the error stream,
and what it prints. -/
structure Exit where
  status : Nat
  complaint : Option String := none
  printed : Option String := none
deriving DecidableEq, Repr

namespace SurveyError

def message : SurveyError → String
  | .usage _ => "invalid arguments"
  | .guardOutOfRange received =>
    "Invalid Command Line Argument --guard <FRACTION>. Expected a fraction in [0, 0.5), " ++
      s!"received {Decimal.plain received}"
  | .cannotOpen reason => reason.message
  | .decode reason => reason.message
  | .dryRun => "Dry run"

end SurveyError
end Correlator
