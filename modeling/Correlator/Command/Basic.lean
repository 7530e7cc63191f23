import Correlator.Command.Survey

/-!
# The command

`Command.execute` makes a survey from the arguments and says how the command ends.
-/

namespace Correlator
namespace Command

def help : String :=
  "Decode software correlator output and report per-baseline fringe statistics.\n\n" ++
  "Usage: correlator [OPTIONS] <INPUT>\n\n" ++
  "  --dry-run                       just print the summary and exit\n" ++
  "  --no-draw-progress              do not show progress\n" ++
  "  --autos                         also report auto-correlation amplitudes\n" ++
  "  --guard <FRACTION>              lags left out of the noise on either side of the fringe\n" ++
  "  --offset-convention <SCALE>     oversampled or nyquist\n" ++
  "  --station-names <NAMES>...      station names, in station index order\n" ++
  "  --source-names <NAMES>...       source names, in source index order\n" ++
  "  -h, --help                      print this text\n" ++
  "  -V, --version                   print the version\n"

def version : String := "correlator 0.1.0\n"

/-- How the command ends when no survey is made. -/
def refuse : SurveyError → Exit
  | .dryRun => { status := 0 }
  | .usage .helpWanted => { status := 0, printed := some help }
  | .usage .versionWanted => { status := 0, printed := some version }
  | .usage _ => { status := 1, complaint := some help }
  | reason => { status := 1, complaint := some s!"error parsing args: {reason.message}" }

/-- How the command ends after a survey. -/
def conclude : Except SurveyError Nat → Exit
  | .ok _ => { status := 0 }
  | .error reason => { status := 1, complaint := some s!"decoding error: {reason.message}" }

/-- What the command logs at its end. -/
def farewell : Except SurveyError Nat → List LogLine
  | .ok slices => [⟨.info, s!"decoded {slices} time slices"⟩]
  | .error .dryRun => [⟨.info, "Dry run. No time slices will be decoded."⟩]
  | .error _ => []

def execute (openPath : OpenPath) (arguments : List String) (transform : Transform := .inverse) :
    List LogLine × Exit :=
  match Survey.prepare openPath arguments with
  | (lines, .error reason) => (lines ++ farewell (.error reason), refuse reason)
  | (lines, .ok survey) =>
    let (more, outcome) := survey.run openPath transform
    (lines ++ more ++ farewell outcome, conclude outcome)

end Command
end Correlator
