import Correlator.Proofs.Transcript.Blocks
import Correlator.Proofs.Transcript.Records

/-!
# Transcripts

A transcript is a recording decoded without a stream and in two passes.  `ofBytes` reads
one run after the other, with all the bytes at hand; `outcomes` then puts adjacent runs
of the same slice together.
-/

namespace Correlator

inductive Ending
  /-- Too few bytes are left for another header. -/
  | clean (left : Nat)
  /-- A header is there, but its records cannot be read. -/
  | broken (slice : Int32) (reason : DecodeError)
  /-- A header is there and declares a negative number of records. -/
  | corrupt (reason : DecodeError)
deriving DecidableEq

structure Transcript where
  runs : List Run
  ending : Ending
deriving DecidableEq

namespace Transcript

def cons (run : Run) (t : Transcript) : Transcript := ⟨run :: t.runs, t.ending⟩

/-- The first pass. -/
def ofBytes (channels : Nat) (bytes : List UInt8) : Transcript :=
  if bytes.length < Stored.width RunCounts then ⟨[], .clean bytes.length⟩
  else
    match RunHeader.ofBytes (bytes.take (Stored.width RunCounts)) with
    | .error reason => ⟨[], .corrupt reason⟩
    | .ok header =>
      match _h : Run.parser channels header (bytes.drop (Stored.width RunCounts)) with
      | .error reason => ⟨[], .broken header.slice reason⟩
      | .ok (run, rest) => (ofBytes channels rest).cons run
termination_by bytes.length
decreasing_by
  have hrest := (Run.parser_trims channels header _h).length_le
  have hwidth : 0 < Stored.width RunCounts := by decide
  rw [List.length_drop] at hrest
  omega

/-- The second pass: one outcome for each slice, and the failure that ends them, if one
does.  A slice is lost when its own next run cannot be read, or when the header that
would show its end declares a negative number of records. -/
def outcomes (t : Transcript) : List (Except DecodeError (List Run)) :=
  match t.ending with
  | .clean _ => (blocks t.runs).map .ok
  | .broken slice reason =>
    (if t.runs.getLast?.map Run.slice = some slice then (blocks t.runs).dropLast
      else blocks t.runs).map .ok ++ [.error reason]
  | .corrupt reason => (blocks t.runs).dropLast.map .ok ++ [.error reason]

/-- The slice that the first header is of, if there is a sound one. -/
def slice? (t : Transcript) : Option Int32 :=
  match t.runs, t.ending with
  | run :: _, _ => some run.slice
  | [], .broken slice _ => some slice
  | [], _ => none

/-- How the transcript of some bytes comes about, run by run. -/
inductive Reads (channels : Nat) : List UInt8 → Transcript → Prop
  | clean {bytes : List UInt8} :
    bytes.length < Stored.width RunCounts → Reads channels bytes ⟨[], .clean bytes.length⟩
  | corrupt {bytes : List UInt8} {reason : DecodeError} :
    Stored.width RunCounts ≤ bytes.length →
    RunHeader.ofBytes (bytes.take (Stored.width RunCounts)) = .error reason →
      Reads channels bytes ⟨[], .corrupt reason⟩
  | broken {bytes : List UInt8} {header : RunHeader} {reason : DecodeError} :
    Stored.width RunCounts ≤ bytes.length →
    RunHeader.ofBytes (bytes.take (Stored.width RunCounts)) = .ok header →
    Run.parser channels header (bytes.drop (Stored.width RunCounts)) = .error reason →
      Reads channels bytes ⟨[], .broken header.slice reason⟩
  | run {bytes rest : List UInt8} {header : RunHeader} {run : Run} {runs : List Run}
      {ending : Ending} :
    Stored.width RunCounts ≤ bytes.length →
    RunHeader.ofBytes (bytes.take (Stored.width RunCounts)) = .ok header →
    Run.parser channels header (bytes.drop (Stored.width RunCounts)) = .ok (run, rest) →
    Reads channels rest ⟨runs, ending⟩ → Reads channels bytes ⟨run :: runs, ending⟩

theorem reads_ofBytes (channels : Nat) (bytes : List UInt8) :
    Reads channels bytes (ofBytes channels bytes) := by
  fun_induction ofBytes channels bytes with
  | case1 bytes hshort => exact .clean hshort
  | case2 bytes hwhole reason hheader => exact .corrupt (by omega) hheader
  | case3 bytes hwhole header hheader reason hrecords =>
    exact .broken (by omega) hheader hrecords
  | case4 bytes hwhole header hheader run rest hrecords ih =>
    exact .run (by omega) hheader hrecords ih

end Transcript

/- A block of runs of one slice at the front of a transcript. -/

section Block

variable {slice : Int32} {block others : List Run} {ending : Ending}

namespace Transcript

theorem outcomes_append (hne : block ≠ []) (hblock : ∀ r ∈ block, r.slice = slice)
    {next : Int32} (hnext : slice? ⟨others, ending⟩ = some next) (hslice : next ≠ slice) :
    outcomes ⟨block ++ others, ending⟩ = .ok block :: outcomes ⟨others, ending⟩ := by
  cases others with
  | nil =>
    cases ending with
    | clean left => simp [slice?] at hnext
    | corrupt reason => simp [slice?] at hnext
    | broken slice' reason =>
      simp only [slice?, Option.some.injEq] at hnext
      subst hnext
      have hlast : block.getLast?.map Run.slice ≠ some slice' := by
        rw [slice_getLast hne hblock, Ne, Option.some.injEq]
        exact fun h => hslice h.symm
      simp only [outcomes, List.append_nil, if_neg hlast, blocks_of_same hne hblock]
      rfl
  | cons r others =>
    simp only [slice?, Option.some.injEq] at hnext
    have hblocks : blocks (block ++ r :: others) = block :: blocks (r :: others) :=
      blocks_append hne hblock (by simpa [hnext] using hslice)
    have hothers : blocks (r :: others) ≠ [] := blocks_cons_ne_nil r others
    have hlast : (block ++ r :: others).getLast? = (r :: others).getLast? := by
      rw [List.getLast?_append, List.getLast?_cons, Option.some_or]
    have hdrop : (block :: blocks (r :: others)).dropLast = block :: (blocks (r :: others)).dropLast :=
      List.dropLast_cons_of_ne_nil hothers
    cases ending with
    | clean left => simp only [outcomes, hblocks, List.map_cons]
    | corrupt reason => simp only [outcomes, hblocks, hdrop, List.map_cons, List.cons_append]
    | broken slice' reason =>
      simp only [outcomes, hblocks, hlast, hdrop]
      split <;> rfl

theorem outcomes_of_clean (hne : block ≠ []) (hblock : ∀ r ∈ block, r.slice = slice)
    (left : Nat) : outcomes ⟨block, .clean left⟩ = [.ok block] := by
  simp [outcomes, blocks_of_same hne hblock]

theorem outcomes_of_broken (hne : block ≠ []) (hblock : ∀ r ∈ block, r.slice = slice)
    (reason : DecodeError) : outcomes ⟨block, .broken slice reason⟩ = [.error reason] := by
  simp [outcomes, blocks_of_same hne hblock, slice_getLast hne hblock]

theorem outcomes_of_corrupt (hne : block ≠ []) (hblock : ∀ r ∈ block, r.slice = slice)
    (reason : DecodeError) : outcomes ⟨block, .corrupt reason⟩ = [.error reason] := by
  simp [outcomes, blocks_of_same hne hblock]

end Transcript
end Block
end Correlator
