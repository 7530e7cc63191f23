import Correlator.Error

/-!
# Spectra

A spectrum of `c` channels is `c + 1` complex samples: the half with non-negative
frequencies of a spectrum that belongs to a real function of lag.  `extend` puts the
other half beside it.  The spectrum of a station with itself is averaged (`autoPower`) and not
transformed.
-/

namespace Correlator

/-- One complex sample. -/
structure Sample where
  re : Binary32
  im : Binary32
deriving DecidableEq, Inhabited

namespace Sample

instance : Stored Sample :=
  .of (α := Binary32 × Binary32) (fun (re, im) => ⟨re, im⟩) (fun s => (s.re, s.im))
    (fun _ => rfl) (fun _ => rfl)

theorem width_eq : Stored.width Sample = 8 := rfl

def isFinite (s : Sample) : Bool := s.re.isFinite && s.im.isFinite

def conjugate (s : Sample) : Sample := ⟨s.re, s.im.negate⟩

/-- The sample with its imaginary part taken as zero. -/
def realOnly (s : Sample) : Sample := ⟨s.re, .zero⟩

end Sample

abbrev Spectrum := List Sample

namespace Spectrum

/-- The whole spectrum: the samples in order, the first and the last taken as real,
then the conjugates of those in between in reverse order.  It has `2 * c` entries. -/
def extend : Spectrum → List Sample
  | [] => []
  | first :: rest =>
    let inner := rest.dropLast
    first.realOnly :: inner ++ (rest.getLast?.map Sample.realOnly).toList
      ++ inner.reverse.map Sample.conjugate

/-- The samples that `bytes` hold, as many as there is room for among `count`. -/
def decode : Nat → List UInt8 → Spectrum
  | 0, _ => []
  | count + 1, bytes => Stored.decode bytes :: decode count (bytes.drop (Stored.width Sample))

def encode (samples : Spectrum) : List UInt8 := samples.flatMap Stored.encode

theorem length_extend (first : Sample) (rest : Spectrum) (h : rest ≠ []) :
    (extend (first :: rest)).length = 2 * rest.length := by
  have hpos := List.length_pos_iff.mpr h
  simp only [extend, List.getLast?_eq_some_getLast h, List.length_append, List.length_cons,
    List.length_map, List.length_reverse, List.length_dropLast, Option.map_some,
    Option.toList_some, List.length_nil]
  omega

theorem length_decode (count : Nat) (bytes : List UInt8) : (decode count bytes).length = count := by
  induction count generalizing bytes with
  | zero => rfl
  | succ count ih => simp [decode, ih]

end Spectrum

/-- The average of a spectrum. -/
structure AutoPower where
  real : Float
  imag : Float
deriving DecidableEq

/-- Numbers added up in order.  The sum starts at minus zero, which leaves every
number as it is, minus zero included. -/
def floatSum (values : List Float) : Float := values.foldl (· + ·) (-0.0)

/-- The real part is a trapezoid over the channels, so the first and the last sample
count half; the imaginary part is the plain mean. -/
def Spectrum.autoPower (spectrum : Spectrum) : Except SpectrumError AutoPower :=
  match spectrum with
  | first :: rest@(second :: others) =>
    let last := others.getLast?.getD second
    let inner := floatSum (rest.dropLast.map fun s => s.re.toFloat)
    let edges := (first.re.toFloat + last.re.toFloat) / 2
    .ok
      { real := (inner + edges) / Float.ofNat rest.length
        imag := floatSum (spectrum.map fun s => s.im.toFloat) / Float.ofNat spectrum.length }
  | short => .error (.tooShort short.length)

end Correlator
