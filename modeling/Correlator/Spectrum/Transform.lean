import Correlator.Spectrum.Sample

/-!
# From frequencies to lags

The transform is a value, so that what is said about fringes holds whatever way it is
computed.  `Transform.inverse` sums the terms of the inverse discrete Fourier
transform one by one and keeps the real parts, which is all that a Hermitian spectrum
has.
-/

namespace Correlator

/-- A transform has as many outputs as inputs. -/
structure Transform where
  apply : List Sample → List Float
  length_apply : ∀ samples, (apply samples).length = samples.length

namespace Transform

def pi : Float := 3.141592653589793

/-- Cosine and sine of `part / size` of an eighth of a turn.  At the end of the eighth
they are made equal. -/
def withinEighth (part size : Nat) : Float × Float :=
  if part = size then (Float.sqrt 0.5, Float.sqrt 0.5)
  else
    let angle := pi / 4 * (Float.ofNat part / Float.ofNat size)
    (angle.cos, angle.sin)

/-- A quarter of a turn. -/
def quarter (p : Float × Float) : Float × Float := (-p.2, p.1)

/-- Cosine and sine of `part / size` of a whole turn.  Every point is turned and
mirrored from the first eighth, so the table has the symmetry of the circle and is
exact on the axes. -/
def onCircle (part size : Nat) : Float × Float :=
  let eighth := 8 * part / size
  let rest := 8 * part % size
  if eighth % 2 = 0 then Nat.repeat quarter (eighth / 2) (withinEighth rest size)
  else
    let (c, s) := withinEighth (size - rest) size
    Nat.repeat quarter (eighth / 2 + 1) (c, -s)

/-- The real part of lag `lag`: every term turns by `lag` steps more than the one
before it. -/
def realPart (circle : Array (Float × Float)) (terms : List (Float × Float)) (lag : Nat) : Float :=
  (terms.foldl
    (fun (total, angle) (re, im) =>
      let (c, s) := circle[angle]?.getD (1, 0)
      (total + (re * c - im * s), (angle + lag) % circle.size))
    (0, 0)).1

def inverse : Transform where
  apply samples :=
    let size := samples.length
    let circle := ((List.range size).map fun part => onCircle part size).toArray
    let terms := samples.map fun s => (s.re.toFloat, s.im.toFloat)
    (List.range size).map (realPart circle terms)
  length_apply samples := by simp

end Transform
end Correlator
