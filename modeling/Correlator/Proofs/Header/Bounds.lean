import Correlator.Proofs.Header.Contents

/-!
# Which bytes a header is read from

`ofBytesWithin` reads a header with every access checked against the end of the bytes, and
`run_ofBytesWithin` says that no access ever misses: the length alone keeps all of them in
range.  `ofBytes_congr` says that nothing else is looked at either, neither what stands
behind the header nor the padding in it.
-/

namespace Correlator
namespace Header

variable {bytes bytes' : List UInt8} {start stop offset width size : Nat}

/-! ## Accesses that may miss -/

/-- The bytes from `start` to `stop`, if they are there. -/
def slice? (bytes : List UInt8) (start stop : Nat) : Option (List UInt8) :=
  if start ≤ stop ∧ stop ≤ bytes.length then some ((bytes.take stop).drop start) else none

def field? (α : Type) [Stored α] (bytes : List UInt8) (offset : Nat) : Option α :=
  (slice? bytes offset (offset + Stored.width α)).map Stored.decode

def textAt? (bytes : List UInt8) (offset width : Nat) : Option String :=
  (slice? bytes offset (offset + width)).map Field.text

theorem slice?_of_le (hstart : start ≤ stop) (hstop : stop ≤ bytes.length) :
    slice? bytes start stop = some ((bytes.take stop).drop start) :=
  if_pos ⟨hstart, hstop⟩

theorem take_drop_add (bytes : List UInt8) (offset width : Nat) :
    (bytes.take (offset + width)).drop offset = (bytes.drop offset).take width := by
  rw [List.drop_take, Nat.add_sub_cancel_left]

theorem field?_of_le {α : Type} [Stored α] (h : offset + Stored.width α ≤ bytes.length) :
    field? α bytes offset = some (Stored.field α bytes offset) := by
  have hdrop : Stored.width α ≤ (bytes.drop offset).length := by
    rw [List.length_drop]
    omega
  rw [field?, slice?_of_le (Nat.le_add_right _ _) h, take_drop_add, Option.map_some,
    Stored.decode_take hdrop, Stored.field]

theorem textAt?_of_le (h : offset + width ≤ bytes.length) :
    textAt? bytes offset width = some (textAt bytes offset width) := by
  rw [textAt?, slice?_of_le (Nat.le_add_right _ _) h, take_drop_add, Option.map_some, textAt]

/-! ## Reading with every access checked

`none` is an access past the end.  The accesses come in the order in which the fields are
read. -/

def jobWithin (bytes : List UInt8) : ExceptT DecodeError Option Job := do
  let branch ← textAt? bytes 64 branchWidth
  let number ← field? Int32 bytes 76
  let part ← field? Int32 bytes 80
  return ⟨branch, number, part⟩

def layoutWithin (bytes : List UInt8) (size : Nat) : ExceptT DecodeError Option Layout := do
  if size = plainSize then return .plain
  let job ← jobWithin bytes
  if size = jobSize then return .withJob job
  let stations ← field? Int32 bytes 84
  let sources ← field? Int32 bytes 88
  let block ← slice? bytes namesSize size
  return .withNames job (← Names.ofBlock block stations sources)

def contentsWithin (bytes : List UInt8) (size : Nat) : ExceptT DecodeError Option Header := do
  let experiment ← textAt? bytes 4 experimentWidth
  let startYear ← field? Int16 bytes 36
  let startDay ← field? Int16 bytes 38
  let startSecond ← field? Int32 bytes 40
  let channels ← checkChannels (← field? Int32 bytes 44)
  let integration ← field? Int32 bytes 48
  let formatVersion ← field? Int32 bytes 52
  let correlatorVersion ← field? Int32 bytes 56
  let polarisations ← Polarisations.ofCode (← field? Int8 bytes 60)
  let layout ← layoutWithin bytes size
  return {
    size, experiment, startYear, startDay, startSecond, channels, integration, formatVersion
    correlatorVersion, polarisations, layout }

def ofBytesWithin (bytes : List UInt8) : ExceptT DecodeError Option Header := do
  if bytes.length < sizeWidth then throw (.headerCut sizeWidth bytes.length)
  let size ← checkSize (← field? Int32 bytes 0)
  if bytes.length < size then throw (.headerCut size bytes.length)
  contentsWithin bytes size

theorem lift_some {α : Type} (a : α) :
    (liftM (some a) : ExceptT DecodeError Option α) = pure a := rfl

theorem lift_ok {α : Type} (a : α) :
    (liftM (Except.ok a : Except DecodeError α) : ExceptT DecodeError Option α) = pure a := rfl

theorem jobWithin_eq (h : jobSize ≤ bytes.length) : jobWithin bytes = pure (jobAt bytes) := by
  simp only [jobSize] at h
  have hbranch : textAt? bytes 64 branchWidth = some _ :=
    textAt?_of_le (Nat.le_trans (by decide) h)
  have hnumber : field? Int32 bytes 76 = some _ := field?_of_le (Nat.le_trans (by decide) h)
  have hpart : field? Int32 bytes 80 = some _ := field?_of_le h
  simp only [jobWithin, hbranch, hnumber, hpart, lift_some, pure_bind, jobAt]

theorem layoutWithin_eq (hlayout : size = plainSize ∨ size = jobSize ∨ namesSize ≤ size)
    (h : size ≤ bytes.length) : layoutWithin bytes size = liftM (layoutOf bytes size) := by
  unfold layoutWithin
  rcases hlayout with rfl | rfl | hnames
  · rw [if_pos rfl, layoutOf_plainSize]
    rfl
  · rw [if_neg (by decide), jobWithin_eq h, layoutOf_jobSize]
    rfl
  · have hwhole := Nat.le_trans hnames h
    have hstations : field? Int32 bytes 84 = some _ :=
      field?_of_le (Nat.le_trans (by decide) hwhole)
    have hsources : field? Int32 bytes 88 = some _ := field?_of_le hwhole
    have hblock : slice? bytes namesSize size = some _ := slice?_of_le hnames h
    have hplain : size ≠ plainSize := by
      rintro rfl
      exact absurd hnames (by decide)
    have hjob : size ≠ jobSize := by
      rintro rfl
      exact absurd hnames (by decide)
    rw [layoutOf_of_namesSize_le hnames, jobWithin_eq (Nat.le_trans (by decide) hwhole), hstations,
      hsources, hblock]
    simp only [if_neg hplain, if_neg hjob, lift_some, pure_bind]
    cases Names.ofBlock ((bytes.take size).drop namesSize) (Stored.field Int32 bytes 84)
      (Stored.field Int32 bytes 88) <;> rfl

theorem contentsWithin_eq (hlayout : size = plainSize ∨ size = jobSize ∨ namesSize ≤ size)
    (h : size ≤ bytes.length) : contentsWithin bytes size = liftM (contents bytes size) := by
  have hplain : plainSize ≤ bytes.length := Nat.le_trans (plainSize_le_of_layout hlayout) h
  have hfield {α : Type} [Stored α] {offset : Nat} (hwidth : offset + Stored.width α ≤ plainSize) :
      field? α bytes offset = some (Stored.field α bytes offset) :=
    field?_of_le (Nat.le_trans hwidth hplain)
  have htext : textAt? bytes 4 experimentWidth = some _ :=
    textAt?_of_le (Nat.le_trans (by decide) hplain)
  simp (disch := decide) only [contentsWithin, contents, htext, hfield, lift_some, pure_bind,
    layoutWithin_eq hlayout h]
  cases checkChannels (Stored.field Int32 bytes 44) with
  | error reason => rfl
  | ok channels =>
    cases Polarisations.ofCode (Stored.field Int8 bytes 60) with
    | error reason => rfl
    | ok polarisations => cases layoutOf bytes size <;> rfl

/-- Every access of reading a header is in range, whatever the bytes. -/
theorem run_ofBytesWithin (bytes : List UInt8) :
    (ofBytesWithin bytes).run = some (ofBytes bytes) := by
  unfold ofBytesWithin
  by_cases hwidth : sizeWidth ≤ bytes.length
  · have hfield : field? Int32 bytes 0 = some _ := field?_of_le hwidth
    rw [if_neg (Nat.not_lt.mpr hwidth), hfield]
    cases hsize : checkSize (Stored.field Int32 bytes 0) with
    | error reason =>
      rw [ofBytes_of_checkSize_error hwidth hsize]
      simp only [lift_some, pure_bind, hsize]
      rfl
    | ok size =>
      simp only [lift_some, pure_bind, hsize, lift_ok]
      by_cases hwhole : size ≤ bytes.length
      · rw [if_neg (Nat.not_lt.mpr hwhole), ofBytes_of_whole hsize hwhole,
          contentsWithin_eq (checkSize_eq_ok_iff.mp hsize).1 hwhole]
        rfl
      · rw [if_pos (Nat.lt_of_not_le hwhole), ofBytes_of_cut hwidth hsize (Nat.lt_of_not_le hwhole)]
        rfl
  · rw [if_pos (Nat.lt_of_not_le hwidth), ofBytes_of_short (Nat.lt_of_not_le hwidth)]
    rfl

/-! ## Bytes that do not matter -/

/-- How many bytes from the start are looked at, if they are there. -/
def extent (bytes : List UInt8) : Nat :=
  match checkSize (Stored.field Int32 bytes 0) with
  | .ok size => size
  | .error _ => sizeWidth

theorem extent_of_checkSize (h : checkSize (Stored.field Int32 bytes 0) = .ok size) :
    extent bytes = size := by
  rw [extent, h]

theorem sizeWidth_le_extent (bytes : List UInt8) : sizeWidth ≤ extent bytes := by
  unfold extent
  split
  · rename_i size hsize
    exact sizeWidth_le_of_checkSize hsize
  · exact Nat.le_refl _

/-- The bytes below `size` are the same, but for the three that fill up the fields which all
layouts have. -/
def SameBelow (size : Nat) (bytes bytes' : List UInt8) : Prop :=
  ∀ i < size, i ∉ [61, 62, 63] → bytes'[i]? = bytes[i]?

/-- A part of the header that ends before the padding or starts behind it. -/
theorem SameBelow.slice (h : SameBelow size bytes bytes') (hstop : offset + width ≤ size)
    (hpadding : offset + width ≤ 61 ∨ 64 ≤ offset) :
    (bytes'.drop offset).take width = (bytes.drop offset).take width := by
  refine List.ext_getElem? fun i => ?_
  rw [List.getElem?_take, List.getElem?_take]
  split
  · rw [List.getElem?_drop, List.getElem?_drop]
    refine h _ (by omega) ?_
    simp only [List.mem_cons, List.not_mem_nil, or_false]
    omega
  · rfl

/- Of two lists that are long enough. -/

section Same

variable (h : SameBelow size bytes bytes') (hle : size ≤ bytes.length) (hle' : size ≤ bytes'.length)

include h

theorem SameBelow.textAt_eq (hstop : offset + width ≤ size)
    (hpadding : offset + width ≤ 61 ∨ 64 ≤ offset) :
    textAt bytes' offset width = textAt bytes offset width := by
  rw [textAt, textAt, h.slice hstop hpadding]

include hle hle'

theorem SameBelow.field_eq {α : Type} [Stored α] (hstop : offset + Stored.width α ≤ size)
    (hpadding : offset + Stored.width α ≤ 61 ∨ 64 ≤ offset) :
    Stored.field α bytes' offset = Stored.field α bytes offset := by
  have hdrop : Stored.width α ≤ (bytes.drop offset).length := by
    rw [List.length_drop]
    omega
  have hdrop' : Stored.width α ≤ (bytes'.drop offset).length := by
    rw [List.length_drop]
    omega
  rw [Stored.field, Stored.field, ← Stored.decode_take hdrop', ← Stored.decode_take hdrop,
    h.slice hstop hpadding]

theorem SameBelow.jobAt_eq (hjob : jobSize ≤ size) : jobAt bytes' = jobAt bytes := by
  simp only [jobSize] at hjob
  have hbranch : textAt bytes' 64 branchWidth = textAt bytes 64 branchWidth :=
    h.textAt_eq (Nat.le_trans (by decide) hjob) (.inr (by decide))
  have hnumber : Stored.field Int32 bytes' 76 = Stored.field Int32 bytes 76 :=
    h.field_eq hle hle' (Nat.le_trans (by decide) hjob) (.inr (by decide))
  have hpart : Stored.field Int32 bytes' 80 = Stored.field Int32 bytes 80 :=
    h.field_eq hle hle' hjob (.inr (by decide))
  rw [jobAt, jobAt, hbranch, hnumber, hpart]

theorem SameBelow.layoutOf_eq
    (hlayout : size = plainSize ∨ size = jobSize ∨ namesSize ≤ size) :
    layoutOf bytes' size = layoutOf bytes size := by
  rcases hlayout with rfl | rfl | hnames
  · rw [layoutOf_plainSize, layoutOf_plainSize]
  · rw [layoutOf_jobSize, layoutOf_jobSize, h.jobAt_eq hle hle' (Nat.le_refl _)]
  · have hjob : jobSize ≤ size := Nat.le_trans (by decide) hnames
    have hstations : Stored.field Int32 bytes' 84 = Stored.field Int32 bytes 84 :=
      h.field_eq hle hle' (Nat.le_trans (by decide) hnames) (.inr (by decide))
    have hsources : Stored.field Int32 bytes' 88 = Stored.field Int32 bytes 88 :=
      h.field_eq hle hle' hnames (.inr (by decide))
    have hblock : (bytes'.take size).drop namesSize = (bytes.take size).drop namesSize := by
      rw [List.drop_take, List.drop_take,
        h.slice (by omega) (.inr (show 64 ≤ namesSize by decide))]
    rw [layoutOf_of_namesSize_le hnames, layoutOf_of_namesSize_le hnames,
      h.jobAt_eq hle hle' hjob, hstations, hsources, hblock]

theorem SameBelow.contents_eq
    (hlayout : size = plainSize ∨ size = jobSize ∨ namesSize ≤ size) :
    contents bytes' size = contents bytes size := by
  have hplain := plainSize_le_of_layout hlayout
  have hfield {α : Type} [Stored α] {offset : Nat} (hwidth : offset + Stored.width α ≤ 61) :
      Stored.field α bytes' offset = Stored.field α bytes offset :=
    h.field_eq hle hle' (Nat.le_trans hwidth (Nat.le_trans (by decide) hplain)) (.inl hwidth)
  have htext : textAt bytes' 4 experimentWidth = textAt bytes 4 experimentWidth :=
    h.textAt_eq (Nat.le_trans (by decide) hplain) (.inl (by decide))
  simp (disch := decide) only [contents, assemble, hfield, htext,
    h.layoutOf_eq hle hle' hlayout]

end Same

/-- Reading a header gives the same whatever stands behind it and in its padding. -/
theorem ofBytes_congr (h : SameBelow (extent bytes) bytes bytes')
    (hle : extent bytes ≤ bytes.length) (hle' : extent bytes ≤ bytes'.length) :
    ofBytes bytes' = ofBytes bytes := by
  have hwidth := sizeWidth_le_extent bytes
  have hdeclared : Stored.field Int32 bytes' 0 = Stored.field Int32 bytes 0 :=
    h.field_eq hle hle' (show 0 + Stored.width Int32 ≤ _ from hwidth) (.inl (by decide))
  cases hsize : checkSize (Stored.field Int32 bytes 0) with
  | error reason =>
    rw [ofBytes_of_checkSize_error (Nat.le_trans hwidth hle') (hdeclared ▸ hsize),
      ofBytes_of_checkSize_error (Nat.le_trans hwidth hle) hsize]
  | ok size =>
    rw [extent_of_checkSize hsize] at h hle hle'
    rw [ofBytes_of_whole (hdeclared ▸ hsize) hle', ofBytes_of_whole hsize hle,
      h.contents_eq hle hle' (checkSize_eq_ok_iff.mp hsize).1]

end Header
end Correlator
