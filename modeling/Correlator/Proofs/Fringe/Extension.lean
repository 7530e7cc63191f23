import Correlator.Proofs.Fringe.Lags
import Correlator.Proofs.Fringe.Noise

/-!
# The whole spectrum

`Spectrum.fill?` puts a whole spectrum together in place, as a transform that works on an array
wants it: an array of zeros is assigned from both ends at once.  No index leaves the array,
every entry is assigned once, and the result is `Spectrum.extend`.  A whole spectrum is its own
conjugate in reverse, and the imaginary parts of the first and the last sample do not come into
it.
-/

namespace Correlator

namespace Spectrum

/-- An entry of an array, with the number of times it has been assigned. -/
structure Cell where
  value : Sample
  assigned : Nat
deriving DecidableEq

/-- An entry that the array was made with. -/
def Cell.blank : Cell := ⟨⟨.zero, .zero⟩, 0⟩

/-- Nothing comes of an index that leaves the array. -/
def assign? (cells : List Cell) (index : Nat) (value : Sample) : Option (List Cell) := do
  let cell ← cells[index]?
  return cells.set index ⟨value, cell.assigned + 1⟩

/-- A sample goes to its own index, and its conjugate as far from the end. -/
def assignPair? (spectrum : Spectrum) (size : Nat) (cells : List Cell) (k : Nat) :
    Option (List Cell) := do
  let sample ← spectrum[k]?
  let cells ← assign? cells k sample
  assign? cells (← Word.sub? size k) sample.conjugate

/-- The whole spectrum for `channels` channels. -/
def fill? (channels : Nat) (spectrum : Spectrum) : Option (List Cell) := do
  let size := 2 * channels
  let cells ← assign? (List.replicate size .blank) 0 (← spectrum[0]?).realOnly
  let cells ← (List.range' 1 (channels - 1)).foldlM (assignPair? spectrum size) cells
  assign? cells channels (← spectrum[channels]?).realOnly

theorem extend_eq (first : Sample) (inner : List Sample) (last : Sample) :
    extend (first :: (inner ++ [last]))
      = first.realOnly :: inner ++ [last.realOnly] ++ inner.reverse.map Sample.conjugate := by
  rw [extend, List.dropLast_concat, List.getLast?_concat]
  rfl

/-- A spectrum has two ends if it has a channel. -/
theorem exists_ends {channels : Nat} {spectrum : Spectrum} (h : spectrum.length = channels + 1)
    (hpos : 0 < channels) :
    ∃ first inner last, spectrum = first :: (inner ++ [last]) ∧ channels = inner.length + 1 := by
  obtain ⟨first, rest, rfl⟩ := List.exists_cons_of_length_eq_add_one h
  rw [List.length_cons, Nat.add_right_cancel_iff] at h
  have hrest : rest ≠ [] := List.ne_nil_of_length_pos (h.symm ▸ hpos)
  refine ⟨first, rest.dropLast, rest.getLast hrest, ?_, ?_⟩
  · rw [List.dropLast_concat_getLast]
  · rw [List.length_dropLast]
    omega

/-! ## Filling in place -/

/-- Entries that have been assigned once. -/
def once (values : List Sample) : List Cell := values.map fun value => ⟨value, 1⟩

theorem assign?_append (front : List Cell) (cell : Cell) (back : List Cell) (value : Sample) :
    assign? (front ++ cell :: back) front.length value
      = some (front ++ ⟨value, cell.assigned + 1⟩ :: back) := by
  have hcell : (front ++ cell :: back)[front.length]? = some cell := by
    rw [List.getElem?_append_right le_rfl, Nat.sub_self, List.getElem?_cons_zero]
  rw [assign?, hcell, Option.bind_eq_bind, Option.bind_some, List.set_append_right _ _ le_rfl,
    Nat.sub_self, List.set_cons_zero]
  rfl

/-- An entry is taken from either end of a gap. -/
theorem assign?_ends (front back : List Cell) (gap : Nat) (a b : Sample) :
    (assign? (front ++ List.replicate (gap + 2) .blank ++ back) front.length a).bind
        (assign? · (front.length + gap + 1) b)
      = some (front ++ [⟨a, 1⟩] ++ List.replicate gap .blank ++ ([⟨b, 1⟩] ++ back)) := by
  have hgap : front ++ List.replicate (gap + 2) Cell.blank ++ back
      = front ++ Cell.blank :: (List.replicate gap Cell.blank ++ ([Cell.blank] ++ back)) := by
    rw [List.replicate_succ, List.replicate_succ', List.append_assoc, List.cons_append,
      List.append_assoc]
  have hlength : front.length + gap + 1
      = (front ++ [(⟨a, 1⟩ : Cell)] ++ List.replicate gap Cell.blank).length := by
    simp only [List.length_append, List.length_singleton, List.length_replicate]
    omega
  have hfront : front ++ ⟨a, 1⟩ :: (List.replicate gap Cell.blank ++ ([Cell.blank] ++ back))
      = front ++ [⟨a, 1⟩] ++ List.replicate gap Cell.blank ++ Cell.blank :: back := by
    simp only [List.append_assoc, List.cons_append, List.nil_append]
  rw [hgap, assign?_append, Option.bind_some, hlength]
  exact (congrArg (assign? · _ b) hfront).trans (assign?_append _ _ _ b)

/-- The array when the samples `done` have been assigned, with `gap` entries still blank. -/
def stage (first : Sample) (done : List Sample) (gap : Nat) : List Cell :=
  once (first.realOnly :: done) ++ List.replicate gap .blank
    ++ once (done.reverse.map Sample.conjugate)

theorem assignPair?_stage (first : Sample) (done rest : List Sample) (sample : Sample)
    (gap : Nat) :
    assignPair? (first :: (done ++ sample :: rest)) (2 * done.length + gap + 3)
        (stage first done (gap + 2)) (done.length + 1)
      = some (stage first (done ++ [sample]) gap) := by
  have hsample : (first :: (done ++ sample :: rest))[done.length + 1]? = some sample := by
    rw [List.getElem?_cons_succ, List.getElem?_append_right le_rfl, Nat.sub_self,
      List.getElem?_cons_zero]
  have hsub : Word.sub? (2 * done.length + gap + 3) (done.length + 1)
      = some (done.length + 1 + gap + 1) := by
    rw [Word.sub?, if_pos (by omega)]
    congr 1
    omega
  have hlength : (once (first.realOnly :: done)).length = done.length + 1 := by simp [once]
  have hends := assign?_ends (once (first.realOnly :: done))
    (once (done.reverse.map Sample.conjugate)) gap sample sample.conjugate
  rw [hlength] at hends
  simp only [assignPair?, hsample, hsub, Option.bind_eq_bind, Option.bind_some]
  rw [stage, hends]
  simp [stage, once]

theorem foldlM_assignPair? (first last : Sample) (done todo : List Sample) :
    (List.range' (done.length + 1) todo.length).foldlM
        (assignPair? (first :: (done ++ (todo ++ [last])))
          (2 * (done.length + todo.length + 1)))
        (stage first done (2 * todo.length + 1))
      = some (stage first (done ++ todo) 1) := by
  induction todo generalizing done with
  | nil => rw [List.append_nil]; rfl
  | cons sample todo ih =>
    have hstep := assignPair?_stage first done (todo ++ [last]) sample (2 * todo.length + 1)
    have hrest := ih (done ++ [sample])
    have hsize : 2 * (done.length + (todo.length + 1) + 1)
        = 2 * done.length + (2 * todo.length + 1) + 3 := by omega
    have hsize' : 2 * ((done ++ [sample]).length + todo.length + 1)
        = 2 * done.length + (2 * todo.length + 1) + 3 := by
      rw [List.length_append, List.length_singleton]
      omega
    rw [hsize', List.append_assoc, List.append_assoc, List.length_append] at hrest
    rw [List.length_cons, hsize, List.range'_succ, List.foldlM_cons]
    exact (congrArg (· >>= _) hstep).trans hrest

/-- The array is filled without an index leaving it, and every entry is assigned once. -/
theorem fill?_eq {channels : Nat} {spectrum : Spectrum} (h : spectrum.length = channels + 1)
    (hpos : 0 < channels) : fill? channels spectrum = some (once spectrum.extend) := by
  obtain ⟨first, inner, last, rfl, rfl⟩ := exists_ends h hpos
  have hlast : (first :: (inner ++ [last]))[inner.length + 1]? = some last := by
    rw [List.getElem?_cons_succ, List.getElem?_concat_length]
  have hstart : assign? (List.replicate (2 * (inner.length + 1)) .blank) 0 first.realOnly
      = some (stage first [] (2 * inner.length + 1)) := by
    have hblank : List.replicate (2 * (inner.length + 1)) Cell.blank
        = [] ++ Cell.blank :: List.replicate (2 * inner.length + 1) .blank := rfl
    rw [hblank]
    refine (assign?_append [] _ _ _).trans ?_
    simp [stage, once, Cell.blank]
  have hloop := foldlM_assignPair? first last [] inner
  have hend := assign?_append (once (first.realOnly :: inner)) .blank
    (once (inner.reverse.map Sample.conjugate)) last.realOnly
  have hlength : (once (first.realOnly :: inner)).length = inner.length + 1 := by simp [once]
  rw [List.nil_append, List.length_nil, Nat.zero_add, Nat.zero_add, List.nil_append] at hloop
  rw [hlength] at hend
  simp only [fill?, List.getElem?_cons_zero, hlast, hstart, Nat.add_sub_cancel, hloop,
    Option.bind_eq_bind, Option.bind_some]
  rw [stage, List.replicate_one, List.append_assoc, List.singleton_append, hend, extend_eq]
  simp [once, Cell.blank]

/-! ## Entries -/

section Entries

variable {channels : Nat} {spectrum : Spectrum}

theorem extend_zero (h : spectrum.length = channels + 1) (hpos : 0 < channels) :
    spectrum.extend[0]? = spectrum[0]?.map Sample.realOnly := by
  obtain ⟨first, inner, last, rfl, -⟩ := exists_ends h hpos
  rw [extend_eq]
  rfl

theorem extend_channels (h : spectrum.length = channels + 1) (hpos : 0 < channels) :
    spectrum.extend[channels]? = spectrum[channels]?.map Sample.realOnly := by
  obtain ⟨first, inner, last, rfl, rfl⟩ := exists_ends h hpos
  rw [extend_eq, List.getElem?_append_left (by simp), List.cons_append, List.getElem?_cons_succ,
    List.getElem?_cons_succ, List.getElem?_concat_length, List.getElem?_concat_length]
  rfl

theorem extend_below (h : spectrum.length = channels + 1) {k : Nat} (hk : 0 < k)
    (hk' : k < channels) : spectrum.extend[k]? = spectrum[k]? := by
  obtain ⟨first, inner, last, rfl, rfl⟩ := exists_ends h (hk.trans hk')
  obtain ⟨j, rfl⟩ := Nat.exists_eq_add_one_of_ne_zero hk.ne'
  rw [extend_eq, List.getElem?_append_left (by simp; omega), List.cons_append,
    List.getElem?_cons_succ, List.getElem?_cons_succ, List.getElem?_append_left (by omega),
    List.getElem?_append_left (by omega)]

theorem extend_above (h : spectrum.length = channels + 1) {k : Nat} (hk : 0 < k)
    (hk' : k < channels) :
    spectrum.extend[2 * channels - k]? = spectrum[k]?.map Sample.conjugate := by
  obtain ⟨first, inner, last, rfl, rfl⟩ := exists_ends h (hk.trans hk')
  obtain ⟨j, rfl⟩ := Nat.exists_eq_add_one_of_ne_zero hk.ne'
  have hfront : (first.realOnly :: inner ++ [last.realOnly]).length = inner.length + 2 := by simp
  have hplace : inner.length - 1 - (2 * (inner.length + 1) - (j + 1) - (inner.length + 2)) = j := by
    omega
  rw [extend_eq, List.getElem?_append_right (by omega), hfront, List.getElem?_map,
    List.getElem?_reverse (by omega), hplace, List.getElem?_cons_succ,
    List.getElem?_append_left (by omega)]

/-- The conjugate of a sample, whatever the sign of a zero. -/
def ConjugateOf (a b : Sample) : Prop :=
  b.re = a.re ∧ (b.im = a.im.negate ∨ a.im = .zero ∧ b.im = .zero)

/-- A whole spectrum is its own conjugate in reverse. -/
theorem extend_hermitian (h : spectrum.length = channels + 1) (hpos : 0 < channels) {k : Nat}
    (hk : k < 2 * channels) :
    ∃ a b, spectrum.extend[k]? = some a ∧
      spectrum.extend[(2 * channels - k) % (2 * channels)]? = some b ∧ ConjugateOf a b := by
  have hsample : ∀ j < channels + 1, ∃ sample, spectrum[j]? = some sample := fun j hj =>
    ⟨_, List.getElem?_eq_getElem (h.symm ▸ hj)⟩
  rcases Nat.lt_trichotomy k channels with hbelow | rfl | habove
  · rcases Nat.eq_zero_or_pos k with rfl | hzero
    · obtain ⟨sample, hsample⟩ := hsample 0 (by omega)
      have hentry := extend_zero h hpos
      rw [hsample] at hentry
      exact ⟨_, _, hentry, (Nat.mod_self (2 * channels)).symm ▸ hentry, rfl, .inr ⟨rfl, rfl⟩⟩
    · obtain ⟨sample, hsample⟩ := hsample k (by omega)
      have hother := extend_above h hzero hbelow
      rw [hsample] at hother
      rw [Nat.mod_eq_of_lt (by omega), extend_below h hzero hbelow]
      exact ⟨_, _, hsample, hother, rfl, .inl rfl⟩
  · obtain ⟨sample, hsample⟩ := hsample k (by omega)
    have hentry := extend_channels h hpos
    rw [hsample] at hentry
    rw [show 2 * k - k = k by omega, Nat.mod_eq_of_lt hk]
    exact ⟨_, _, hentry, hentry, rfl, .inr ⟨rfl, rfl⟩⟩
  · obtain ⟨j, hj⟩ : ∃ j, k = 2 * channels - j := ⟨2 * channels - k, by omega⟩
    obtain ⟨sample, hsample⟩ := hsample j (by omega)
    have hentry := extend_below h (by omega : 0 < j) (by omega)
    have hother := extend_above h (by omega : 0 < j) (by omega)
    rw [hsample] at hentry hother
    rw [hj, show 2 * channels - (2 * channels - j) = j by omega, Nat.mod_eq_of_lt (by omega)]
    exact ⟨_, _, hother, hentry, rfl, .inl (Binary32.negate_negate sample.im).symm⟩

theorem length_whole (h : spectrum.length = channels + 1) (hpos : 0 < channels) :
    spectrum.extend.length = 2 * channels := by
  obtain ⟨first, rest, rfl⟩ := List.exists_cons_of_length_eq_add_one h
  rw [List.length_cons, Nat.add_right_cancel_iff] at h
  rw [length_extend first rest (List.ne_nil_of_length_pos (h.symm ▸ hpos)), h]

/-- Spectra that differ at most in the imaginary parts of the first and the last sample. -/
structure AlikeWithin (channels : Nat) (spectrum spectrum' : Spectrum) : Prop where
  re : spectrum'.map Sample.re = spectrum.map Sample.re
  inner : ∀ k, 0 < k → k < channels → spectrum'[k]? = spectrum[k]?

theorem AlikeWithin.realOnly {spectrum' : Spectrum} (h : AlikeWithin channels spectrum spectrum')
    (k : Nat) : spectrum'[k]?.map Sample.realOnly = spectrum[k]?.map Sample.realOnly := by
  have hre : (spectrum'.map Sample.re)[k]? = (spectrum.map Sample.re)[k]? := by rw [h.re]
  rw [List.getElem?_map, List.getElem?_map] at hre
  have hreal := congrArg (Option.map fun re => (⟨re, .zero⟩ : Sample)) hre
  rwa [Option.map_map, Option.map_map] at hreal

/-- The imaginary parts at the two ends do not come into a whole spectrum. -/
theorem AlikeWithin.extend_eq {spectrum' : Spectrum} (h : AlikeWithin channels spectrum spectrum')
    (hsamples : spectrum.length = channels + 1) (hpos : 0 < channels) :
    spectrum'.extend = spectrum.extend := by
  have hsamples' : spectrum'.length = channels + 1 := by
    have hlength := congrArg List.length h.re
    rwa [List.length_map, List.length_map, hsamples] at hlength
  have hlength := length_whole hsamples hpos
  have hlength' := length_whole hsamples' hpos
  refine List.ext_getElem? fun k => ?_
  rcases Nat.lt_or_ge k (2 * channels) with hk | hk
  · rcases Nat.lt_trichotomy k channels with hbelow | rfl | habove
    · rcases Nat.eq_zero_or_pos k with rfl | hzero
      · rw [extend_zero hsamples' hpos, extend_zero hsamples hpos, h.realOnly]
      · rw [extend_below hsamples' hzero hbelow, extend_below hsamples hzero hbelow,
          h.inner k hzero hbelow]
    · rw [extend_channels hsamples' hpos, extend_channels hsamples hpos, h.realOnly]
    · obtain ⟨j, rfl⟩ : ∃ j, k = 2 * channels - j := ⟨2 * channels - k, by omega⟩
      rw [extend_above hsamples' (by omega) (by omega), extend_above hsamples (by omega) (by omega),
        h.inner j (by omega) (by omega)]
  · rw [List.getElem?_eq_none (hlength' ▸ hk), List.getElem?_eq_none (hlength ▸ hk)]

end Entries

end Spectrum

namespace FringeSearch

variable {s : FringeSearch} {spectrum : Spectrum}

theorem fringe_of_wrong_length (h : spectrum.length ≠ s.channels + 1) :
    s.fringe spectrum = .error (.wrongLength (s.channels + 1) spectrum.length) := by
  rw [FringeSearch.fringe, lagFunction_of_wrong_length h]
  rfl

theorem lagFunction_of_extend_eq {spectrum' : Spectrum} (hlength : spectrum'.length = spectrum.length)
    (h : spectrum'.extend = spectrum.extend) : s.lagFunction spectrum' = s.lagFunction spectrum := by
  rw [lagFunction, lagFunction, hlength, h]

/-- Every lag of the transform is at one place of the lag function. -/
theorem existsUnique_place {raw : Nat} (h : raw < s.lagCount) :
    ∃! index, index < s.lagCount ∧ (index + s.channels) % s.lagCount = raw := by
  refine ⟨(raw + s.channels) % s.lagCount, ⟨Nat.mod_lt _ (Nat.zero_lt_of_lt h), turn_twice h⟩, ?_⟩
  rintro index ⟨hindex, rfl⟩
  exact (turn_twice hindex).symm

/-- The half spectrum is completed to one that is its own conjugate in reverse, in place: every
entry is assigned once and no index leaves the array.  So the imaginary parts at the two ends
have no influence.  The lags are those of the transform, each of them once, turned so that lag
zero is in the middle.  A spectrum of another length is refused. -/
theorem lagFunction_of_whole (s : FringeSearch) (spectrum : Spectrum) :
    let size := 2 * s.channels
    let whole := spectrum.extend
    (spectrum.length = s.channels + 1 →
      Spectrum.fill? s.channels spectrum = some (whole.map fun entry => ⟨entry, 1⟩) ∧
      whole.length = size ∧
      (∀ k < size, ∃ a b, whole[k]? = some a ∧ whole[(size - k) % size]? = some b ∧
        Spectrum.ConjugateOf a b) ∧
      (∀ k, 0 < k → k < s.channels → whole[k]? = spectrum[k]?) ∧
      whole[0]? = spectrum[0]?.map Sample.realOnly ∧
      whole[s.channels]? = spectrum[s.channels]?.map Sample.realOnly ∧
      (∀ spectrum', Spectrum.AlikeWithin s.channels spectrum spectrum' →
        s.lagFunction spectrum' = s.lagFunction spectrum ∧
          s.fringe spectrum' = s.fringe spectrum) ∧
      ∃ lags, s.lagFunction spectrum = .ok lags ∧
        lags = ((s.transform.apply whole).rotate s.channels).map s.magnitude ∧
        lags[s.channels]? = (s.transform.apply whole)[0]?.map s.magnitude ∧
        ∀ raw < size, ∃! index, index < size ∧ (index + s.channels) % size = raw ∧
          lags[index]? = (s.transform.apply whole)[raw]?.map s.magnitude) ∧
    (spectrum.length ≠ s.channels + 1 →
      s.lagFunction spectrum = .error (.wrongLength (s.channels + 1) spectrum.length) ∧
        s.fringe spectrum = .error (.wrongLength (s.channels + 1) spectrum.length)) := by
  intro size whole
  have hpos := s.channels_pos
  refine ⟨fun h => ?_, fun h => ⟨lagFunction_of_wrong_length h, fringe_of_wrong_length h⟩⟩
  have hlags := lagFunction_eq h
  have hindex := @getElem?_lagFunction s spectrum _ h hlags
  refine ⟨Spectrum.fill?_eq h hpos, Spectrum.length_whole h hpos,
    fun k hk => Spectrum.extend_hermitian h hpos hk, fun k => Spectrum.extend_below h,
    Spectrum.extend_zero h hpos, Spectrum.extend_channels h hpos, fun spectrum' halike => ?_,
    _, hlags, rfl, ?_, fun raw hraw => ?_⟩
  · have hlength : spectrum'.length = spectrum.length := by
      have hre := congrArg List.length halike.re
      rwa [List.length_map, List.length_map] at hre
    have hsame : s.lagFunction spectrum' = s.lagFunction spectrum :=
      lagFunction_of_extend_eq hlength (halike.extend_eq h hpos)
    exact ⟨hsame, by rw [FringeSearch.fringe, FringeSearch.fringe, hsame]⟩
  · have hmiddle := hindex (by rw [lagCount]; omega : s.channels < s.lagCount)
    rwa [← Nat.two_mul, lagCount, Nat.mod_self] at hmiddle
  · obtain ⟨index, ⟨hlt, hplace⟩, hunique⟩ := existsUnique_place (s := s) hraw
    have hlag := hindex hlt
    rw [hplace] at hlag
    exact ⟨index, ⟨hlt, hplace, hlag⟩, fun other hother => hunique other ⟨hother.1, hother.2.1⟩⟩

/-- Three samples with imaginary parts at both ends.  They make the same four entries, and the
same lags and fringe, as without these parts, and a single sample is refused. -/
theorem lagFunction_of_three_samples :
    let one : Binary32 := ⟨0x3F800000⟩
    let two : Binary32 := ⟨0x40000000⟩
    let spectrum : Spectrum := [⟨one, two⟩, ⟨two, one⟩, ⟨two, two⟩]
    let real : Spectrum := [⟨one, .zero⟩, ⟨two, one⟩, ⟨two, .zero⟩]
    let s : FringeSearch := ⟨2, by decide, 0.05, .inverse⟩
    spectrum.length = s.channels + 1 ∧
      spectrum.extend = [⟨one, .zero⟩, ⟨two, one⟩, ⟨two, .zero⟩, ⟨two, one.negate⟩] ∧
      Spectrum.fill? 2 spectrum = some (spectrum.extend.map fun entry => ⟨entry, 1⟩) ∧
      s.lagFunction real = s.lagFunction spectrum ∧ s.fringe real = s.fringe spectrum ∧
      s.lagFunction [⟨one, two⟩] = .error (.wrongLength 3 1) := by
  intro one two spectrum real s
  obtain ⟨hwhole, -⟩ := lagFunction_of_whole s spectrum
  obtain ⟨hfill, -, -, -, -, -, hcongr, -⟩ := hwhole rfl
  have halike : Spectrum.AlikeWithin 2 spectrum real := by
    refine ⟨rfl, fun k hk hk' => ?_⟩
    obtain rfl : k = 1 := by omega
    rfl
  obtain ⟨hlags, hfringe⟩ := hcongr real halike
  obtain ⟨-, hwrong⟩ := lagFunction_of_whole s [⟨one, two⟩]
  exact ⟨rfl, by decide, hfill, hlags, hfringe, (hwrong (by decide)).1⟩

end FringeSearch
end Correlator
