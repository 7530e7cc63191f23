import Correlator.Proofs.Decoder.Sessions
import Correlator.Proofs.Tally.Parts

/-!
# What the settings decide

The same stream decoded with two choices of settings.  `reports_of_choices` says that the
settings have no part in which slices are found, how decoding ends and where the stream
stands, and that each of them decides only about its own part of a tally.
-/

namespace Correlator

namespace FringeSearch

variable {s s' : FringeSearch}

/-- The lags are found before the guard band is looked at. -/
theorem lagFunction_congr (hchannels : s.channels = s'.channels)
    (htransform : s.transform = s'.transform) (spectrum : Spectrum) :
    s.lagFunction spectrum = s'.lagFunction spectrum := by
  unfold lagFunction lagCount
  rw [hchannels, htransform]

theorem withoutSnr_fringeOfLags (hchannels : s.channels = s'.channels) (lags : List Float) :
    (Outcome.cross (s.fringeOfLags lags)).withoutSnr =
      (Outcome.cross (s'.fringeOfLags lags)).withoutSnr := by
  simp only [Outcome.withoutSnr, fringeOfLags, hchannels]

theorem fringe_withoutSnr (hchannels : s.channels = s'.channels)
    (htransform : s.transform = s'.transform) (spectrum : Spectrum) :
    ((s.fringe spectrum).map Outcome.cross).map Outcome.withoutSnr =
      ((s'.fringe spectrum).map Outcome.cross).map Outcome.withoutSnr := by
  rw [fringe, fringe, lagFunction_congr hchannels htransform]
  cases s'.lagFunction spectrum with
  -- `rfl` would compare the two searches before it looks at the lags.
  | error reason => simp only [Except.map]
  | ok lags => exact congrArg Except.ok (withoutSnr_fringeOfLags hchannels lags)

end FringeSearch

namespace Setup

variable {rel : Tally → Tally → Prop} {s s' : Setup}

/-- With channels, setups stand side by side if adding what becomes of a visibility keeps a
relation between tallies. -/
theorem beside_of_add (hchannels : s.channels = s'.channels) (hpos : 0 < s.channels)
    (hadd : ∀ v t u, rel t u → rel (t.addVisibility s v) (u.addVisibility s' v)) :
    s.Beside (Tally.Keeps rel) s' where
  channels := hchannels
  judged := by
    intro slice v hsamples
    rw [judgeVisibility_eq slice hpos hsamples,
      judgeVisibility_eq slice (hchannels ▸ hpos) (hchannels ▸ hsamples)]
    apply Judged.ok
    intro t u htally
    rw [Tally.enterAll_visibilityEvents, Tally.enterAll_visibilityEvents]
    exact hadd v t u htally

/-- The width of the guard band has a part in nothing but the signal to noise ratio. -/
theorem measure_withoutSnr (channels : Nat) (settings : Settings) (transform : Transform)
    (guardFraction : Float) (v : Visibility) :
    (measure ⟨channels, settings, transform⟩ v).map Outcome.withoutSnr =
      (measure ⟨channels, { settings with guardFraction }, transform⟩ v).map
        Outcome.withoutSnr := by
  unfold measure
  by_cases hauto : v.pair.isAuto = true
  · rw [if_pos hauto, if_pos hauto]
  rw [if_neg hauto, if_neg hauto]
  by_cases hpos : 0 < channels
  · rw [search_eq (s := ⟨channels, settings, transform⟩) hpos,
      search_eq (s := ⟨channels, _, transform⟩) hpos]
    let search : FringeSearch := ⟨channels, hpos, settings.guardFraction, transform⟩
    let search' : FringeSearch := ⟨channels, hpos, guardFraction, transform⟩
    have hsame : search.channels = search'.channels ∧ search.transform = search'.transform :=
      ⟨rfl, rfl⟩
    exact FringeSearch.fringe_withoutSnr hsame.1 hsame.2 v.spectrum
  · rw [search_eq_none (s := ⟨channels, settings, transform⟩) hpos,
      search_eq_none (s := ⟨channels, _, transform⟩) hpos]

end Setup

namespace Tally

variable {t u : Tally}

theorem stations_addVisibility (s : Setup) (v : Visibility) (t : Tally) :
    (t.addVisibility s v).occupancies = t.occupancies ∧ (t.addVisibility s v).uvws = t.uvws := by
  unfold addVisibility
  by_cases hauto : (v.pair.isAuto && !s.settings.autos) = true
  · rw [if_pos hauto]
    exact ⟨rfl, rfl⟩
  rw [if_neg hauto]
  split
  · split <;> exact ⟨rfl, rfl⟩
  · exact ⟨rfl, rfl⟩

theorem SameStations.addVisibility (h : t.SameStations u) (s s' : Setup) (v : Visibility) :
    (t.addVisibility s v).SameStations (u.addVisibility s' v) := by
  obtain ⟨ht, ht'⟩ := stations_addVisibility s v t
  obtain ⟨hu, hu'⟩ := stations_addVisibility s' v u
  constructor
  · rw [ht, hu]
    exact h.occupancies
  · rw [ht', hu']
    exact h.uvws

theorem LacksAutos.addVisibility (h : t.LacksAutos u) (channels : Nat) (settings : Settings)
    (transform : Transform) (v : Visibility) :
    (t.addVisibility ⟨channels, { settings with autos := false }, transform⟩ v).LacksAutos
      (u.addVisibility ⟨channels, { settings with autos := true }, transform⟩ v) := by
  have hmeasure : ∀ autos, Setup.measure ⟨channels, { settings with autos }, transform⟩ v =
      Setup.measure ⟨channels, settings, transform⟩ v := fun _ => rfl
  unfold Tally.addVisibility
  rw [hmeasure false, hmeasure true]
  simp only [Bool.not_false, Bool.and_true, Bool.not_true, Bool.and_false, Bool.false_eq_true,
    if_false]
  by_cases hfinite : v.isFinite = true
  · rw [if_pos hfinite, if_pos hfinite]
    cases Setup.measure ⟨channels, settings, transform⟩ v with
    | ok outcome => exact h.addFinding v.pair ⟨v.weight, v.channel, outcome⟩
    | error reason =>
      split
      · exact h
      · exact h
  · rw [if_neg hfinite, if_neg hfinite]
    exact h.addSkipped ⟨v.pair, v.channel⟩

theorem SameButSnr.addVisibility (h : t.SameButSnr u) (channels : Nat) (settings : Settings)
    (transform : Transform) (guardFraction : Float) (v : Visibility) :
    (t.addVisibility ⟨channels, settings, transform⟩ v).SameButSnr
      (u.addVisibility ⟨channels, { settings with guardFraction }, transform⟩ v) := by
  have hmeasure := Setup.measure_withoutSnr channels settings transform guardFraction v
  unfold Tally.addVisibility
  by_cases hauto : (v.pair.isAuto && !settings.autos) = true
  · rw [if_pos hauto, if_pos hauto]
    exact h
  rw [if_neg hauto, if_neg hauto]
  by_cases hfinite : v.isFinite = true
  · rw [if_pos hfinite, if_pos hfinite]
    generalize Setup.measure ⟨channels, settings, transform⟩ v = first at hmeasure
    generalize Setup.measure ⟨channels, { settings with guardFraction }, transform⟩ v = second
      at hmeasure
    cases first with
    | ok outcome =>
      cases second with
      | ok outcome' =>
        have houtcome : outcome.withoutSnr = outcome'.withoutSnr := Except.ok.inj hmeasure
        exact h.addFinding v.pair (congrArg (Finding.mk v.weight v.channel) houtcome)
      | error reason => cases hmeasure
    | error reason =>
      cases second with
      | ok outcome' => cases hmeasure
      | error reason' => exact h
  · rw [if_neg hfinite, if_neg hfinite]
    exact h.addSkipped ⟨v.pair, v.channel⟩

end Tally

theorem Source.matches_self (s : Source) : s.Matches (.alike True) s :=
  ⟨rfl, rfl, .inl rfl, .inl rfl, fun _ => trivial⟩

/-- Two sessions on one stream, by what becomes of visibilities and how much room there is. -/
theorem Session.reports_of_start {rel : Tally → Tally → Prop} {header : Header}
    {settings settings' : Settings} {transform : Transform} {kept kept' : Tally}
    (hrel : Tally.Lasting rel)
    (hsetup : Setup.Beside (Tally.Keeps rel) ⟨header.channels, settings, transform⟩
      ⟨header.channels, settings', transform⟩)
    (source : Source)
    (hroom : rel (.empty (Decoder.start header settings source transform).stations)
      (.empty (Decoder.start header settings' source transform).stations))
    (hkept : rel kept kept') (calls : List Call) :
    List.Forall₂ (Report.Beside rel) (run ⟨.start header settings source transform, kept⟩ calls)
      (run ⟨.start header settings' source transform, kept'⟩ calls) := by
  have hdecoder : (Decoder.start header settings source transform).Beside
      (Source.Matches (.alike True)) (Tally.Keeps rel)
      (.start header settings' source transform) :=
    ⟨hsetup, rfl, rfl, source.matches_self⟩
  have hsession : Beside rel ⟨.start header settings source transform, kept⟩
      ⟨.start header settings' source transform, kept'⟩ := ⟨hdecoder, hroom, hkept⟩
  exact reports_beside hrel hsession calls

namespace Decoder

/-- A decoder with any settings, asked in any way, finds the same slices and ends alike, and the
stream stands at the same place after every call; what is known of stations is the same.
Without auto-correlations a tally is what it is with them, less the pairs of a station with
itself.  The width of the guard band makes a difference to signal to noise ratios only. -/
theorem reports_of_choices (header : Header) (settings : Settings) (source : Source)
    (transform : Transform) (calls : List Call) (hchannels : 0 < header.channels) :
    let run := fun (settings : Settings) (kept : Tally) =>
      Session.run ⟨start header settings source transform, kept⟩ calls
    (∀ settings' kept kept', kept.SameStations kept' →
      List.Forall₂ (Report.Beside Tally.SameStations) (run settings kept) (run settings' kept')) ∧
    (∀ kept kept', kept.LacksAutos kept' →
      List.Forall₂ (Report.Beside Tally.LacksAutos) (run { settings with autos := false } kept)
        (run { settings with autos := true } kept')) ∧
    ∀ guardFraction kept kept', kept.SameButSnr kept' →
      List.Forall₂ (Report.Beside Tally.SameButSnr) (run settings kept)
        (run { settings with guardFraction } kept') := by
  intro run
  refine ⟨fun settings' kept kept' hkept => ?_, fun kept kept' hkept => ?_,
    fun guardFraction kept kept' hkept => ?_⟩
  · have hsetup : Setup.Beside (Tally.Keeps Tally.SameStations)
        ⟨header.channels, settings, transform⟩ ⟨header.channels, settings', transform⟩ :=
      Setup.beside_of_add rfl hchannels fun v _ _ h => h.addVisibility _ _ v
    exact Session.reports_of_start Tally.lasting_sameStations hsetup source
      (Tally.sameStations_empty _ _) hkept calls
  · have hsetup : Setup.Beside (Tally.Keeps Tally.LacksAutos)
        ⟨header.channels, { settings with autos := false }, transform⟩
        ⟨header.channels, { settings with autos := true }, transform⟩ :=
      Setup.beside_of_add rfl hchannels fun v _ _ h => h.addVisibility _ settings transform v
    exact Session.reports_of_start Tally.lasting_lacksAutos hsetup source
      (Tally.lacksAutos_empty _) hkept calls
  · have hsetup : Setup.Beside (Tally.Keeps Tally.SameButSnr)
        ⟨header.channels, settings, transform⟩
        ⟨header.channels, { settings with guardFraction }, transform⟩ :=
      Setup.beside_of_add rfl hchannels fun v _ _ h =>
        h.addVisibility _ settings transform guardFraction v
    exact Session.reports_of_start Tally.lasting_sameButSnr hsetup source ⟨rfl⟩ hkept calls

/-- An auto-correlation of station 3 with a NaN in it.  With auto-correlations it is noted as
skipped, and without them it leaves no trace, nor does it end the decoding. -/
theorem reports_of_nan_auto :
    let nan : Visibility := ⟨1, ⟨3, 3⟩, ⟨0, 0, 0⟩, [⟨⟨0x7FC00000⟩, ⟨0⟩⟩, ⟨⟨0⟩, ⟨0⟩⟩]⟩
    let header : Header :=
      ⟨64, "N24L1", 2024, 1, 0, 1, 1000000, 1, 1000, .parallel, .plain⟩
    let source : Source := .ofBytes (Run.encode ⟨5, [], [], [nan]⟩)
    let whole := Session.run ⟨start header { autos := true } source, {}⟩ [.slice]
    0 < header.channels ∧ Tally.LacksAutos {} {} ∧
      List.Forall₂ (Report.Beside Tally.LacksAutos)
        (Session.run ⟨start header { autos := false } source, {}⟩ [.slice]) whole ∧
      whole.map Report.found =
        [.ok (some ⟨5, Tally.addSkipped (.empty 32) ⟨⟨3, 3⟩, ⟨0, 0, 0⟩⟩⟩)] := by
  intro nan header source whole
  have hempty : Tally.LacksAutos {} {} := ⟨rfl, List.Pairwise.nil, by simp⟩
  have hbytes : Transcript.ofBytes 1 source.ahead = ⟨[⟨5, [], [], [nan]⟩], .clean 0⟩ := by
    decide +kernel
  let d := start header { autos := true } source
  have hready : d.Ready (Transcript.ofBytes 1 source.ahead) := ready_ofBytes rfl (by decide) rfl rfl
  rw [hbytes] at hready
  have hfound : whole.map Report.found = [d.answer 0] := rfl
  rw [answer_of_ready hready] at hfound
  have hreports := reports_of_choices header {} source .inverse [.slice] (by decide)
  exact ⟨by decide, hempty, hreports.2.1 _ _ hempty, hfound⟩

end Decoder
end Correlator
