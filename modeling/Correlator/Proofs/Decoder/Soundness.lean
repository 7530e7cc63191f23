import Correlator.Proofs.Decoder.Choices
import Correlator.Proofs.Decoder.Progress
import Correlator.Proofs.Tally.Counts
import Correlator.Proofs.Tally.Sound

/-!
# What a caller can rely on

The bytes may be anything and the stream may fail anywhere: after every call the tally that a
caller keeps is sound (`Tally.Sound`), and so is that of a slice.  What a slice holds balances
(`Tally.Balances`) with what the headers of its runs declare, as they lie in the bytes.
-/

namespace Correlator

/-- These headers lie in the bytes, each behind the records that the one before it declares. -/
inductive HeadersAt (channels : Nat) : List UInt8 → List RunHeader → Prop
  | nil (bytes : List UInt8) : HeadersAt channels bytes []
  | cons {bytes : List UInt8} {header : RunHeader} {headers : List RunHeader} :
    RunHeader.ofBytes (bytes.take (Stored.width RunCounts)) = .ok header →
    HeadersAt channels (bytes.drop (header.width channels)) headers →
      HeadersAt channels bytes (header :: headers)

namespace Setup

variable {s : Setup} {slice : Int32} {bytes rest : List UInt8}

theorem RunAt.header {run : Run} (h : s.RunAt bytes run rest) :
    RunHeader.ofBytes (bytes.take (Stored.width RunCounts)) = .ok run.header ∧
      rest = bytes.drop (run.header.width s.channels) := by
  obtain ⟨header, hheader, hparse⟩ := h.records
  rw [Run.header_of_parse hparse]
  refine ⟨hheader, ?_⟩
  have hsuffix : rest <:+ bytes :=
    (Run.parser_trims s.channels header hparse).trans (List.drop_suffix _ _)
  have hlength := h.length
  rw [Run.header_of_parse hparse] at hlength
  rw [List.suffix_iff_eq_drop.mp hsuffix, hlength, Nat.add_sub_cancel]

theorem RunsAt.headersAt {runs : List Run} (h : s.RunsAt slice bytes runs rest) :
    HeadersAt s.channels bytes (runs.map Run.header) := by
  induction h with
  | nil bytes => exact .nil bytes
  | cons hrun _ _ ih =>
    obtain ⟨hheader, hrest⟩ := hrun.header
    rw [hrest] at ih
    exact .cons hheader ih

theorem RunsAt.samples {runs : List Run} (h : s.RunsAt slice bytes runs rest) :
    ∀ run ∈ runs, ∀ v ∈ run.visibilities, v.spectrum.length = s.channels + 1 := by
  induction h with
  | nil => simp
  | cons hrun _ _ ih =>
    obtain ⟨header, -, hparse⟩ := hrun.records
    exact List.forall_mem_cons.mpr ⟨(Run.slice_samples_of_parse hparse).2, ih⟩

end Setup

namespace Decoder

variable {d : Decoder} {t : Tally} {slice : Slice}

theorem taken_nextInto (h : d.next.taken (d.nextInto t).2 = .ok (some slice)) :
    d.next.result = .ok (some slice.number) ∧ slice.tally = t.clear.enterAll d.next.events := by
  obtain ⟨hresult, htally⟩ := found_of_map h
  refine ⟨hresult, htally.trans ?_⟩
  show (if d.finished then t else _) = _
  rw [(runs_of_next hresult).1]
  rfl

/-- Whatever tally a slice is decoded into, it holds what the runs of the slice declare. -/
theorem balances_of_movesOver (hchannels : 0 < d.setup.channels) {number : Int32}
    {runs : List Run} {rest : List UInt8} {skipped : Nat}
    (h : d.MovesOver number runs rest skipped) (t : Tally) :
    (t.clear.enterAll d.next.events).Balances d.setup.settings.autos runs := by
  have hfilled : (Slice.ofRuns d.setup d.stations runs).tally =
      (Tally.empty d.stations).enterAll d.next.events :=
    (found_of_map (d.answer_zero.symm.trans h.slice)).2
  have hagrees : (t.clear.enterAll d.next.events).Agrees
      (Slice.ofRuns d.setup d.stations runs).tally := by
    rw [hfilled, ← Tally.clear_empty]
    exact Tally.keeps_agrees _ _ _ (Tally.agrees_clear t _)
  have haccounts := (Tally.filing_accounts d.setup).addRuns hchannels h.runsAt.samples
    (Tally.accounts_empty d.setup d.stations)
  exact (hagrees.accounts haccounts).balances

end Decoder

namespace Session

variable {s : Session} {rel : Tally → Tally → Prop}

def after (s : Session) : List Call → Session
  | [] => s
  | call :: calls => (s.call call).2.after calls

theorem setup_after (s : Session) (calls : List Call) :
    (s.after calls).decoder.setup = s.decoder.setup := by
  induction calls generalizing s with
  | nil => rfl
  | cons call calls ih =>
    rw [after, ih]
    cases call <;> exact s.decoder.setup_next

theorem Beside.after {t : Session} (hrel : Tally.Lasting rel) (h : s.Beside rel t)
    (calls : List Call) : (s.after calls).Beside rel (t.after calls) := by
  induction calls generalizing s t with
  | nil => exact h
  | cons call calls ih => exact ih (h.call hrel call).2

/-- However a slice is asked for, some tally is cleared and filled. -/
theorem exists_taken (s : Session) (call : Call) :
    ∃ t : Tally, (s.call call).1.found = s.decoder.next.taken (s.decoder.nextInto t).2 := by
  cases call with
  | slice => exact ⟨.empty s.decoder.stations, rfl⟩
  | into => exact ⟨s.kept, rfl⟩

theorem beside_bothSound (header : Header) (settings : Settings) (source : Source)
    (transform : Transform) {kept : Tally} (hchannels : 0 < header.channels)
    (hkept : kept.Sound header.channels settings.autos) :
    Beside (Tally.BothSound header.channels settings.autos)
      ⟨.start header settings source transform, kept⟩
      ⟨.start header settings source transform, kept⟩ := by
  let setup : Setup := ⟨header.channels, settings, transform⟩
  have hsetup : setup.Beside (Tally.Keeps (Tally.BothSound setup.channels settings.autos)) setup :=
    Setup.beside_of_add rfl hchannels fun v _ _ h => ⟨h.1.addVisibility v, h.2.addVisibility v⟩
  have hroom := Tally.sound_empty header.channels settings.autos
    (Decoder.start header settings source transform).stations
  exact ⟨⟨hsetup, rfl, rfl, source.matches_self⟩, ⟨hroom, hroom⟩, ⟨hkept, hkept⟩⟩

/-- After any calls, on any stream and with any settings, the tally that is kept is sound,
whether the last call has found a slice, the end or a failure.  A slice that it has found is
sound too, and it holds what the headers of its runs declare. -/
theorem tallies_sound (header : Header) (settings : Settings) (source : Source)
    (transform : Transform) (room : Nat) (calls : List Call) (call : Call)
    (hchannels : 0 < header.channels) :
    let s := Session.after ⟨.start header settings source transform, .empty room⟩ calls
    let report := (s.call call).1
    report.kept.Sound header.channels settings.autos ∧
    ∀ slice, report.found = .ok (some slice) →
      slice.tally.Sound header.channels settings.autos ∧
      ∃ runs rest skipped, s.decoder.MovesOver slice.number runs rest skipped ∧
        HeadersAt header.channels s.decoder.source.remaining (runs.map Run.header) ∧
        slice.tally.Balances settings.autos runs := by
  intro s report
  -- The session stands beside itself, and the relation says that both tallies are sound.
  have hlasting := Tally.lasting_bothSound header.channels settings.autos
  have hbeside : s.Beside (Tally.BothSound header.channels settings.autos) s :=
    (beside_bothSound header settings source transform hchannels (Tally.sound_empty _ _ room)).after
      hlasting calls
  have hsetup : s.decoder.setup = ⟨header.channels, settings, transform⟩ := setup_after _ calls
  obtain ⟨hreport, -⟩ := hbeside.call hlasting call
  refine ⟨hreport.kept.1, fun slice hfound => ?_⟩
  have hsound : slice.tally.Sound header.channels settings.autos := by
    have hfound' := hreport.found
    rw [hfound] at hfound'
    cases hfound' with
    | slice number htally => exact htally.1
  obtain ⟨t, htaken⟩ := s.exists_taken call
  obtain ⟨hresult, htally⟩ := Decoder.taken_nextInto (htaken.symm.trans hfound)
  obtain ⟨runs, rest, skipped, hmoves⟩ := Decoder.exists_movesOver hresult
  have hheaders := hmoves.runsAt.headersAt
  have hbalances := Decoder.balances_of_movesOver (by rw [hsetup]; exact hchannels) hmoves t
  rw [hsetup] at hheaders hbalances
  rw [← htally] at hbalances
  exact ⟨hsound, runs, rest, skipped, hmoves, hheaders, hbalances⟩

/-- Coordinates of stations 1 and 300, a spectrum with a NaN and an auto-correlation that nobody
has asked for: one of the coordinates is filed and the first spectrum is skipped, and this
balances with the header, which declares two of each. -/
theorem tallies_sound_of_stray_records :
    let u : Uvw := ⟨1, 0, ⟨1⟩, ⟨2⟩, ⟨3⟩⟩
    let nan : Visibility := ⟨1, ⟨0, 1⟩, ⟨0, 0, 0⟩, [⟨⟨0x7FC00000⟩, ⟨0⟩⟩, ⟨⟨0⟩, ⟨0⟩⟩]⟩
    let run : Run := ⟨5, [u, { u with station := 300 }], [], [nan, { nan with pair := ⟨3, 3⟩ }]⟩
    let header : Header :=
      ⟨64, "N24L1", 2024, 1, 0, 1, 1000000, 1, 1000, .parallel, .plain⟩
    let s : Session := ⟨.start header {} (.ofBytes run.encode), .empty 2⟩
    let tally := Tally.addSkipped (Tally.addUvw (.empty 32) 1 u) ⟨⟨0, 1⟩, ⟨0, 0, 0⟩⟩
    0 < header.channels ∧ (s.call .slice).1.found = .ok (some ⟨5, tally⟩) ∧
      tally.Sound 1 false ∧
      ∃ runs, HeadersAt 1 run.encode (runs.map Run.header) ∧ tally.Balances false runs := by
  intro u nan run header s tally
  have hbytes : Transcript.ofBytes 1 s.decoder.source.ahead = ⟨[run], .clean 0⟩ := by
    decide +kernel
  have hready : s.decoder.Ready (Transcript.ofBytes 1 s.decoder.source.ahead) :=
    Decoder.ready_ofBytes rfl (by decide) rfl rfl
  rw [hbytes] at hready
  have hruns : Slice.ofRuns s.decoder.setup s.decoder.stations [run] = ⟨5, tally⟩ := by
    decide +kernel
  have hfound : (s.call .slice).1.found = .ok (some ⟨5, tally⟩) := by
    rw [← hruns]
    exact Decoder.answer_of_ready hready 0
  obtain ⟨-, hslice⟩ := tallies_sound header {} (.ofBytes run.encode) .inverse 2 [] .slice (by decide)
  obtain ⟨hsound, runs, -, -, -, hheaders, hbalances⟩ := hslice _ hfound
  exact ⟨by decide, hfound, hsound, runs, hheaders, hbalances⟩

end Session
end Correlator
