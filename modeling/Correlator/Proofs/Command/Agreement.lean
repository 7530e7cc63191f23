import Correlator.Command.Basic
import Correlator.Proofs.Command.Walk
import Correlator.Proofs.Header.Reopening
import Correlator.Proofs.Header.Written

/-!
# The command and the library

The command refuses for the first of several reasons (`Refused`), and otherwise makes a survey
that agrees with reading the header and walking on from where it leaves the stream, although
it opens the input a second time, keeps one tally, and forgives a last slice that is cut off.
-/

namespace Correlator

/-- The guard fraction that arguments ask for. -/
inductive GuardIs (a : Arguments) : Float → Prop
  | default : (a.values .guard).head? = none → GuardIs a defaultGuard
  | given {text : String} {guard : Float} : (a.values .guard).head? = some text →
    Decimal.read? text = some guard → 0 ≤ guard → guard < 0.5 → GuardIs a guard

/-- Arguments that are in order, with the input that they name and the settings. -/
structure Asks (arguments : List String) (a : Arguments) (input : String)
    (settings : Settings) : Prop where
  parsed : Arguments.parse arguments = .ok a
  input : a.input = some input
  guard : GuardIs a settings.guardFraction
  autos : settings.autos = a.isGiven .autos
  hint : settings.stationHint = ({} : Settings).stationHint

/-- Why no survey is made.  Each reason presupposes that there is none of those before it. -/
inductive Refused (openPath : OpenPath) (arguments : List String) : SurveyError → Prop
  | usage {reason : UsageError} : Arguments.parse arguments = .error reason →
    Refused openPath arguments (.usage reason)
  | guardText {a : Arguments} {text : String} : Arguments.parse arguments = .ok a →
    (a.values .guard).head? = some text → Decimal.read? text = none →
      Refused openPath arguments (.usage (.notANumber text))
  | guardRange {a : Arguments} {text : String} {guard : Float} :
    Arguments.parse arguments = .ok a → (a.values .guard).head? = some text →
      Decimal.read? text = some guard → ¬ (0 ≤ guard ∧ guard < 0.5) →
        Refused openPath arguments (.guardOutOfRange guard)
  | input {a : Arguments} {input : String} {settings : Settings} {reason : OpenError} :
    Asks arguments a input settings → openPath input = .error reason →
      Refused openPath arguments (.cannotOpen reason)
  | header {a : Arguments} {input : String} {settings : Settings} {source rest : Source}
    {reason : DecodeError} : Asks arguments a input settings → openPath input = .ok source →
      Header.read source = .error reason rest → Refused openPath arguments (.decode reason)
  | dryRun {a : Arguments} {input : String} {settings : Settings} {source rest : Source}
    {header : Header} : Asks arguments a input settings → openPath input = .ok source →
      Header.read source = .ok header rest → a.isGiven .dryRun = true →
        Refused openPath arguments .dryRun

variable {openPath : OpenPath} {arguments : List String} {a : Arguments}

namespace Arguments

/-- Arguments that are in order name an input. -/
theorem input_of_parse (h : parse arguments = .ok a) : ∃ input, a.input = some input := by
  unfold parse at h
  cases hfold : arguments.foldlM take {} with
  | error reason =>
    rw [hfold] at h
    cases h
  | ok p =>
    rw [hfold] at h
    have hfinish : finish p = .ok a := h
    dsimp only [finish] at hfinish
    split at hfinish
    · cases hfinish
    split at hfinish
    · cases hfinish
    split at hfinish
    · cases hfinish
    rename_i hinput
    split at hfinish
    · cases hfinish
    rw [← Except.ok.inj hfinish]
    exact Option.ne_none_iff_exists'.mp fun hnone => hinput (by rw [hnone]; rfl)

end Arguments

namespace Survey

theorem guardOf_eq_ok {guard : Float} : guardOf a = .ok guard ↔ GuardIs a guard := by
  constructor
  · intro h
    unfold guardOf at h
    split at h
    · rename_i hnone
      rw [← Except.ok.inj h]
      exact .default hnone
    rename_i text htext
    split at h
    · cases h
    rename_i found hfound
    split at h
    · rename_i hrange
      rw [← Except.ok.inj h]
      exact .given htext hfound hrange.1 hrange.2
    · cases h
  · intro h
    unfold guardOf
    cases h with
    | default hnone => rw [hnone]
    | given htext hfound hlow hhigh => simp only [htext, hfound, hlow, hhigh, and_self, if_true]

theorem request_eq_ok {input : String} {settings : Settings} :
    request arguments = .ok (a, input, settings) ↔ Asks arguments a input settings := by
  constructor
  · intro h
    unfold request at h
    split at h
    · cases h
    rename_i a' hparse
    split at h
    · cases h
    rename_i guard hguard
    simp only [Except.ok.injEq, Prod.mk.injEq] at h
    obtain ⟨rfl, hinput, rfl⟩ := h
    obtain ⟨named, hnamed⟩ := Arguments.input_of_parse hparse
    rw [hnamed, Option.getD_some] at hinput
    exact ⟨hparse, hinput ▸ hnamed, guardOf_eq_ok.mp hguard, rfl, rfl⟩
  · intro h
    obtain ⟨autos, guardFraction, stationHint⟩ := settings
    obtain ⟨hparse, hinput, hguard, rfl, rfl⟩ := h
    unfold request
    rw [hparse]
    simp only [guardOf_eq_ok.mpr hguard, hinput, Option.getD_some]

theorem refused_of_request {reason : SurveyError} (h : request arguments = .error reason) :
    Refused openPath arguments reason := by
  unfold request at h
  split at h
  · rename_i hparse
    rw [← Except.error.inj h]
    exact .usage hparse
  rename_i a hparse
  split at h
  · rename_i hguard
    rw [← Except.error.inj h]
    unfold guardOf at hguard
    split at hguard
    · cases hguard
    rename_i text htext
    split at hguard
    · rename_i hnone
      rw [← Except.error.inj hguard]
      exact .guardText hparse htext hnone
    rename_i found hfound
    split at hguard
    · cases hguard
    · rename_i hrange
      rw [← Except.error.inj hguard]
      exact .guardRange hparse htext hfound hrange
  · cases h

/-- What becomes of arguments that are in order depends on the input. -/
theorem prepare_of_asks {input : String} {settings : Settings}
    (h : Asks arguments a input settings) :
    (∀ reason, openPath input = .error reason →
      (prepare openPath arguments).2 = .error (.cannotOpen reason)) ∧
    ∀ source, openPath input = .ok source →
      (∀ reason rest, Header.read source = .error reason rest →
        (prepare openPath arguments).2 = .error (.decode reason)) ∧
      ∀ header rest, Header.read source = .ok header rest → ∃ s : Survey,
        s.input = input ∧ s.header = header ∧ s.settings = settings ∧
        ⟨.info, s.summary⟩ ∈ (prepare openPath arguments).1 ∧
        (prepare openPath arguments).2 = if a.isGiven .dryRun then .error .dryRun else .ok s := by
  have hrequest := request_eq_ok.mpr h
  unfold prepare
  rw [hrequest]
  dsimp only
  refine ⟨fun reason hreason => by rw [hreason], fun source hsource => ?_⟩
  rw [hsource]
  dsimp only
  refine ⟨fun reason rest hread => by rw [hread], fun header rest hread => ?_⟩
  rw [hread]
  exact ⟨_, rfl, rfl, rfl, by simp, rfl⟩

/-- Either there is a reason to refuse, or there is a survey of what the arguments ask for with
the header of the input. -/
theorem prepare_cases (openPath : OpenPath) (arguments : List String) :
    (∃ reason, Refused openPath arguments reason ∧
      (prepare openPath arguments).2 = .error reason) ∨
    ∃ s a source rest, Asks arguments a s.input s.settings ∧ a.isGiven .dryRun = false ∧
      openPath s.input = .ok source ∧ Header.read source = .ok s.header rest ∧
      (prepare openPath arguments).2 = .ok s := by
  cases hrequest : request arguments with
  | error reason => exact .inl ⟨reason, refused_of_request hrequest, by rw [prepare, hrequest]⟩
  | ok asked =>
    obtain ⟨a, input, settings⟩ := asked
    have hasks := request_eq_ok.mp hrequest
    obtain ⟨hclosed, hopened⟩ := @prepare_of_asks openPath _ _ _ _ hasks
    cases hopen : openPath input with
    | error reason => exact .inl ⟨_, .input hasks hopen, hclosed reason hopen⟩
    | ok source =>
      obtain ⟨hunread, hheader⟩ := hopened source hopen
      cases hread : Header.read source with
      | error reason rest => exact .inl ⟨_, .header hasks hopen hread, hunread reason rest hread⟩
      | ok header rest =>
        obtain ⟨s, rfl, rfl, rfl, -, hs⟩ := hheader header rest hread
        cases hdry : a.isGiven .dryRun with
        | true => exact .inl ⟨_, .dryRun hasks hopen hread hdry, by rw [hs, if_pos hdry]⟩
        | false =>
          rw [hdry, if_neg Bool.false_ne_true] at hs
          exact .inr ⟨s, a, source, rest, hasks, hdry, hopen, hread, hs⟩

theorem prepare_of_refused {reason : SurveyError} (h : Refused openPath arguments reason) :
    (prepare openPath arguments).2 = .error reason := by
  -- The first three reasons are found before the input is opened.
  have hrequest : ∀ {reason}, request arguments = .error reason →
      (prepare openPath arguments).2 = .error reason := by
    intro reason h
    rw [prepare, h]
  cases h with
  | usage hparse =>
    refine hrequest ?_
    unfold request
    rw [hparse]
  | guardText hparse htext hnone =>
    refine hrequest ?_
    unfold request guardOf
    simp only [hparse, htext, hnone]
  | guardRange hparse htext hfound hrange =>
    refine hrequest ?_
    unfold request guardOf
    simp only [hparse, htext, hfound, if_neg hrange]
  | input hasks hopen => exact (prepare_of_asks hasks).1 _ hopen
  | header hasks hopen hread => exact ((prepare_of_asks hasks).2 _ hopen).1 _ _ hread
  | dryRun hasks hopen hread hdry =>
    obtain ⟨s, -, -, -, -, hs⟩ := ((prepare_of_asks hasks).2 _ hopen).2 _ _ hread
    rw [hs, if_pos hdry]

theorem prepare_eq_error {reason : SurveyError} :
    (prepare openPath arguments).2 = .error reason ↔ Refused openPath arguments reason := by
  refine ⟨fun h => ?_, prepare_of_refused⟩
  obtain ⟨found, hrefused, hfound⟩ | ⟨s, _, _, _, -, -, -, -, hs⟩ :=
    prepare_cases openPath arguments
  · rwa [Except.error.inj (h.symm.trans hfound)]
  · cases h.symm.trans hs

theorem prepare_eq_ok {s : Survey} (h : (prepare openPath arguments).2 = .ok s) :
    ∃ a source rest, Asks arguments a s.input s.settings ∧ a.isGiven .dryRun = false ∧
      openPath s.input = .ok source ∧ Header.read source = .ok s.header rest := by
  obtain ⟨reason, -, hreason⟩ | ⟨found, a, source, rest, hasks, hdry, hopen, hread, hfound⟩ :=
    prepare_cases openPath arguments
  · cases h.symm.trans hreason
  · rw [Except.ok.inj (h.symm.trans hfound)]
    exact ⟨a, source, rest, hasks, hdry, hopen, hread⟩

/-- The survey opens the input anew, and decodes what the library decodes behind the header. -/
theorem run_eq {s : Survey} {source rest : Source} {transform : Transform}
    (hopen : openPath s.input = .ok source) (hpos : source.pos = 0)
    (hread : Header.read source = .ok s.header rest) {visits : List Visit}
    {last : List LogLine} {failure : Option DecodeError}
    (hwalk : (Decoder.start s.header s.settings rest transform).Walk visits last failure) :
    s.run openPath transform =
      (visits.flatMap (fun visit => visit.log ++ s.sliceLines visit.slice) ++ last ++
          (ending visits.length failure).1,
        (ending visits.length failure).2) := by
  obtain ⟨hseek, hmatch⟩ := Header.reopened_matches hread hpos
  unfold run
  simp only [hopen, hseek]
  rw [s.walk_eq hwalk (Decoder.matches_start s.header s.settings transform hmatch)]
  show (_ ++ (ending (0 + visits.length) failure).1, (ending (0 + visits.length) failure).2) = _
  rw [Nat.zero_add]

/-- Agreement of a survey with the library: the input is opened, its header read, and then slice
after slice asked for where that leaves the stream.  The survey logs what is logged on the way
and reports each slice behind that, and ends as the walk ends, but forgives a stream that is
too short. -/
def Agrees (openPath : OpenPath) (arguments : List String) (s : Survey)
    (transform : Transform := .inverse) : Prop :=
  ∃ a source rest visits last failure,
    Asks arguments a s.input s.settings ∧ a.isGiven .dryRun = false ∧
    openPath s.input = .ok source ∧ Header.read source = .ok s.header rest ∧
    (Decoder.start s.header s.settings rest transform).Walk visits last failure ∧
    (s.run openPath transform).2 = (match failure with
      | none => .ok visits.length
      | some reason =>
        if reason.isEndOfStream then .ok visits.length else .error (.decode reason)) ∧
    (s.run openPath transform).1 =
      visits.flatMap (fun visit => visit.log ++ s.sliceLines visit.slice) ++ last ++
        (match failure with
        | none => [endLine visits.length]
        | some reason =>
          if reason.isEndOfStream then [droppingLine reason, endLine visits.length] else []) ∧
    (s.run openPath transform).1.filter LogLine.isHeading =
      visits.map (fun visit => s.heading visit.slice) ∧
    (s.run openPath transform).1.filter LogLine.isDropping = (match failure with
      | none => []
      | some reason => if reason.isEndOfStream then [droppingLine reason] else [])

theorem agrees {s : Survey} (hopen : ∀ path source, openPath path = .ok source → source.pos = 0)
    (h : (prepare openPath arguments).2 = .ok s) (transform : Transform) :
    s.Agrees openPath arguments transform := by
  obtain ⟨a, source, rest, hasks, hdry, hsource, hread⟩ := prepare_eq_ok h
  obtain ⟨visits, last, failure, hwalk⟩ :=
    (Decoder.start s.header s.settings rest transform).exists_walk
  have hrun := run_eq hsource (hopen _ _ hsource) hread hwalk
  obtain ⟨hquiet, hlast⟩ := hwalk.quiet
  obtain ⟨hheadings, hdroppings⟩ := s.filter_visits hquiet
  obtain ⟨hnone, hnone'⟩ := filter_quiet hlast
  obtain ⟨hend, hend'⟩ := filter_ending visits.length failure
  refine ⟨a, source, rest, visits, last, failure, hasks, hdry, hsource, hread, hwalk, ?_, ?_,
    ?_, ?_⟩
  · rw [hrun]
    cases failure with
    | none => rfl
    | some reason => cases hreason : reason.isEndOfStream <;> simp [ending, hreason]
  · rw [hrun]
    cases failure with
    | none => rfl
    | some reason => cases hreason : reason.isEndOfStream <;> simp [ending, hreason]
  · rw [hrun, List.filter_append, List.filter_append, hheadings, hnone, hend, List.append_nil,
      List.append_nil]
  · rw [hrun, List.filter_append, List.filter_append, hdroppings, hnone', hend']
    rfl

end Survey

namespace Command

variable {transform : Transform}

theorem execute_of_refused {reason : SurveyError} (h : Refused openPath arguments reason) :
    (execute openPath arguments transform).2 = refuse reason := by
  have hprepare := Survey.prepare_eq_error.mpr h
  unfold execute
  split
  · rename_i lines found heq
    rw [heq] at hprepare
    rw [Except.error.inj hprepare]
  · rename_i lines s heq
    rw [heq] at hprepare
    cases hprepare

theorem execute_of_prepared {s : Survey} (h : (Survey.prepare openPath arguments).2 = .ok s) :
    (execute openPath arguments transform).2 = conclude (s.run openPath transform).2 := by
  unfold execute
  split
  · rename_i lines reason heq
    rw [heq] at h
    cases h
  · rename_i lines found heq
    rw [heq] at h
    rw [Except.ok.inj h]

/-- Being asked for help, for the version or for a dry run is no failure. -/
theorem status_refuse (reason : SurveyError) : ((refuse reason).status = 0 ↔
      reason = .usage .helpWanted ∨ reason = .usage .versionWanted ∨ reason = .dryRun) ∧
    (refuse reason).status ≤ 1 := by
  cases reason with
  | usage why => cases why <;> simp [refuse]
  | guardOutOfRange | cannotOpen | decode | dryRun => simp [refuse]

theorem status_conclude (outcome : Except SurveyError Nat) :
    ((conclude outcome).status = 0 ↔ ∃ slices, outcome = .ok slices) ∧
      (conclude outcome).status ≤ 1 := by
  cases outcome <;> simp [conclude]

/-- What the command ends with status 0 for. -/
def Succeeds (openPath : OpenPath) (arguments : List String)
    (transform : Transform := .inverse) : Prop :=
  Refused openPath arguments (.usage .helpWanted) ∨
    Refused openPath arguments (.usage .versionWanted) ∨ Refused openPath arguments .dryRun ∨
      ∃ s slices, (Survey.prepare openPath arguments).2 = .ok s ∧
        (s.run openPath transform).2 = .ok slices

theorem status_execute : ((execute openPath arguments transform).2.status = 0 ↔
      Succeeds openPath arguments transform) ∧
    (execute openPath arguments transform).2.status ≤ 1 := by
  unfold Succeeds
  simp only [← Survey.prepare_eq_error]
  cases hprepare : (Survey.prepare openPath arguments).2 with
  | error reason =>
    rw [execute_of_refused (Survey.prepare_eq_error.mp hprepare), (status_refuse reason).1]
    exact ⟨by simp, (status_refuse reason).2⟩
  | ok s =>
    rw [execute_of_prepared hprepare, (status_conclude _).1]
    exact ⟨by simp, (status_conclude _).2⟩

/-- The command refuses for the first reason that there is, and otherwise its survey agrees with
the library.  Once the header is read there is a report of what is going to be done, also when
that is all.  The status says whether it went well. -/
theorem agrees_with_library
    (hopen : ∀ path source, openPath path = .ok source → source.pos = 0)
    (transform : Transform) :
    (∀ reason, (Survey.prepare openPath arguments).2 = .error reason ↔
      Refused openPath arguments reason) ∧
    (∀ a input settings source header rest, Asks arguments a input settings →
      openPath input = .ok source → Header.read source = .ok header rest →
        ∃ s : Survey, s.input = input ∧ s.header = header ∧ s.settings = settings ∧
          ⟨.info, s.summary⟩ ∈ (Survey.prepare openPath arguments).1 ∧
          (Survey.prepare openPath arguments).2 =
            if a.isGiven .dryRun then .error .dryRun else .ok s) ∧
    (∀ s, (Survey.prepare openPath arguments).2 = .ok s →
      s.Agrees openPath arguments transform) ∧
    ((execute openPath arguments transform).2.status = 0 ↔
      Succeeds openPath arguments transform) ∧
    (execute openPath arguments transform).2.status ≤ 1 :=
  ⟨fun _ => Survey.prepare_eq_error,
    fun _ _ _ _ _ _ hasks hsource hread =>
      ((Survey.prepare_of_asks hasks).2 _ hsource).2 _ _ hread,
    fun _ h => Survey.agrees hopen h transform, status_execute.1, status_execute.2⟩

/-- A run of slice 5 is reported.  The one of slice 6 that follows is cut off after three bytes
of its coordinates, which is no failure. -/
theorem agrees_with_library_cut :
    let f : Header.Fields := { experiment := "N24L1", channels := 1 }
    let bytes := f.encode ++ (Run.encode ⟨5, [], [], []⟩
      ++ Stored.encode (⟨6, 0, 1, 0⟩ : RunCounts) ++ [1, 2, 3])
    let openPath : OpenPath := fun _ => .ok (.ofBytes bytes)
    (∀ path source, openPath path = .ok source → source.pos = 0) ∧
      ∃ s slice, (Survey.prepare openPath ["in.cor"]).2 = .ok s ∧ slice.number = 5 ∧
        (s.run openPath).2 = .ok 1 ∧
        (s.run openPath).1.filter LogLine.isHeading = [s.heading slice] ∧
        (s.run openPath).1.filter LogLine.isDropping =
          [Survey.droppingLine (.endOfStream .uvw 32 3)] ∧
        (execute openPath ["in.cor"]).2.status = 0 := by
  intro f bytes openPath
  have hopen : ∀ path source, openPath path = .ok source → source.pos = 0 := by
    intro path source h
    rw [← Except.ok.inj h]
    rfl
  have hf : f.WellFormed := ⟨by decide, by decide, by decide, by simp [f]⟩
  obtain ⟨header, hheader, -, hchannels⟩ := hf.ofBytes_encode []
  rw [List.append_nil] at hheader
  obtain ⟨rest, hread, hreach⟩ :=
    Header.read_written hf.size hheader (Source.serves_ofBytes bytes)
  have hasks : Asks ["in.cor"] { input := some "in.cor" } "in.cor" {} :=
    ⟨by decide, rfl, .default rfl, rfl, rfl⟩
  obtain ⟨-, hreport, hagrees, hstatus, -⟩ :=
    @agrees_with_library openPath ["in.cor"] hopen .inverse
  obtain ⟨s, hinput, hsheader, hsettings, -, hs⟩ := hreport _ _ _ _ _ _ hasks rfl hread
  have hprepare : (Survey.prepare openPath ["in.cor"]).2 = .ok s := hs
  obtain ⟨a, source, rest', visits, last, failure, -, -, hsource, hread', hwalk, houtcome, -,
    hheadings, hdropping⟩ := hagrees s hprepare
  obtain rfl : Source.ofBytes bytes = source := Except.ok.inj hsource
  rw [hsheader, hread] at hread'
  obtain rfl : rest = rest' := by
    rw [EStateM.Result.ok.injEq] at hread'
    exact hread'.2
  rw [hsheader, hsettings] at hwalk
  have hchannels : header.channels = 1 := hchannels
  have htail : Transcript.ofBytes 1 rest.ahead =
      ⟨[⟨5, [], [], []⟩], .broken 6 (.endOfStream .uvw 32 3)⟩ := by
    rw [hreach.ahead]
    decide +kernel
  have hready : (Decoder.start header {} rest).Ready
      ⟨[⟨5, [], [], []⟩], .broken 6 (.endOfStream .uvw 32 3)⟩ := by
    have hpos : 0 < header.channels := by omega
    rw [← htail, ← hchannels]
    exact Decoder.ready_ofBytes rfl hpos hreach.readFault hreach.seekFault
  -- There is only one walk for a decoder that answers slice 5 and then a failure.
  have hanswer := Decoder.answer_of_ready hready
  cases hwalk with
  | ended h => cases h.symm.trans (hanswer 0)
  | failed h => cases h.symm.trans (hanswer 0)
  | slice h hbehind =>
    cases hbehind with
    | ended h' => cases h'.symm.trans (hanswer 1)
    | slice h' => cases h'.symm.trans (hanswer 1)
    | failed h' =>
      obtain rfl := Except.error.inj (h'.symm.trans (hanswer 1))
      have hslice := Option.some.inj (Except.ok.inj (h.symm.trans (hanswer 0)))
      have hend : (s.run openPath).2 = .ok 1 := houtcome
      refine ⟨hopen, s, _, hprepare, congrArg Slice.number hslice, hend, hheadings, hdropping, ?_⟩
      exact hstatus.mpr (.inr (.inr (.inr ⟨s, 1, hprepare, hend⟩)))

end Command
end Correlator
