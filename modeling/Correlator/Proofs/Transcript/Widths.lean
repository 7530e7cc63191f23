import Correlator.Proofs.Transcript.Records

/-!
# How wide records are

Every record takes a fixed number of bytes, whatever stands in them, so the header of a run
says how wide the run is.
-/

namespace Correlator

namespace Parser

variable {α β : Type}

/-- What `p` takes off is `width` bytes wide, whatever its value. -/
def Takes (p : Parser α) (width : Nat) : Prop :=
  ∀ (bytes : List UInt8) (a : α) (rest : List UInt8), p bytes = .ok (a, rest) →
    bytes.length = width + rest.length

theorem takes_pure (a : α) : Takes (pure a) 0 := by
  intro bytes b rest h
  obtain ⟨-, rfl⟩ := pure_eq_ok.mp h
  rw [Nat.zero_add]

theorem takes_ofExcept (outcome : Except DecodeError α) : Takes (ofExcept outcome) 0 := by
  intro bytes a rest h
  obtain ⟨-, rfl⟩ := ofExcept_eq_ok.mp h
  rw [Nat.zero_add]

theorem takes_exactly (piece : Piece) (width : Nat) : Takes (exactly piece width) width := by
  intro bytes a rest h
  unfold exactly at h
  split at h
  · simp at h
  · simp only [Except.ok.injEq, Prod.mk.injEq] at h
    rw [← h.2, List.length_drop]
    omega

theorem takes_bind {p : Parser α} {q : α → Parser β} {width width' : Nat} (hp : Takes p width)
    (hq : ∀ a, Takes (q a) width') : Takes (p >>= q) (width + width') := by
  intro bytes b rest h
  obtain ⟨a, middle, h₁, h₂⟩ := bind_eq_ok.mp h
  rw [hp bytes a middle h₁, hq a middle b rest h₂, Nat.add_assoc]

theorem takes_map (f : α → β) {p : Parser α} {width : Nat} (h : Takes p width) :
    Takes (f <$> p) width := by
  rw [map_eq_pure_bind]
  exact takes_bind h fun a => takes_pure (f a)

theorem takes_many {p : Parser α} {width : Nat} (h : Takes p width) (count : Nat) :
    Takes (many p count) (width * count) := by
  induction count with
  | zero => exact takes_pure []
  | succ count ih =>
    rw [Nat.mul_succ, Nat.add_comm (width * count)]
    exact takes_bind h fun a => takes_map _ ih

theorem length_of_many {p : Parser α} {count : Nat} {bytes rest : List UInt8} {as : List α}
    (h : many p count bytes = .ok (as, rest)) : as.length = count := by
  induction count generalizing bytes as with
  | zero =>
    obtain ⟨rfl, -⟩ := pure_eq_ok.mp h
    rfl
  | succ count ih =>
    obtain ⟨a, middle, -, h⟩ := bind_eq_ok.mp h
    rw [map_eq_pure_bind] at h
    obtain ⟨others, last, hothers, h⟩ := bind_eq_ok.mp h
    obtain ⟨rfl, rfl⟩ := pure_eq_ok.mp h
    rw [List.length_cons, ih hothers]

end Parser

theorem Uvw.takes_parser : Uvw.parser.Takes 32 :=
  Parser.takes_map _ (Parser.takes_exactly _ _)

theorem Occupancy.takes_parser : Occupancy.parser.Takes 24 :=
  Parser.takes_bind (Parser.takes_exactly _ _) fun _ => Parser.takes_ofExcept _

theorem Visibility.takes_parser (channels : Nat) :
    (Visibility.parser channels).Takes (8 + 8 * (channels + 1)) := by
  have hpayload : 8 * (channels + 1) = payloadWidth channels + 0 := Nat.mul_comm _ _
  rw [hpayload]
  exact Parser.takes_bind (Parser.takes_exactly _ _) fun _ =>
    Parser.takes_bind (Parser.takes_exactly _ _) fun _ => Parser.takes_pure _

/-- The width of a run, header and records. -/
def RunHeader.width (channels : Nat) (h : RunHeader) : Nat :=
  16 + 32 * h.uvws + 24 * h.occupancies + (8 + 8 * (channels + 1)) * h.visibilities

namespace Run

variable {channels : Nat} {header : RunHeader} {bytes rest : List UInt8} {run : Run}

theorem header_of_parse (h : parser channels header bytes = .ok (run, rest)) :
    run.header = header := by
  obtain ⟨uvws, rest₁, huvws, h⟩ := Parser.bind_eq_ok.mp h
  obtain ⟨occupancies, rest₂, hoccupancies, h⟩ := Parser.bind_eq_ok.mp h
  obtain ⟨visibilities, rest₃, hvisibilities, h⟩ := Parser.bind_eq_ok.mp h
  obtain ⟨rfl, -⟩ := Parser.pure_eq_ok.mp h
  rw [Run.header, Parser.length_of_many huvws, Parser.length_of_many hoccupancies,
    Parser.length_of_many hvisibilities]

theorem length_of_parse (h : parser channels header bytes = .ok (run, rest)) :
    16 + bytes.length = run.header.width channels + rest.length := by
  have htakes : (parser channels header).Takes (32 * header.uvws + (24 * header.occupancies
      + (8 + 8 * (channels + 1)) * header.visibilities)) :=
    Parser.takes_bind (Parser.takes_many Uvw.takes_parser _) fun _ =>
      Parser.takes_bind (Parser.takes_many Occupancy.takes_parser _) fun _ =>
        Parser.takes_bind (Parser.takes_many (Visibility.takes_parser channels) _) fun _ =>
          Parser.takes_pure _
  rw [header_of_parse h, htakes bytes run rest h, RunHeader.width]
  omega

end Run
end Correlator
