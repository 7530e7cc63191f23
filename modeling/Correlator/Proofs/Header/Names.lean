import Correlator.Recording
import Correlator.Proofs.Text.Utf8

/-!
# Names that were written

A list of names without NULs is cut back into the same names, so a reader finds the names
that were written.
-/

namespace Correlator

namespace Utf8

/-- UTF-8 keeps NUL for the character NUL. -/
theorem zero_notMem_encodeChar {c : Char} (h : c.val.toNat ≠ 0) :
    (0 : UInt8) ∉ String.utf8EncodeChar c := by
  fun_cases String.utf8EncodeChar c <;>
    simp only [List.mem_cons, List.not_mem_nil, or_false, ← UInt8.toNat_inj, UInt8.toNat_ofNat',
      UInt8.toNat_zero] <;>
    omega

theorem zero_notMem_encode {text : String} (h : '\x00' ∉ text.toList) :
    (0 : UInt8) ∉ encode text := by
  intro hmem
  obtain ⟨c, hc, hzero⟩ := List.mem_flatMap.mp hmem
  refine zero_notMem_encodeChar (fun hval => ?_) hzero
  have hnul : c = '\x00' := Char.ext (UInt32.toNat_inj.mp hval)
  exact h (hnul ▸ hc)

end Utf8

namespace Field

theorem pieces_append {name : List UInt8} (h : (0 : UInt8) ∉ name) (rest : List UInt8) :
    pieces (name ++ 0 :: rest) = name :: pieces rest := by
  induction name with
  | nil => simp [pieces]
  | cons b name ih =>
    have hb : b ≠ 0 := fun heq => h (heq ▸ List.mem_cons_self)
    have hname := ih fun hmem => h (List.mem_cons_of_mem b hmem)
    rw [List.cons_append, pieces, if_neg hb, hname]

/-- Names at the start of a block are pieces of it, whatever follows them. -/
theorem pieces_listed_append {names : List String} (h : ∀ name ∈ names, '\x00' ∉ name.toList)
    (tail : List UInt8) :
    pieces (listed names ++ tail) = names.map Utf8.encode ++ pieces tail := by
  induction names with
  | nil => rfl
  | cons name names ih =>
    have hname := Utf8.zero_notMem_encode (h name List.mem_cons_self)
    have hnames := ih fun n hn => h n (List.mem_cons_of_mem name hn)
    have hsplit : listed (name :: names) ++ tail
        = Utf8.encode name ++ 0 :: (listed names ++ tail) := by simp [listed]
    rw [hsplit, pieces_append hname, hnames, List.map_cons, List.cons_append]

theorem length_le_length_listed (names : List String) : names.length ≤ (listed names).length := by
  induction names with
  | nil => exact Nat.le_refl 0
  | cons name names ih =>
    simp only [listed, List.flatMap_cons, List.length_append, List.length_cons] at ih ⊢
    omega

end Field

theorem decode_encode_names (names : List String) :
    (names.map Utf8.encode).map Utf8.decode = names := by
  rw [List.map_map]
  exact List.map_id'' Utf8.decode_encode names

namespace Names

variable {block : List UInt8} {stations sources : Int32}

/-- A block whose first pieces are the names that are asked for. -/
theorem ofBlock_of_pieces {names : Names} (others : List (List UInt8))
    (hstations : stations.toInt = names.stations.length)
    (hsources : sources.toInt = names.sources.length)
    (hpieces : Field.pieces block
      = (names.stations ++ names.sources).map Utf8.encode ++ others) :
    ofBlock block stations sources = .ok names := by
  have hsigns : ¬ (stations < 0 ∨ sources < 0) := by
    simp only [Int32.lt_iff_toInt_lt, Int32.toInt_zero]
    omega
  have henough : ¬ (Field.pieces block).length < names.stations.length + names.sources.length := by
    rw [hpieces, List.length_append, List.length_map, List.length_append]
    omega
  unfold ofBlock
  rw [if_neg hsigns]
  simp only [hstations, hsources, Int.toNat_natCast, if_neg henough]
  rw [hpieces, List.map_append, List.append_assoc, List.take_left' (List.length_map _),
    List.drop_left' (List.length_map _), List.take_left' (List.length_map _),
    decode_encode_names, decode_encode_names]

/-- Names without NULs are read back as they were written, empty ones included, whatever stands
behind them. -/
theorem ofBlock_toBlock_append {names : Names}
    (hnul : ∀ name ∈ names.stations ++ names.sources, '\x00' ∉ name.toList)
    (hstations : stations.toInt = names.stations.length)
    (hsources : sources.toInt = names.sources.length) (tail : List UInt8) :
    ofBlock (names.toBlock ++ tail) stations sources = .ok names :=
  ofBlock_of_pieces _ hstations hsources (Field.pieces_listed_append hnul tail)

theorem ofBlock_toBlock {names : Names} (hlength : names.toBlock.length < 2 ^ 31)
    (hnul : ∀ name ∈ names.stations ++ names.sources, '\x00' ∉ name.toList) :
    ofBlock names.toBlock (Int32.ofNat names.stations.length)
      (Int32.ofNat names.sources.length) = .ok names := by
  have hcount := Field.length_le_length_listed (names.stations ++ names.sources)
  rw [List.length_append] at hcount
  unfold toBlock at hlength
  rw [← List.append_nil names.toBlock]
  exact ofBlock_toBlock_append hnul (Int32.toInt_ofNat_of_lt (by omega))
    (Int32.toInt_ofNat_of_lt (by omega)) []

end Names
end Correlator
