import Correlator.Proofs.Header.Grammar
import Correlator.Proofs.Header.Names

/-!
# The block of names

The pieces of a block are what stands between its NULs; an empty piece behind the last NUL is
none.  A block is read by taking the first of them as names, and it fails only if there are too
few.  So a list of names is read whatever stands behind it, and even without its last NUL, as
long as the last name shows that it is there.
-/

namespace Correlator

namespace Field

/-- The pieces are those between the NULs, one after the other. -/
theorem pieces_prefix_splitOn (block : List UInt8) : pieces block <+: block.splitOn 0 := by
  induction block with
  | nil => exact List.nil_prefix
  | cons b block ih =>
    rw [List.splitOn_cons_eq_if_modifyHead, pieces]
    by_cases hb : b = 0
    · rw [if_pos hb, if_pos (beq_iff_eq.mpr hb), List.prefix_cons_inj]
      exact ih
    rw [if_neg hb, if_neg (fun heq => hb (beq_iff_eq.mp heq))]
    obtain ⟨rest, hrest⟩ := ih
    cases hpieces : pieces block with
    | nil =>
      rw [pieces_eq_nil_iff.mp hpieces]
      exact List.prefix_refl [[b]]
    | cons piece others =>
      rw [← hrest, hpieces]
      exact ⟨rest, rfl⟩

/-- Without a NUL behind it, a name is a piece if it has any bytes. -/
theorem pieces_of_notMem {name : List UInt8} (hne : name ≠ []) (h : (0 : UInt8) ∉ name) :
    pieces name = [name] := by
  have hprefix := pieces_prefix_splitOn name
  rw [List.splitOn_eq_singleton h] at hprefix
  rcases List.prefix_cons_iff.mp hprefix with hnil | ⟨rest, hpieces, hrest⟩
  · exact absurd (pieces_eq_nil_iff.mp hnil) hne
  · rw [hpieces, List.prefix_nil.mp hrest]

/-- Names without the last NUL.  An empty name at the end is then no piece any more. -/
theorem pieces_unended {names : List String} {last : String}
    (h : ∀ name ∈ names ++ [last], '\x00' ∉ name.toList) :
    pieces (listed names ++ Utf8.encode last)
      = (if last = "" then names else names ++ [last]).map Utf8.encode := by
  have hlast := Utf8.zero_notMem_encode (h last (List.mem_append_right _ List.mem_cons_self))
  rw [pieces_listed_append fun name hname => h name (List.mem_append_left _ hname)]
  by_cases hempty : last = ""
  · rw [if_pos hempty, hempty]
    exact List.append_nil _
  · have hbytes : Utf8.encode last ≠ [] := by
      intro hnil
      have hdecode := Utf8.decode_encode last
      rw [hnil, Utf8.decode, Utf8.decodeChars] at hdecode
      exact hempty hdecode.symm
    rw [if_neg hempty, pieces_of_notMem hbytes hlast, List.map_append]
    rfl

theorem dropLast_listed (names : List String) (last : String) :
    (listed (names ++ [last])).dropLast = listed names ++ Utf8.encode last := by
  have hlisted : listed (names ++ [last]) = (listed names ++ Utf8.encode last) ++ [0] := by
    simp [listed]
  rw [hlisted, List.dropLast_concat]

end Field

namespace Names

variable {stations sources : Int32}

/-- Names without their last NUL. -/
theorem ofBlock_dropLast {names : Names}
    (hnul : ∀ name ∈ names.stations ++ names.sources, '\x00' ∉ name.toList)
    (hstations : stations.toInt = names.stations.length)
    (hsources : sources.toInt = names.sources.length) :
    ofBlock names.toBlock.dropLast stations sources
      = if (names.stations ++ names.sources).getLast? = some "" then
          .error (.nameCount stations sources
            (names.stations.length + names.sources.length - 1))
        else .ok names := by
  have hlength : (names.stations ++ names.sources).length
      = names.stations.length + names.sources.length := List.length_append
  rw [toBlock]
  rcases List.eq_nil_or_concat (names.stations ++ names.sources) with hall | ⟨init, last, hall⟩
  · rw [hall, if_neg (by simp)]
    exact ofBlock_of_pieces [] hstations hsources (by rw [hall]; rfl)
  rw [List.concat_eq_append] at hall
  rw [hall] at hnul hlength
  have hpieces := Field.pieces_unended hnul
  rw [hall, Field.dropLast_listed, List.getLast?_concat]
  by_cases hlast : last = ""
  · rw [if_pos hlast] at hpieces
    have hfound := Field.length_pieces (Field.listed init ++ Utf8.encode last)
    rw [hpieces, List.length_map] at hfound
    rw [List.length_append, List.length_singleton] at hlength
    have hsigns : ¬ (stations < 0 ∨ sources < 0) := by
      simp only [Int32.lt_iff_toInt_lt, Int32.toInt_zero]
      omega
    rw [if_pos (congrArg some hlast), Header.ofBlock_of_few hsigns (by omega), ← hfound,
      ← hlength, Nat.add_sub_cancel]
  · rw [if_neg hlast, ← hall] at hpieces
    rw [if_neg (fun heq => hlast (Option.some.inj heq))]
    exact ofBlock_of_pieces [] hstations hsources (by rw [hpieces, List.append_nil])

/-- Reading a block in terms of its NULs. -/
theorem ofBlock_eq (block : List UInt8) (stations sources : Int32) :
    ofBlock block stations sources
      = if stations.toInt < 0 ∨ sources.toInt < 0 then .error (.nameCount stations sources 0)
        else if Field.namesPresent block < stations.toInt + sources.toInt then
          .error (.nameCount stations sources (Field.namesPresent block))
        else .ok ⟨((block.splitOn 0).take stations.toInt.toNat).map Utf8.decode,
          (((block.splitOn 0).drop stations.toInt.toNat).take sources.toInt.toNat).map
            Utf8.decode⟩ := by
  have hsigns : (stations < 0 ∨ sources < 0) ↔ (stations.toInt < 0 ∨ sources.toInt < 0) := by
    simp only [Int32.lt_iff_toInt_lt, Int32.toInt_zero]
  by_cases hnegative : stations.toInt < 0 ∨ sources.toInt < 0
  · rw [if_pos hnegative, Header.ofBlock_of_negative (hsigns.mpr hnegative)]
  rw [if_neg hnegative]
  by_cases hfew : Field.namesPresent block < stations.toInt + sources.toInt
  · rw [if_pos hfew, Header.ofBlock_of_few (hnegative ∘ hsigns.mp) hfew]
  obtain ⟨rest, hrest⟩ := Field.pieces_prefix_splitOn block
  have hlength := Field.length_pieces block
  rw [if_neg hfew, Header.ofBlock_of_enough (hnegative ∘ hsigns.mp) hfew, ← hrest,
    List.take_append_of_le_length (by omega), List.drop_append_of_le_length (by omega),
    List.take_append_of_le_length (by rw [List.length_drop]; omega)]

/-- What a block of names is read as.  It fails exactly if a count is negative or more names
are asked for than there are; the names are what stands between the NULs, in order, empty ones
included.  Names that were written are read back with anything behind them, and without the
last NUL unless that takes an empty name away. -/
theorem ofBlock_exact (block : List UInt8) (stations sources : Int32) :
    ((∃ names, ofBlock block stations sources = .ok names) ↔
      0 ≤ stations.toInt ∧ 0 ≤ sources.toInt ∧
        stations.toInt + sources.toInt ≤ Field.namesPresent block) ∧
    (∀ reason, ofBlock block stations sources = .error reason →
      reason = .nameCount stations sources
        (if stations.toInt < 0 ∨ sources.toInt < 0 then 0 else Field.namesPresent block)) ∧
    (∀ names, ofBlock block stations sources = .ok names →
      let between := block.splitOn 0
      names.stations = (between.take stations.toInt.toNat).map Utf8.decode ∧
      names.sources = ((between.drop stations.toInt.toNat).take sources.toInt.toNat).map
        Utf8.decode) ∧
    ∀ names : Names, (∀ name ∈ names.stations ++ names.sources, '\x00' ∉ name.toList) →
      stations.toInt = names.stations.length → sources.toInt = names.sources.length →
      (∀ tail, ofBlock (names.toBlock ++ tail) stations sources = .ok names) ∧
      ofBlock names.toBlock.dropLast stations sources
        = if (names.stations ++ names.sources).getLast? = some "" then
            .error (.nameCount stations sources
              (names.stations.length + names.sources.length - 1))
          else .ok names := by
  have heq := ofBlock_eq block stations sources
  refine ⟨?_, ?_, ?_, fun names hnul hstations hsources => ⟨fun tail => ?_, ?_⟩⟩
  · rw [heq]
    split
    · refine iff_of_false (by simp) (by omega)
    · split
      · refine iff_of_false (by simp) (by omega)
      · refine iff_of_true ⟨_, rfl⟩ (by omega)
  · intro reason herror
    rw [heq] at herror
    split at herror
    · rename_i hnegative
      rw [if_pos hnegative]
      exact (Except.error.inj herror).symm
    · rename_i hnegative
      rw [if_neg hnegative]
      split at herror
      · exact (Except.error.inj herror).symm
      · cases herror
  · intro names hok
    rw [heq] at hok
    split at hok
    · cases hok
    · split at hok
      · cases hok
      · cases hok
        exact ⟨rfl, rfl⟩
  · exact ofBlock_toBlock_append hnul hstations hsources tail
  · exact ofBlock_dropLast hnul hstations hsources

/-- Five names, of which two are empty, with bytes behind them that are no text.  Without its
last NUL the block holds one name less; a sixth name is one too many in either. -/
theorem ofBlock_of_empty_names :
    let names : Names := ⟨["Ef", "", "Øst"], ["3C48", ""]⟩
    (∀ name ∈ names.stations ++ names.sources, '\x00' ∉ name.toList) ∧
      ofBlock (names.toBlock ++ [0xFF, 0, 0xC3]) 3 2 = .ok names ∧
      ofBlock names.toBlock.dropLast 3 2 = .error (.nameCount 3 2 4) ∧
      ¬ ∃ names', ofBlock names.toBlock 3 3 = .ok names' := by
  intro names
  have hnul : ∀ name ∈ names.stations ++ names.sources, '\x00' ∉ name.toList := by decide
  obtain ⟨-, -, -, hwritten⟩ := ofBlock_exact names.toBlock 3 2
  obtain ⟨htail, hcut⟩ := hwritten names hnul rfl rfl
  obtain ⟨hmany, -⟩ := ofBlock_exact names.toBlock 3 3
  refine ⟨hnul, htail _, hcut, fun hok => absurd (hmany.mp hok).2.2 ?_⟩
  decide +kernel

end Names
end Correlator
