import Mathlib
import DyadicNet.Proofs.Except
import DyadicNet.Proofs.FixedPoint.Codewords
import DyadicNet.Random.Samples
import DyadicNet.Random.WordSource

/-!
# Vectors of codewords

A vector of codewords is built from numbers: numbers that are given, the bits that values are
encoded as, zeros, or numbers that are drawn at random.  A codeword only has room for the bits of
its format, so a number with more of them would be cut off without notice.  **None ever is**: given
numbers are checked, the encoder masks, and a generator that is asked for a number of a range gives
one of it.  The last is all that is known of a generator.

What is built is therefore the numbers themselves, and as each codeword comes back from its value, a
vector comes back from its values.

## Main Definitions

* `LawfulGenerator` — generators that stay in their ranges;
* `FixedVector.Built` — a vector with the numbers that it is built from.

## Main Statements

* `Draw.forall_mem_replicate` — what is drawn for a list;
* `FixedVector.Built.eq_ofNumbers` — what is built;
* `codewords_fixed` — codewords and vectors come back.
-/

namespace DyadicNet

/-! ### Draws -/

/-- A generator that finds a number of each range. -/
class LawfulGenerator (G : Type) [Generator G] : Prop where
  mem_range (type : DrawType) {least greatest : ℕ} (h : least ≤ greatest) (g : G) :
    least ≤ (Generator.range type least greatest g).1 ∧
      (Generator.range type least greatest g).1 ≤ greatest

namespace Draw

variable {α β G : Type} [Generator G]

/-- The second computation goes on with the state after the first one. -/
theorem answered_bind (draw : Draw α) (f : α → Draw β) (g : G) :
    (draw >>= f).answered g = (f (draw.answered g).1).answered (draw.answered g).2 := by
  induction draw generalizing g with
  | done a => rfl
  | range type least greatest next ih => exact ih _ _

/-- What holds of every result of a draw holds of all elements of a list that is drawn. -/
theorem forall_mem_replicate {draw : Draw α} {P : α → Prop} (h : ∀ g : G, P (draw.answered g).1)
    (length : ℕ) (g : G) : ∀ a ∈ ((draw.replicate length).answered g).1, P a := by
  induction length generalizing g with
  | zero => exact fun _ ha => nomatch ha
  | succ length ih =>
    unfold replicate
    rw [answered_bind, answered_bind]
    exact List.forall_mem_cons.mpr ⟨h g, ih _⟩

end Draw

namespace WordStream

/-- The high half of the product of a word and a bound is below the bound. -/
theorem scaled_lt (stream : WordStream) {bound : ℕ} (h : 0 < bound) :
    stream.next.1 * bound / twoPow 32 < bound := by
  have hword : stream.next.1 < twoPow 32 := (stream.words stream.position).toNat_lt
  rw [Nat.div_lt_iff_lt_mul (twoPow_pos 32), Nat.mul_comm]
  exact Nat.mul_lt_mul_of_pos_left hword h

/-- A number below a bound is below it, no matter how many words are skipped. -/
theorem below_lt {bound : ℕ} (h : 0 < bound) (zone : ℕ) (stream : WordStream) :
    (below bound zone stream).1 < bound := by
  unfold below
  generalize maxSkips = skips
  induction skips generalizing stream with
  | zero => exact stream.scaled_lt h
  | succ skips ih =>
    unfold below.attempt
    dsimp only
    split_ifs
    · exact stream.scaled_lt h
    · exact ih _

instance : LawfulGenerator WordStream where
  mem_range type least greatest h stream := by
    have hnumber : (if greatest - least + 1 = twoPow 32 then stream.next
        else below (greatest - least + 1) (zone (greatest - least + 1) type) stream).1
          < greatest - least + 1 := by
      split_ifs with hfull
      · exact (stream.words stream.position).toNat_lt.trans_eq hfull.symm
      · exact below_lt (Nat.succ_pos _) _ stream
    show least ≤ (range type least greatest stream).1 ∧ (range type least greatest stream).1 ≤ greatest
    unfold range
    dsimp only
    omega

end WordStream

namespace FixedPoint

variable {format : Format}

/-! ### Lists of numbers -/

/-- The codewords of numbers without bits outside the format have these numbers as their bits. -/
theorem toNat_ofNat_of_masked {bits : ℕ} (h : bits &&& format.mask = bits) :
    (BitVec.ofNat format.totalBits bits).toNat = bits := by
  rw [BitVec.toNat_ofNat]
  exact Nat.mod_eq_of_lt ((masked_iff format).mp h)

namespace FixedVector

/-- A vector that is built for a format, with the numbers that its codewords are the low bits of.
Numbers that are drawn come from a generator. -/
inductive Built (G : Type) [Generator G] (format : Format) : List ℕ → FixedVector → Prop
  | ofNats {numbers : List ℕ} {vector : FixedVector} (h : ofNats? format numbers = .ok vector) :
      Built G format numbers vector
  | encode {values : List Binary64} {numbers : List ℕ} {vector : FixedVector}
      (hbits : values.mapM (encodeBits format) = .ok numbers)
      (h : encode? format values = .ok vector) : Built G format numbers vector
  | zeros (length : ℕ) : Built G format (List.replicate length 0) (zeros format length)
  | random (length : ℕ) (g : G) :
      Built G format (((Draw.number .word 0 format.mask).replicate length).answered g).1
        ((randomVector length format).answered g).1

variable {numbers : List ℕ} {vector : FixedVector}

/-- The vector of the low bits of numbers. -/
def ofNumbers (format : Format) (numbers : List ℕ) : FixedVector :=
  ⟨format, numbers.map (BitVec.ofNat format.totalBits)⟩

/-- Given numbers are a vector exactly if none has bits outside the format. -/
theorem ofNats?_eq_ok_iff :
    ofNats? format numbers = .ok vector ↔
      (∀ bits ∈ numbers, bits &&& format.mask = bits) ∧ ofNumbers format numbers = vector := by
  have hread : ∀ bits ∈ numbers, bits &&& format.mask = bits →
      codeword? format bits = .ok (BitVec.ofNat format.totalBits bits) :=
    fun bits _ hmasked => (codeword?_eq_ok_iff format).mpr ⟨hmasked, rfl⟩
  unfold ofNats?
  rw [map_eq_ok_iff]
  constructor
  · rintro ⟨codes, hcodes, rfl⟩
    have hmasked : ∀ bits ∈ numbers, bits &&& format.mask = bits := fun bits hbits =>
      have ⟨_, hcode⟩ := exists_ok_of_mapM hcodes bits hbits
      ((codeword?_eq_ok_iff format).mp hcode).1
    rw [mapM_eq_ok_map fun bits hbits => hread bits hbits (hmasked bits hbits)] at hcodes
    exact ⟨hmasked, congrArg (FixedVector.mk format) (Except.ok.inj hcodes)⟩
  · rintro ⟨hmasked, rfl⟩
    exact ⟨_, mapM_eq_ok_map fun bits hbits => hread bits hbits (hmasked bits hbits), rfl⟩

/-- Values that have codewords have the bits of these. -/
theorem exists_numbers_of_encode? {values : List Binary64}
    (h : encode? format values = .ok vector) :
    ∃ numbers, values.mapM (encodeBits format) = .ok numbers := by
  obtain ⟨codes, hcodes, -⟩ := map_eq_ok_iff.mp h
  refine exists_mapM fun value hvalue => ?_
  obtain ⟨code, hcode⟩ := exists_ok_of_mapM hcodes value hvalue
  obtain ⟨bits, hbits, -⟩ := map_eq_ok_iff.mp hcode
  exact ⟨bits, hbits⟩

/-- **What is built from numbers has these numbers as codewords**, because none of them has a bit
outside the format. -/
theorem Built.eq_ofNumbers {G : Type} [Generator G] [LawfulGenerator G]
    (h : Built G format numbers vector) :
    (∀ bits ∈ numbers, bits &&& format.mask = bits) ∧ vector = ofNumbers format numbers := by
  cases h with
  | ofNats h =>
    obtain ⟨hmasked, rfl⟩ := ofNats?_eq_ok_iff.mp h
    exact ⟨hmasked, rfl⟩
  | encode hbits h =>
    refine ⟨fun bits hmem => ?_, ?_⟩
    · obtain ⟨value, -, hencode⟩ := exists_mem_of_mapM hbits bits hmem
      exact masked_of_encodeBits format hencode
    · unfold encode? at h
      obtain ⟨codes, hcodes, rfl⟩ := map_eq_ok_iff.mp h
      have hlow := mapM_map_of_eq_ok (BitVec.ofNat format.totalBits) hbits
      exact congrArg (FixedVector.mk format) (Except.ok.inj (hcodes.symm.trans hlow))
  | zeros length =>
    refine ⟨fun bits hmem => ?_, ?_⟩
    · rw [List.eq_of_mem_replicate hmem, Nat.zero_and]
    · unfold FixedVector.zeros ofNumbers
      rw [List.map_replicate]
      rfl
  | random length g =>
    have hmask : format.mask < twoPow format.totalBits :=
      Nat.sub_one_lt (twoPow_pos format.totalBits).ne'
    constructor
    · refine Draw.forall_mem_replicate (fun g => (masked_iff format).mpr ?_) length g
      exact (LawfulGenerator.mem_range .word (Nat.zero_le format.mask) g).2.trans_lt hmask
    · unfold randomVector
      rw [Draw.answered_bind]
      rfl

/-! ### There and back -/

variable {G : Type} [Generator G] [LawfulGenerator G] (h : Built G format numbers vector)
include h

theorem Built.toNats_eq : vector.toNats = numbers := by
  obtain ⟨hmasked, rfl⟩ := h.eq_ofNumbers
  unfold toNats ofNumbers
  rw [List.map_map]
  exact (List.map_congr_left fun bits hbits => toNat_ofNat_of_masked (hmasked bits hbits)).trans
    (List.map_id numbers)

/-- The values of a vector are those of its numbers. -/
theorem Built.decodeBits_eq_ok : numbers.mapM (decodeBits format) = .ok vector.toReals := by
  obtain ⟨hmasked, rfl⟩ := h.eq_ofNumbers
  unfold toReals ofNumbers
  rw [List.map_map]
  exact mapM_eq_ok_map fun bits hbits => decodeBits_of_masked format (hmasked bits hbits)

/-- **A vector is what its values are encoded as.** -/
theorem Built.encode?_toReals : encode? format vector.toReals = .ok vector := by
  obtain ⟨-, rfl⟩ := h.eq_ofNumbers
  refine map_eq_ok_iff.mpr ⟨(ofNumbers format numbers).codes, ?_, rfl⟩
  exact mapM_map_eq_ok fun code _ => encode_decode format code

end FixedVector

/-! ### Codewords and vectors -/

/-- **Codewords are fixed points of the codec**, in every format.  A number without bits outside the
format has a value, and this value is encoded as the same number.  Codewords and the integers of the
range correspond, each way back is the inverse of the way there, and the codeword of any other
integer stands for one that is congruent to it.  The text of a codeword has one binary digit for
each bit and is read as the codeword.  A vector can be given by any numbers without bits outside the
format, and by values that have codewords.  However it is built, from given numbers, values, zeros
or at random, by a generator that stays in its ranges, its codewords are such numbers, its values are
theirs, and it is what these values are encoded as. -/
theorem codewords_fixed {G : Type} [Generator G] [LawfulGenerator G] (format : Format) :
    (∀ bits, bits &&& format.mask = bits →
      ∃ value, decodeBits format bits = .ok value ∧ encodeBits format value = .ok bits) ∧
    (∀ code, (format.least ≤ toSigned format code ∧ toSigned format code ≤ format.greatest) ∧
      ofSigned format (toSigned format code) = code) ∧
    (∀ n, format.least ≤ n → n ≤ format.greatest → toSigned format (ofSigned format n) = n) ∧
    (∀ n, toSigned format (ofSigned format n) ≡ n [ZMOD 2 ^ format.totalBits]) ∧
    (∀ code, (bitsText format code).length = format.totalBits ∧
      (∀ digit ∈ (bitsText format code).toList, digit = '0' ∨ digit = '1') ∧
      binaryValue (bitsText format code).toList = code.toNat) ∧
    (∀ numbers, (∃ vector, FixedVector.ofNats? format numbers = .ok vector) ↔
      ∀ bits ∈ numbers, bits &&& format.mask = bits) ∧
    (∀ values vector, FixedVector.encode? format values = .ok vector →
      ∃ numbers, values.mapM (encodeBits format) = .ok numbers) ∧
    ∀ numbers vector, FixedVector.Built G format numbers vector →
      vector.toNats = numbers ∧ (∀ bits ∈ numbers, bits &&& format.mask = bits) ∧
      numbers.mapM (decodeBits format) = .ok vector.toReals ∧
      FixedVector.encode? format vector.toReals = .ok vector := by
  refine ⟨fun bits => encodeBits_decodeBits format, fun code => ?_,
    fun n => toSigned_ofSigned format, toSigned_ofSigned_modEq format, bitsText_spec format,
    fun numbers => ?_, fun values vector => FixedVector.exists_numbers_of_encode?,
    fun numbers vector h => ?_⟩
  · exact ⟨toSigned_mem_range format code, ofSigned_toSigned format code⟩
  · constructor
    · rintro ⟨vector, hvector⟩
      exact (FixedVector.ofNats?_eq_ok_iff.mp hvector).1
    · intro hmasked
      exact ⟨_, FixedVector.ofNats?_eq_ok_iff.mpr ⟨hmasked, rfl⟩⟩
  · exact ⟨h.toNats_eq, h.eq_ofNumbers.1, h.decodeBits_eq_ok, h.encode?_toReals⟩

/-- Four bits, two of them after the point. -/
def quarters : Format :=
  ⟨2, 2, true, by decide, by decide, by decide⟩

/-- A source whose first word is skipped for a range of sixteen numbers. -/
def skewedWords : WordStream :=
  ⟨fun position => if position = 0 then 0xffffffff else 0x80000000, 0⟩

/-- The least codeword comes back, given as a number, as a value, and drawn after a word was
skipped. -/
theorem codewords_fixed_least :
    let vector : FixedVector := ⟨quarters, [8]⟩
    LawfulGenerator WordStream ∧ 8 &&& quarters.mask = 8 ∧
      (∃ value, decodeBits quarters 8 = .ok value ∧ encodeBits quarters value = .ok 8) ∧
      (quarters.least ≤ -8 ∧ -8 ≤ quarters.greatest) ∧
      toSigned quarters (ofSigned quarters (-8)) = -8 ∧
      (∃ given, FixedVector.ofNats? quarters [8] = .ok given) ∧
      FixedVector.encode? quarters [.ofInt (-2)] = .ok vector ∧
      (∃ numbers, [Binary64.ofInt (-2)].mapM (encodeBits quarters) = .ok numbers) ∧
      FixedVector.Built WordStream quarters [8] vector ∧
      ((randomVector 1 quarters).answered skewedWords).1 = vector ∧ vector.toNats = [8] ∧
      [8].mapM (decodeBits quarters) = .ok vector.toReals ∧
      FixedVector.encode? quarters vector.toReals = .ok vector := by
  intro vector
  obtain ⟨hbits, -, hsigned, -, -, hgiven, hvalues, hvectors⟩ :=
    codewords_fixed (G := WordStream) quarters
  have hmasked : 8 &&& quarters.mask = 8 := by decide
  have hrange : quarters.least ≤ -8 ∧ -8 ≤ quarters.greatest := by decide
  have hencode : FixedVector.encode? quarters [.ofInt (-2)] = .ok vector := by decide +kernel
  have hdrawn : ((randomVector 1 quarters).answered skewedWords).1 = vector := by decide +kernel
  have hbuilt : FixedVector.Built WordStream quarters [8] vector :=
    hdrawn ▸ FixedVector.Built.random 1 skewedWords
  obtain ⟨hnumbers, -, hreals, hback⟩ := hvectors _ _ hbuilt
  exact ⟨inferInstance, hmasked, hbits 8 hmasked, hrange, hsigned (-8) hrange.1 hrange.2,
    (hgiven [8]).mpr (by simpa using hmasked), hencode, hvalues _ _ hencode, hbuilt, hdrawn, hnumbers,
    hreals, hback⟩

end FixedPoint

end DyadicNet
