import BotScript.Checksum
import BotScript.Proofs.SnapshotBytes
import BotScript.Proofs.Tokenization
import BotScript.Token.Signature
import Mathlib.Algebra.Group.Nat.Defs

namespace BotScript

/-!
# Signatures of joined texts

A signature is read along the links of the tokens, one text behind the other.
It is the checksum of the texts joined by single spaces, and a last position that
the walk never meets lets it run up to the end of the list.
-/

/-!
## Checksums bit by bit

The table of remainders does what shifting the bits of a message through the
register one at a time does.  A shift is linear, so eight of them can be taken
apart: the low byte of the register goes through the table, and the rest of it
moves down by a byte.
-/

namespace Crc32

/-! ## The serial register -/

/--
Shift one bit of a message into the register.  Where it differs from the bit
that leaves the register, the reflected polynomial is subtracted.
-/
def readBit (register : UInt32) (bit : Bool) : UInt32 :=
  if register.toNat.testBit 0 != bit then (register >>> 1) ^^^ 0xEDB88320 else register >>> 1

/-- The bits of a byte string, the lowest bit of each byte first. -/
def messageBits (bytes : List UInt8) : List Bool :=
  bytes.flatMap fun byte => (List.range 8).map byte.toNat.testBit

/-- The checksum of a byte string whose bits are read one at a time. -/
def serialChecksum (bytes : List UInt8) : UInt32 :=
  (messageBits bytes).foldl readBit 0xFFFFFFFF ^^^ 0xFFFFFFFF

/-! ## Shifts are linear -/

variable {register : UInt32} {count : Nat}

/-- The lowest bit of a word is set if the word is odd. -/
theorem and_one (register : UInt32) :
    (register &&& 1 == 1) = register.toNat.testBit 0 := by
  rw [Nat.testBit_zero, Bool.eq_iff_iff, beq_iff_eq, ← UInt32.toNat_inj, UInt32.toNat_and]
  simp [Nat.and_one_is_mod]

/-- A shift moves the register down by one bit, and subtracts the polynomial if that bit is set. -/
theorem shiftBit_eq (register : UInt32) :
    shiftBit register =
      (register >>> 1) ^^^ (if register.toNat.testBit 0 then polynomial else 0) := by
  unfold shiftBit
  rw [and_one]
  split <;> simp

/-- A shift is linear. -/
theorem shiftBit_xor (register other : UInt32) :
    shiftBit (register ^^^ other) = shiftBit register ^^^ shiftBit other := by
  have shifted : (register ^^^ other) >>> 1 = (register >>> 1) ^^^ (other >>> 1) := by
    apply UInt32.toBitVec_inj.mp
    simp [BitVec.ushiftRight_xor_distrib]
  have lowest : (register ^^^ other).toNat.testBit 0 =
      (register.toNat.testBit 0 ^^ other.toNat.testBit 0) := by
    rw [UInt32.toNat_xor, Nat.testBit_xor]
  rw [shiftBit_eq, shiftBit_eq, shiftBit_eq, shifted, lowest]
  cases register.toNat.testBit 0 <;> cases other.toNat.testBit 0
  · simp
  · simp [UInt32.xor_assoc]
  · simp only [Bool.true_xor, Bool.not_false, if_true, Bool.false_eq_true, if_false,
      UInt32.xor_zero]
    ac_rfl
  · have twice : (register >>> 1 ^^^ polynomial) ^^^ (other >>> 1 ^^^ polynomial) =
        (register >>> 1 ^^^ other >>> 1) ^^^ (polynomial ^^^ polynomial) := by
      ac_rfl
    simp [twice]

/-- Shifts are linear. -/
theorem shiftBits_xor (count : Nat) (register other : UInt32) :
    shiftBits count (register ^^^ other) = shiftBits count register ^^^ shiftBits count other := by
  induction count generalizing register other with
  | zero => rfl
  | succ count inductionHypothesis =>
      rw [shiftBits, shiftBit_xor, inductionHypothesis]
      rfl

/-- The last of a number of shifts. -/
theorem shiftBits_succ (count : Nat) (register : UInt32) :
    shiftBits (count + 1) register = shiftBit (shiftBits count register) := by
  induction count generalizing register with
  | zero => rfl
  | succ count inductionHypothesis => exact inductionHypothesis (shiftBit register)

/-- Zeros that leave the register subtract nothing. -/
theorem toNat_shiftBits_of_dvd
    (zeros : 2 ^ count ∣ register.toNat) :
    (shiftBits count register).toNat = register.toNat / 2 ^ count := by
  induction count generalizing register with
  | zero => simp [shiftBits]
  | succ count inductionHypothesis =>
      obtain ⟨rest, isRest⟩ := zeros
      have even : register.toNat = 2 * (2 ^ count * rest) := by rw [isRest, Nat.pow_succ']; ac_rfl
      have shifted : (shiftBit register).toNat = 2 ^ count * rest := by
        have lowest : register.toNat.testBit 0 = false := by rw [Nat.testBit_zero, even]; simp
        rw [shiftBit_eq, lowest]
        simp [Nat.shiftRight_eq_div_pow, even]
      rw [shiftBits, inductionHypothesis ⟨rest, shifted⟩, shifted, isRest,
        Nat.mul_div_cancel_left _ (Nat.two_pow_pos count),
        Nat.mul_div_cancel_left _ (Nat.two_pow_pos (count + 1))]

/-! ## Bytes -/

/-- The entry of the table under an index. -/
theorem table_get (index : Fin 256) :
    table.get index = shiftBits 8 (UInt32.ofNat index.val) := by
  have get_ofFn {size : Nat} (entries : Fin size → UInt32) (index : Fin size) :
      (Vector.ofFn entries).get index = entries index := by
    simp only [Vector.get, Vector.toArray_ofFn, Array.getElem_ofFn]
    rfl
  exact get_ofFn (fun byte => shiftBits 8 (UInt32.ofNat byte.val)) index

/-- A byte as a word. -/
theorem ofNat_toNat (byte : UInt8) :
    UInt32.ofNat byte.toNat = byte.toUInt32 := by
  apply UInt32.toNat_inj.mp
  simp

/-- The bits above the low ones are a multiple of a power of two. -/
theorem xor_mod_two_pow (number count : Nat) :
    number ^^^ number % 2 ^ count = 2 ^ count * (number / 2 ^ count) := by
  apply Nat.eq_of_testBit_eq
  intro place
  rw [Nat.testBit_xor, Nat.testBit_mod_two_pow, Nat.testBit_two_pow_mul, Nat.testBit_div_two_pow]
  by_cases low : place < count
  · simp [low, Nat.not_le.mpr low]
  · simp [low, Nat.not_lt.mp low]

/-- Eight shifts are those of the low byte, and the rest of the register moves down by a byte. -/
theorem shiftBits_eight (register : UInt32) :
    shiftBits 8 register = shiftBits 8 register.toUInt8.toUInt32 ^^^ (register >>> 8) := by
  have high : (register ^^^ register.toUInt8.toUInt32).toNat = 2 ^ 8 * (register.toNat / 2 ^ 8) := by
    rw [← xor_mod_two_pow, UInt32.toNat_xor]
    simp
  have moved : shiftBits 8 (register ^^^ register.toUInt8.toUInt32) = register >>> 8 := by
    apply UInt32.toNat_inj.mp
    rw [toNat_shiftBits_of_dvd ⟨_, high⟩, high, Nat.mul_div_cancel_left _ (Nat.two_pow_pos 8)]
    simp [Nat.shiftRight_eq_div_pow]
  have parts : register =
      register.toUInt8.toUInt32 ^^^ (register ^^^ register.toUInt8.toUInt32) := by
    rw [UInt32.xor_comm register, ← UInt32.xor_assoc, UInt32.xor_self, UInt32.zero_xor]
  calc shiftBits 8 register
      _ = shiftBits 8 (register.toUInt8.toUInt32 ^^^ (register ^^^ register.toUInt8.toUInt32)) := by
        rw [← parts]
      _ = _ := by rw [shiftBits_xor, moved]

/-- Reading a byte through the table is reading it by shifts. -/
theorem advance_eq_advanceBitwise (register : UInt32) (byte : UInt8) :
    advance register byte = advanceBitwise register byte := by
  have moved : (register ^^^ byte.toUInt32) >>> 8 = register >>> 8 := by
    apply UInt32.toNat_inj.mp
    have small : byte.toNat >>> 8 = 0 := by
      rw [Nat.shiftRight_eq_div_pow]
      exact Nat.div_eq_of_lt byte.toNat_lt
    simp [Nat.shiftRight_xor_distrib, small]
  unfold advance advanceBitwise
  dsimp only
  rw [table_get, shiftBits_eight (register ^^^ byte.toUInt32), moved, ofNat_toNat]

/-! ## Bits -/

/-- A bit of the message is added to the lowest bit of the register. -/
theorem readBit_eq (register : UInt32) (bit : Bool) :
    readBit register bit = shiftBit (register ^^^ UInt32.ofNat bit.toNat) := by
  have moved : (register ^^^ UInt32.ofNat bit.toNat) >>> 1 = register >>> 1 := by
    apply UInt32.toNat_inj.mp
    cases bit <;> simp [Nat.shiftRight_xor_distrib]
  have lowest : (register ^^^ UInt32.ofNat bit.toNat).toNat.testBit 0 =
      (register.toNat.testBit 0 != bit) := by
    cases bit with
    | false => simp
    | true =>
        rw [UInt32.toNat_xor, Nat.testBit_xor]
        simp
  rw [shiftBit_eq, moved, lowest, readBit]
  split <;> simp [polynomial]

/-- One more bit of a number. -/
theorem mod_two_pow_succ (number count : Nat) :
    number % 2 ^ (count + 1) =
      number % 2 ^ count ^^^ 2 ^ count * (number.testBit count).toNat := by
  apply Nat.eq_of_testBit_eq
  intro place
  rw [Nat.testBit_xor, Nat.testBit_mod_two_pow, Nat.testBit_mod_two_pow, Nat.testBit_two_pow_mul]
  rcases Nat.lt_trichotomy place count with low | rfl | high
  · simp [low, Nat.lt_succ_of_lt low, Nat.not_le.mpr low]
  · cases number.testBit place <;> simp
  · obtain ⟨distance, rfl⟩ : ∃ distance, place = count + (distance + 1) :=
      ⟨place - count - 1, by omega⟩
    have above : ¬count + (distance + 1) < count := Nat.not_lt.mpr (Nat.le_add_right _ _)
    cases number.testBit count <;> simp [Nat.testBit_succ, above]

/-- Reading the low bits of a message is reading their number by shifts. -/
theorem foldl_readBit
    (register : UInt32)
    (message : Nat)
    (short : count ≤ 32) :
    ((List.range count).map message.testBit).foldl readBit register =
      shiftBits count (register ^^^ UInt32.ofNat (message % 2 ^ count)) := by
  induction count with
  | zero => simp [shiftBits, Nat.mod_one]
  | succ count inductionHypothesis =>
      let bit := message.testBit count
      -- The bit comes to the lowest place when the bits below it have left the register.
      have isBit : (UInt32.ofNat (2 ^ count * bit.toNat)).toNat = 2 ^ count * bit.toNat := by
        have small : 2 ^ count * bit.toNat < 2 ^ 32 :=
          calc 2 ^ count * bit.toNat
            _ ≤ 2 ^ count * 1 := Nat.mul_le_mul_left _ bit.toNat_le
            _ < 2 ^ 32 := by simpa using Nat.pow_lt_pow_right Nat.one_lt_two short
        exact UInt32.toNat_ofNat_of_lt' small
      have arrives : shiftBits count (UInt32.ofNat (2 ^ count * bit.toNat)) =
          UInt32.ofNat bit.toNat := by
        apply UInt32.toNat_inj.mp
        rw [toNat_shiftBits_of_dvd ⟨_, isBit⟩, isBit,
          Nat.mul_div_cancel_left _ (Nat.two_pow_pos count)]
        cases bit <;> rfl
      rw [List.range_succ, List.map_append, List.foldl_append,
        inductionHypothesis (Nat.le_of_succ_le short)]
      calc readBit (shiftBits count (register ^^^ UInt32.ofNat (message % 2 ^ count))) bit
          _ = shiftBit (shiftBits count (register ^^^ UInt32.ofNat (message % 2 ^ count)) ^^^
                shiftBits count (UInt32.ofNat (2 ^ count * bit.toNat))) := by
            rw [readBit_eq, arrives]
          _ = shiftBits (count + 1) ((register ^^^ UInt32.ofNat (message % 2 ^ count)) ^^^
                UInt32.ofNat (2 ^ count * bit.toNat)) := by
            rw [← shiftBits_xor, ← shiftBits_succ]
          _ = shiftBits (count + 1) (register ^^^ UInt32.ofNat (message % 2 ^ (count + 1))) := by
            rw [UInt32.xor_assoc, ← UInt32.ofNat_xor, ← mod_two_pow_succ]

/-- The bits of a byte, read one at a time, are the byte read by shifts. -/
theorem foldl_readBit_byte (register : UInt32) (byte : UInt8) :
    ((List.range 8).map byte.toNat.testBit).foldl readBit register =
      advanceBitwise register byte := by
  rw [foldl_readBit register byte.toNat (by decide), Nat.mod_eq_of_lt byte.toNat_lt]
  rw [ofNat_toNat, advanceBitwise]

/-- The checksum that is read through the table is the one that is read bit by bit. -/
theorem checksum_eq_serialChecksum (bytes : List UInt8) :
    checksum bytes = serialChecksum bytes := by
  have registers (register : UInt32) :
      (messageBits bytes).foldl readBit register = bytes.foldl advance register := by
    induction bytes generalizing register with
    | nil => rfl
    | cons byte bytes inductionHypothesis =>
        rw [messageBits, List.flatMap_cons, List.foldl_append, foldl_readBit_byte,
          ← advance_eq_advanceBitwise]
        exact inductionHypothesis (advance register byte)
  rw [checksum, serialChecksum, registers]

end Crc32

/-- Two texts are read one behind the other. -/
theorem Crc32.readText_append (register : UInt32) (text other : String) :
    readText register (text ++ other) = readText (readText register text) other := by
  have bytes : (text ++ other).toUTF8.toList = text.toUTF8.toList ++ other.toUTF8.toList := by
    simp only [Codec.toList_byteArray, String.toUTF8_eq_toByteArray, String.toByteArray_append,
      ByteArray.data_append, Array.toList_append]
  unfold readText
  rw [bytes, List.foldl_append]

/-- The link in front of the next token. -/
theorem Link.next_ofCount
    {count index : Nat}
    (inside : index < count) :
    (ofCount count)[index]?.bind Link.next =
      if index + 1 < count then some (UInt32.ofNat (index + 1)) else none := by
  induction count with
  | zero => cases inside
  | succ count inductionHypothesis =>
      unfold ofCount append
      simp only [size_ofCount, Array.getElem?_push, Array.size_modify, Array.getElem?_modify]
      rcases Nat.lt_succ_iff_lt_or_eq.mp inside with isFormer | rfl
      · have former := inductionHypothesis isFormer
        rw [if_neg (Nat.ne_of_lt isFormer)]
        obtain ⟨link, isLink⟩ : ∃ link, (ofCount count)[index]? = some link := by
          rw [← Option.isSome_iff_exists]
          simpa [size_ofCount] using isFormer
        rw [isLink, Option.bind_some] at former
        by_cases isLast : count - 1 = index
        · obtain rfl : count = index + 1 := by omega
          simp [isLink]
        · have goesOn : index + 1 < count := by omega
          simp [isLast, isLink, former, goesOn, isFormer]
      · simp

namespace TokenList

variable {list other : TokenList} {index last bound : Nat} {started : Bool} {register : UInt32}

/-- The texts of a number of tokens from a position on. -/
def textsFrom (list : TokenList) (index count : Nat) : List String :=
  (List.range' index count).map list.textAt

/-- The register in front of a text. -/
def spaced (started : Bool) (register : UInt32) : UInt32 :=
  if started then Crc32.readText register " " else register

/-- The position behind one that is not the last one. -/
theorem next_links
    (goesOn : index + 1 < list.size)
    (fits : index + 1 < UInt32.size) :
    (list.links[index]?.bind Link.next).map UInt32.toNat = some (index + 1) := by
  unfold links
  rw [Link.next_ofCount (Nat.lt_of_succ_lt goesOn), if_pos goesOn, Option.map_some,
    UInt32.toNat_ofNat_of_lt' fits]

/-- Behind the last position there is none. -/
theorem next_links_last
    (isLast : index + 1 = list.size) :
    (list.links[index]?.bind Link.next).map UInt32.toNat = none := by
  unfold links
  rw [Link.next_ofCount (by omega), if_neg (by omega), Option.map_none]

/-- One step of a walk: the text at hand, and the rest of the walk behind it. -/
theorem readTexts_succ
    (links : Array Link) :
    list.readTexts links last (bound + 1) (some index) started register =
      if index = last then Crc32.readText (spaced started register) (list.textAt index)
      else
        list.readTexts links last bound ((links[index]?.bind Link.next).map UInt32.toNat) true
          (Crc32.readText (spaced started register) (list.textAt index)) := by
  simp [readTexts, spaced]

/-- At the end of the links nothing more is read. -/
theorem readTexts_none
    (links : Array Link) :
    list.readTexts links last bound none started register = register := by
  cases bound <;> rfl

/-- A walk up to a last position reads the texts joined by single spaces. -/
theorem readTexts_joined
    {left : Nat}
    (isLast : index + left = last)
    (inside : last < list.size)
    (fits : last < UInt32.size)
    (enough : left < bound) :
    list.readTexts list.links last bound (some index) started register =
      Crc32.readText (spaced started register)
        (" ".intercalate (list.textsFrom index (left + 1))) := by
  induction left generalizing index bound started register with
  | zero =>
      obtain ⟨bound, rfl⟩ : ∃ former, bound = former + 1 := ⟨bound - 1, by omega⟩
      obtain rfl : index = last := isLast
      rw [readTexts_succ, if_pos rfl]
      simp [textsFrom]
  | succ left inductionHypothesis =>
      obtain ⟨bound, rfl⟩ : ∃ former, bound = former + 1 := ⟨bound - 1, by omega⟩
      have joined : " ".intercalate (list.textsFrom index (left + 1 + 1)) =
          list.textAt index ++ (" " ++ " ".intercalate (list.textsFrom (index + 1) (left + 1))) := by
        simp [textsFrom, List.range'_succ, String.intercalate_cons_cons, String.append_assoc]
      rw [readTexts_succ, if_neg (by omega), next_links (by omega) (by omega),
        inductionHypothesis (by omega) (by omega), joined, Crc32.readText_append,
        Crc32.readText_append]
      rfl

/-- A walk that starts behind its last position runs up to the end of the list. -/
theorem readTexts_behind
    (isBehind : last < index)
    (inside : index < list.size)
    (fits : list.size ≤ UInt32.size) :
    list.readTexts list.links last bound (some index) started register =
      list.readTexts list.links (list.size - 1) bound (some index) started register := by
  induction bound generalizing index started register with
  | zero => rfl
  | succ bound inductionHypothesis =>
      rw [readTexts_succ, readTexts_succ, if_neg (Nat.ne_of_gt isBehind)]
      by_cases goesOn : index + 1 < list.size
      · rw [if_neg (by omega), next_links goesOn (by omega),
          inductionHypothesis (by omega) goesOn]
      · rw [if_pos (by omega), next_links_last (by omega), readTexts_none]

/-- A token list has the texts of its range one behind the other. -/
theorem textsBetween_eq
    (inside : last < list.size)
    (le : index ≤ last) :
    list.textsBetween index last = list.textsFrom index (last - index + 1) := by
  have count : last + 1 - index = last - index + 1 := by omega
  apply List.ext_getElem?
  intro place
  simp only [textsBetween, le, if_true, count, textsFrom, List.getElem?_map, List.getElem?_take,
    List.getElem?_drop, Array.getElem?_toList]
  split
  case isTrue isThere =>
    have found := Array.getElem?_eq_getElem (show index + place < list.tokens.size by
      simp only [size] at inside
      omega)
    rw [List.getElem?_range' isThere, Nat.one_mul, found]
    simp [textAt, found]
  case isFalse isNotThere =>
    rw [List.getElem?_eq_none (by simpa using isNotThere)]
    rfl

/-- The signature of a range is the checksum of its texts joined by single spaces. -/
theorem signature_eq_ofText
    (le : index ≤ last)
    (inside : last < list.size)
    (fits : last < UInt32.size) :
    list.signature index last = Crc32.ofText (" ".intercalate (list.textsBetween index last)) := by
  rw [signature, readTexts_joined (Nat.add_sub_of_le le) inside fits (by omega),
    textsBetween_eq inside le]
  rfl

/--
Signatures are serial checksums of joined texts.  A range whose last index lies
before its first one reaches to the end of the list.
-/
theorem signature_serial
    (list : TokenList) :
    (∀ bytes, Crc32.checksum bytes = Crc32.serialChecksum bytes) ∧
      (∀ first last : UInt32,
        first ≤ last → last.toNat < list.size →
          list.signature first.toNat last.toNat =
            Crc32.checksum
              (" ".intercalate (list.textsBetween first.toNat last.toNat)).toUTF8.toList) ∧
      (list.size ≤ UInt32.size →
        ∀ first last : UInt32,
          last < first → first.toNat < list.size →
            list.signature first.toNat last.toNat =
              list.signature first.toNat (list.size - 1)) := by
  refine ⟨Crc32.checksum_eq_serialChecksum, fun first last le inside => ?_,
    fun fits first last lt inside => ?_⟩
  · exact signature_eq_ofText (UInt32.le_iff_toNat_le.mp le) inside last.toNat_lt
  · rw [signature, readTexts_behind (UInt32.lt_iff_toNat_lt.mp lt) inside fits]
    rfl

/-- A part of a text with a comment and a literal of several bytes, and the rest of it. -/
theorem signature_serial_call :
    let list := ofSource .empty "f(/* é */\"é\" , 1)"
    list.signature 1 3 = Crc32.checksum "( \"é\" ,".toUTF8.toList ∧
      list.signature 3 1 = Crc32.checksum ", 1 ) ".toUTF8.toList := by
  intro list
  have facts :
      list.size = 7 ∧ " ".intercalate (list.textsBetween 1 3) = "( \"é\" ," ∧
        " ".intercalate (list.textsBetween 3 6) = ", 1 ) " := by
    decide +kernel
  obtain ⟨size, part, rest⟩ := facts
  obtain ⟨-, joins, wraps⟩ := signature_serial list
  have first := joins 1 3 (by decide) (by rw [size]; decide)
  have last := joins 3 6 (by decide) (by rw [size]; decide)
  have behind := wraps (by rw [size]; decide) 3 1 (by decide) (by rw [size]; decide)
  rw [size] at behind
  refine ⟨?_, ?_⟩
  · rw [← part]
    exact first
  · rw [← rest]
    exact behind.trans last

end TokenList

end BotScript
