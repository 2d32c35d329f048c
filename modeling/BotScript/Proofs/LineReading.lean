import BotScript.Host.FileAccess
import BotScript.Proofs.SnapshotBytes
import Mathlib.Data.List.TakeWhile

namespace BotScript

/-!
# Lines of files in memory and on disk

A reader in memory cuts lines out of the characters of a text; a reader on disk collects
them from blocks of its bytes.  The two deliver the same lines, and are at the end at the
same time, unless the text ends with a carriage return: in memory that one is taken off the
last line, although no line feed follows it.
-/

/-! ## Bytes of characters -/

/-- The bytes of characters. -/
def utf8Bytes (text : List Char) : List UInt8 :=
  text.flatMap String.utf8EncodeChar

namespace utf8Bytes

/-- Characters one behind the other. -/
theorem append (text rest : List Char) :
    utf8Bytes (text ++ rest) = utf8Bytes text ++ utf8Bytes rest :=
  List.flatMap_append

/-- The bytes of a text. -/
theorem of_toUTF8 (text : String) : text.toUTF8.toList = utf8Bytes text.toList := by
  have encoded : text.toByteArray = (utf8Bytes text.toList).toByteArray :=
    String.utf8Encode_toList.symm
  rw [Codec.toList_byteArray, String.toUTF8_eq_toByteArray, encoded, List.data_toByteArray]

/-- The bytes of characters are read back as a text. -/
theorem fromUTF8? (text : List Char) :
    String.fromUTF8? ⟨(utf8Bytes text).toArray⟩ = some (String.ofList text) := by
  have encoded : (⟨(utf8Bytes text).toArray⟩ : ByteArray) = (String.ofList text).toByteArray := by
    rw [String.toByteArray_ofList]
    exact ByteArray.ext (by rw [List.utf8Encode, List.data_toByteArray]; rfl)
  rw [encoded]
  exact dif_pos (String.ofList text).isValidUTF8

/-- A byte below 128 among those of a character is the only one, and is its number. -/
theorem eq_of_mem
    {character : Char}
    {byte : UInt8}
    (member : byte ∈ String.utf8EncodeChar character)
    (low : byte.toNat < 128) :
    character.toNat = byte.toNat := by
  change character.val.toNat = byte.toNat
  have high (number : Nat) (range : 128 ≤ number ∧ number < 256) :
      ¬ (UInt8.ofNat number).toNat < 128 := by
    rw [UInt8.toNat_ofNat']
    omega
  unfold String.utf8EncodeChar at member
  dsimp only at member
  split at member
  · obtain rfl := List.mem_singleton.mp member
    rw [UInt8.toNat_ofNat']
    omega
  · split at member
    · simp only [List.mem_cons, List.not_mem_nil, or_false] at member
      rcases member with rfl | rfl
      all_goals exact absurd low (high _ (by omega))
    · split at member
      · simp only [List.mem_cons, List.not_mem_nil, or_false] at member
        rcases member with rfl | rfl | rfl
        all_goals exact absurd low (high _ (by omega))
      · simp only [List.mem_cons, List.not_mem_nil, or_false] at member
        rcases member with rfl | rfl | rfl | rfl
        all_goals exact absurd low (high _ (by omega))

/-- A line feed among the bytes is one among the characters. -/
theorem feed_notMem
    {line : List Char}
    (absent : '\n' ∉ line) :
    (10 : UInt8) ∉ utf8Bytes line := by
  intro member
  obtain ⟨character, isThere, isByte⟩ := List.mem_flatMap.mp member
  obtain rfl : character = '\n' := Char.toNat_inj.mp (eq_of_mem isByte (by decide))
  exact absent isThere

/-- The bytes of a line, and those of what stands behind its line feed. -/
theorem toFeed (line behind : List Char) :
    utf8Bytes (line ++ '\n' :: behind) = utf8Bytes line ++ 10 :: utf8Bytes behind := by
  rw [append]
  rfl

/-- The bytes end with a carriage return if the characters do. -/
theorem getLast?_eq_return_iff {line : List Char} :
    (utf8Bytes line).getLast? = some 13 ↔ line.getLast? = some '\r' := by
  constructor
  · intro last
    obtain rfl | ⟨front, character, rfl⟩ := List.eq_nil_or_concat line
    · cases last
    · rw [List.concat_eq_append] at last ⊢
      have bytes : utf8Bytes [character] = String.utf8EncodeChar character := List.append_nil _
      have isByte : (13 : UInt8) ∈ String.utf8EncodeChar character := by
        rw [append, bytes, List.getLast?_append, Option.or_eq_some_iff] at last
        obtain isLast | ⟨empty, -⟩ := last
        · exact List.mem_of_getLast? isLast
        · exact absurd (List.getLast?_eq_none_iff.mp empty) String.utf8EncodeChar_ne_nil
      obtain rfl : character = '\r' := Char.toNat_inj.mp (eq_of_mem isByte (by decide))
      exact List.getLast?_concat
  · intro last
    obtain ⟨front, rfl⟩ := List.getLast?_eq_some_iff.mp last
    rw [append]
    exact List.getLast?_concat

end utf8Bytes

/-! ## The first line of a list -/

section FirstLine

variable {α : Type} [DecidableEq α] {ending : α} {line : List α}

/-- What stands in front of the first ending is taken. -/
theorem takeWhile_toEnding
    (absent : ending ∉ line)
    (behind : List α) :
    (line ++ ending :: behind).takeWhile (· != ending) = line := by
  rw [List.takeWhile_append_of_pos fun item member => by
    simpa using ne_of_mem_of_not_mem member absent]
  simp

/-- The first ending and what stands behind it is left. -/
theorem dropWhile_toEnding
    (absent : ending ∉ line)
    (behind : List α) :
    (line ++ ending :: behind).dropWhile (· != ending) = ending :: behind := by
  rw [List.dropWhile_append_of_pos fun item member => by
    simpa using ne_of_mem_of_not_mem member absent]
  simp

/-- Without an ending everything is taken. -/
theorem takeWhile_noEnding
    (absent : ending ∉ line) :
    line.takeWhile (· != ending) = line :=
  List.takeWhile_eq_self_iff.mpr fun _ member => by
    simpa using ne_of_mem_of_not_mem member absent

/-- Without an ending nothing is left. -/
theorem dropWhile_noEnding
    (absent : ending ∉ line) :
    line.dropWhile (· != ending) = [] :=
  List.dropWhile_eq_nil_iff.mpr fun _ member => by
    simpa using ne_of_mem_of_not_mem member absent

end FirstLine

/-! ## Readers in memory -/

/-- The text under a name is the one inserted last. -/
theorem MemoryFiles.get?_insert (files : MemoryFiles) (name text : String) :
    (files.insert name text).get? name = some text := by
  simp [get?, insert]

namespace MemoryFile

/-- A reader in memory cuts a line off in front of a line feed. -/
theorem readLine_toFeed
    {name : String}
    {line : List Char}
    (absent : '\n' ∉ line)
    (behind : List Char) :
    readLine ⟨name, .read, line ++ '\n' :: behind⟩ =
      (some (String.ofList (withoutReturn line)), ⟨name, .read, behind⟩) := by
  simp only [readLine, beq_self_eq_true, ↓reduceIte, takeWhile_toEnding absent,
    dropWhile_toEnding absent, List.drop_succ_cons, List.drop_zero]

/-- A reader in memory takes all that is left as the last line. -/
theorem readLine_last
    {name : String}
    {line : List Char}
    (absent : '\n' ∉ line) :
    readLine ⟨name, .read, line⟩ =
      (some (String.ofList (withoutReturn line)), ⟨name, .read, []⟩) := by
  simp only [readLine, beq_self_eq_true, ↓reduceIte, takeWhile_noEnding absent,
    dropWhile_noEnding absent, List.drop_nil]

/-- Only a carriage return is taken off the end of a line. -/
theorem withoutReturn_eq_self
    {line : List Char}
    (plain : line.getLast? ≠ some '\r') :
    withoutReturn line = line :=
  if_neg (by simpa using plain)

/-- A carriage return is taken off. -/
theorem withoutReturn_ne_self
    {line : List Char}
    (returns : line.getLast? = some '\r') :
    withoutReturn line ≠ line := by
  obtain ⟨front, rfl⟩ := List.getLast?_eq_some_iff.mp returns
  simp [withoutReturn]

end MemoryFile

/-! ## Readers on disk -/

namespace DirectoryReader

/-- A reader of a file has these bytes in front of it: some in its buffer, the others on disk. -/
structure Delivers (reader : DirectoryReader) (directory : Directory) (left : List UInt8) :
    Prop where
  source :
    ∃ number,
      reader.source = .file number ∧
        reader.buffer ++ (directory.bytes number).drop reader.position = left ∧
          left.length ≤ (directory.bytes number).length

variable {reader : DirectoryReader} {directory : Directory} {left : List UInt8}

/-- A buffer that is filled holds bytes, unless nothing is left. -/
theorem Delivers.fill
    (delivers : reader.Delivers directory left) :
    ∃ filled,
      reader.fill? directory = some filled ∧
        filled.Delivers directory left ∧ (filled.buffer = [] ↔ left = []) := by
  obtain ⟨number, source, ahead, size⟩ := delivers
  by_cases empty : reader.buffer = []
  · have fetched : reader.fill? directory = some { reader with
        position := reader.position +
          (((directory.bytes number).drop reader.position).take blockSize).length
        buffer := ((directory.bytes number).drop reader.position).take blockSize } := by
      simp [fill?, source, empty]
    rw [empty, List.nil_append] at ahead
    refine ⟨_, fetched, ⟨number, source, ?_, size⟩, ?_⟩
    · rw [← List.drop_drop, ahead, List.length_take, List.take_eq_take_min]
      exact List.take_append_drop _ left
    · rw [ahead]
      simp [blockSize]
  · refine ⟨reader, by simp [fill?, source, empty], ⟨number, source, ahead, size⟩, ?_⟩
    rw [← ahead]
    simp [empty]

/--
The bytes up to the next line feed, and this one, are collected behind those collected before.
Each round with a full buffer takes a byte at least, so the bound is not met.
-/
theorem Delivers.collectLine
    {bound : Nat}
    (delivers : reader.Delivers directory left)
    (room : left.length < bound)
    (line : List UInt8) :
    ∃ later,
      DirectoryReader.collectLine directory bound reader line =
          (some (line ++ left.takeWhile (· != 10) ++ (left.dropWhile (· != 10)).take 1), later) ∧
        later.Delivers directory ((left.dropWhile (· != 10)).drop 1) := by
  induction bound generalizing reader left line with
  | zero => cases room
  | succ bound inductionHypothesis =>
      obtain ⟨filled, isFilled, delivers, atEnd⟩ := delivers.fill
      obtain ⟨number, source, ahead, size⟩ := delivers.source
      unfold DirectoryReader.collectLine
      rw [isFilled]
      dsimp only
      by_cases feeds : (10 : UInt8) ∈ filled.buffer
      · obtain ⟨front, behind, cut, absent⟩ := List.eq_append_cons_of_mem feeds
        have whole :
            left = front ++ 10 :: (behind ++ (directory.bytes number).drop filled.position) := by
          rw [← ahead, cut, List.append_assoc, List.cons_append]
        rw [cut, takeWhile_toEnding absent, List.drop_left, whole, takeWhile_toEnding absent,
          dropWhile_toEnding absent]
        refine ⟨_, rfl, ⟨number, source, rfl, ?_⟩⟩
        have longer := congrArg List.length whole
        simp only [List.length_append, List.length_cons, List.drop_succ_cons, List.drop_zero]
          at longer ⊢
        omega
      · rw [takeWhile_noEnding feeds, List.drop_length]
        dsimp only
        by_cases empty : filled.buffer = []
        · obtain rfl := atEnd.mp empty
          rw [empty]
          exact ⟨filled, by simp, delivers⟩
        · rw [if_neg (by simpa using empty)]
          have shorter := congrArg List.length ahead
          rw [List.length_append] at shorter
          have holds := List.length_pos_iff.mpr empty
          have next : ({ filled with buffer := [] } : DirectoryReader).Delivers directory
              ((directory.bytes number).drop filled.position) :=
            ⟨number, source, rfl, by omega⟩
          obtain ⟨later, collected, delivers⟩ :=
            inductionHypothesis next (by omega) (line ++ filled.buffer)
          have all : ∀ byte ∈ filled.buffer, (byte != 10) = true := fun byte member => by
            simpa using ne_of_mem_of_not_mem member feeds
          refine ⟨later, ?_, ?_⟩
          · rw [collected, ← ahead, List.takeWhile_append_of_pos all,
              List.dropWhile_append_of_pos all, ← List.append_assoc line]
          · rw [← ahead, List.dropWhile_append_of_pos all]
            exact delivers

/-- A carriage return is taken off the bytes of a line as it is taken off the line. -/
theorem withoutEnding_fed (line : List Char) :
    withoutEnding (utf8Bytes line ++ [10]) = utf8Bytes (MemoryFile.withoutReturn line) := by
  simp only [withoutEnding, List.getLast?_concat, beq_self_eq_true, ↓reduceIte,
    List.dropLast_concat]
  by_cases returns : line.getLast? = some '\r'
  · rw [if_pos (by simpa using utf8Bytes.getLast?_eq_return_iff.mpr returns)]
    obtain ⟨front, rfl⟩ := List.getLast?_eq_some_iff.mp returns
    rw [utf8Bytes.append, MemoryFile.withoutReturn, if_pos (by simp), List.dropLast_concat]
    exact List.dropLast_concat
  · rw [if_neg (by simpa using mt utf8Bytes.getLast?_eq_return_iff.mp returns),
      MemoryFile.withoutReturn_eq_self returns]

/-- The bytes that a reader collects, as the lines that it delivers. -/
theorem Delivers.readLine_eq
    (delivers : reader.Delivers directory left) :
    ∃ later,
      later.Delivers directory ((left.dropWhile (· != 10)).drop 1) ∧
        ∀ line,
          line = left.takeWhile (· != 10) ++ (left.dropWhile (· != 10)).take 1 →
          reader.readLine directory =
            ((String.fromUTF8? ⟨line.toArray⟩).bind fun _ =>
              String.fromUTF8? ⟨(withoutEnding line).toArray⟩, later) := by
  obtain ⟨number, source, -, size⟩ := delivers.source
  have room : left.length < (directory.bytes number).length + 2 := by omega
  obtain ⟨later, collected, delivers⟩ := delivers.collectLine room []
  refine ⟨later, delivers, ?_⟩
  rintro line rfl
  unfold DirectoryReader.readLine
  rw [source]
  dsimp only
  rw [collected]
  rfl

/-- A reader on disk cuts a line off in front of a line feed. -/
theorem Delivers.readLine_toFeed
    {line behind : List Char}
    (delivers : reader.Delivers directory (utf8Bytes (line ++ '\n' :: behind)))
    (absent : '\n' ∉ line) :
    ∃ later,
      reader.readLine directory =
          (some (String.ofList (MemoryFile.withoutReturn line)), later) ∧
        later.Delivers directory (utf8Bytes behind) := by
  rw [utf8Bytes.toFeed] at delivers
  have noFeed := utf8Bytes.feed_notMem absent
  obtain ⟨later, delivers, isRead⟩ := delivers.readLine_eq
  rw [dropWhile_toEnding noFeed] at delivers
  refine ⟨later, ?_, delivers⟩
  have whole : utf8Bytes (line ++ ['\n']) = utf8Bytes line ++ [10] := utf8Bytes.toFeed line []
  rw [isRead (utf8Bytes (line ++ ['\n'])) (by
      rw [whole, takeWhile_toEnding noFeed, dropWhile_toEnding noFeed]
      rfl),
    utf8Bytes.fromUTF8?, whole, withoutEnding_fed, Option.bind_some, utf8Bytes.fromUTF8?]

/-- A reader on disk takes all that is left as the last line, with its carriage return. -/
theorem Delivers.readLine_last
    {line : List Char}
    (delivers : reader.Delivers directory (utf8Bytes line))
    (absent : '\n' ∉ line) :
    ∃ later,
      reader.readLine directory = (some (String.ofList line), later) ∧
        later.Delivers directory (utf8Bytes []) := by
  have noFeed := utf8Bytes.feed_notMem absent
  obtain ⟨later, delivers, isRead⟩ := delivers.readLine_eq
  rw [dropWhile_noEnding noFeed] at delivers
  refine ⟨later, ?_, delivers⟩
  have unended : withoutEnding (utf8Bytes line) = utf8Bytes line := by
    refine if_neg fun ends => noFeed (List.mem_of_getLast? ?_)
    simpa using ends
  rw [isRead (utf8Bytes line) (by
      rw [takeWhile_noEnding noFeed, dropWhile_noEnding noFeed, List.take_nil, List.append_nil]),
    unended, utf8Bytes.fromUTF8?, Option.bind_some]

/-- A reader on disk is at the end when no characters are left. -/
theorem Delivers.isAtEnd
    {text : List Char}
    (delivers : reader.Delivers directory (utf8Bytes text)) :
    ∃ later,
      reader.isAtEnd directory = (text.isEmpty, later) ∧
        later.Delivers directory (utf8Bytes text) := by
  obtain ⟨filled, isFilled, delivers, atEnd⟩ := delivers.fill
  refine ⟨filled, ?_, delivers⟩
  unfold DirectoryReader.isAtEnd
  rw [isFilled]
  have empty : utf8Bytes text = [] ↔ text = [] := by
    cases text with
    | nil => simp [utf8Bytes]
    | cons first rest => simp [utf8Bytes]
  rw [Prod.mk.injEq]
  refine ⟨Bool.eq_iff_iff.mpr ?_, rfl⟩
  rw [List.isEmpty_iff, List.isEmpty_iff, atEnd, empty]

end DirectoryReader

/-! ## Texts under simple names -/

namespace Directory

/-- A name of one part, which a file can have. -/
structure IsSimpleName (name : String) : Prop where
  notIdle : isIdle name = false
  notUpwards : name ≠ ".."
  noSlash : '/' ∉ name.toList
  noZero : '\x00' ∉ name.toList
  short : name.utf8ByteSize < partLimit

/-- Without slashes there is one part. -/
theorem splitName_noSlash
    {name : List Char}
    (noSlash : '/' ∉ name) :
    splitName name = [name] := by
  induction name with
  | nil => rfl
  | cons first rest inductionHypothesis =>
      obtain ⟨differ, noSlash⟩ := List.ne_and_not_mem_of_not_mem_cons noSlash
      simp [splitName, inductionHypothesis noSlash, Ne.symm differ]

/-- A simple name is its own path, unless the path is too long with the lead. -/
theorem path?_simple
    {directory : Directory}
    {name : String}
    (simple : IsSimpleName name)
    (fits : directory.lead.utf8ByteSize + name.utf8ByteSize < pathLimit) :
    directory.path? name = some ([name], false) := by
  have notEmpty : name ≠ "" := by
    rintro rfl
    exact absurd simple.notIdle (by decide)
  unfold path?
  rw [splitName_noSlash simple.noSlash, List.map_singleton, String.ofList_toList]
  simp [simple.notIdle, notEmpty, simple.noZero, simple.notUpwards, fits, simple.short]

/-- What is stored under a simple name that is not in use is read back. -/
theorem readBytes?_insert
    {directory : Directory}
    {name : String}
    (simple : IsSimpleName name)
    (fits : directory.lead.utf8ByteSize + name.utf8ByteSize < pathLimit)
    (unused : directory.entries.lookup [name] = none)
    (text : String) :
    (directory.insert name text).readBytes? name = some text.toUTF8.toList := by
  have created : directory.fileForWrite? [name] = some (directory.contents.size,
      { directory with
        entries := directory.entries ++ [([name], .file directory.contents.size)]
        contents := directory.contents.push [] }) := by
    simp [fileForWrite?, entry?, unused]
  have replaced (bytes : List UInt8) :
      (directory.contents.push []).setIfInBounds directory.contents.size bytes =
        directory.contents.push bytes :=
    Array.ext' (by simp [List.set_append_right])
  have inserted : directory.insert name text =
      { directory with
        entries := directory.entries ++ [([name], .file directory.contents.size)]
        contents := directory.contents.push text.toUTF8.toList } := by
    simp [insert, path?_simple simple fits, created, setBytes, replaced]
  rw [inserted, readBytes?, path?_simple simple (by exact fits)]
  simp [unused, entry?, List.lookup_append, bytes]

end Directory

/-! ## Readers side by side -/

/-- What is asked of a reader. -/
inductive LineCall where
  | line
  | isAtEnd
  deriving Repr, DecidableEq

/-- What a reader answers. -/
inductive LineAnswer where
  | line (text : Option String)
  | isAtEnd (ended : Bool)
  deriving Repr, DecidableEq

namespace OpenFile

/-- The answer of an open file to a call, and the file behind it. -/
def answer (access : FileAccess) (file : OpenFile) : LineCall → LineAnswer × OpenFile
  | .line => (.line (file.readLine access).1, (file.readLine access).2)
  | .isAtEnd => (.isAtEnd (file.isAtEnd access).1, (file.isAtEnd access).2)

/-- The answers of an open file to calls one after the other. -/
def answers (access : FileAccess) : OpenFile → List LineCall → List LineAnswer
  | _, [] => []
  | file, call :: calls =>
      (file.answer access call).1 :: (file.answer access call).2.answers access calls

variable {files : MemoryFiles} {directory : Directory} {name : String} {text : List Char}
  {reader : DirectoryReader}

/-- A line is cut off in front of a line feed by both readers. -/
theorem answer_line_toFeed
    {line behind : List Char}
    (delivers : reader.Delivers directory (utf8Bytes (line ++ '\n' :: behind)))
    (absent : '\n' ∉ line) :
    ∃ later,
      later.Delivers directory (utf8Bytes behind) ∧
        (inMemory ⟨name, .read, line ++ '\n' :: behind⟩).answer (.inMemory files) .line =
            (.line (some (String.ofList (MemoryFile.withoutReturn line))),
              .inMemory ⟨name, .read, behind⟩) ∧
          (diskReader reader).answer (.onDisk directory) .line =
            (.line (some (String.ofList (MemoryFile.withoutReturn line))),
              .diskReader later) := by
  obtain ⟨later, isRead, delivers⟩ := delivers.readLine_toFeed absent
  refine ⟨later, delivers, ?_, ?_⟩
  · simp only [answer, readLine, MemoryFile.readLine_toFeed absent]
  · simp only [answer, readLine, isRead]

/-- The last line is taken by both readers, and differs in a carriage return at its end only. -/
theorem answer_line_last
    {line : List Char}
    (delivers : reader.Delivers directory (utf8Bytes line))
    (absent : '\n' ∉ line) :
    ∃ later,
      later.Delivers directory (utf8Bytes []) ∧
        (inMemory ⟨name, .read, line⟩).answer (.inMemory files) .line =
            (.line (some (String.ofList (MemoryFile.withoutReturn line))),
              .inMemory ⟨name, .read, []⟩) ∧
          (diskReader reader).answer (.onDisk directory) .line =
            (.line (some (String.ofList line)), .diskReader later) := by
  obtain ⟨later, isRead, delivers⟩ := delivers.readLine_last absent
  refine ⟨later, delivers, ?_, ?_⟩
  · simp only [answer, readLine, MemoryFile.readLine_last absent]
  · simp only [answer, readLine, isRead]

/-- Both readers are at the end when nothing is left. -/
theorem answer_isAtEnd
    (delivers : reader.Delivers directory (utf8Bytes text)) :
    ∃ later,
      later.Delivers directory (utf8Bytes text) ∧
        (inMemory ⟨name, .read, text⟩).answer (.inMemory files) .isAtEnd =
            (.isAtEnd text.isEmpty, .inMemory ⟨name, .read, text⟩) ∧
          (diskReader reader).answer (.onDisk directory) .isAtEnd =
            (.isAtEnd text.isEmpty, .diskReader later) := by
  obtain ⟨later, isRead, delivers⟩ := delivers.isAtEnd
  refine ⟨later, delivers, rfl, ?_⟩
  simp only [answer, isAtEnd, isRead]

/-- What stands behind a line feed ends as the whole text does, unless it is empty. -/
theorem getLast?_behind
    {line behind : List Char}
    (notEmpty : behind ≠ []) :
    (line ++ '\n' :: behind).getLast? = behind.getLast? := by
  obtain ⟨last, isLast⟩ := Option.ne_none_iff_exists'.mp (mt List.getLast?_eq_none_iff.mp notEmpty)
  rw [List.getLast?_append, List.getLast?_cons, isLast]
  rfl

/-- The readers agree on texts that do not end with a carriage return. -/
theorem answers_eq
    (delivers : reader.Delivers directory (utf8Bytes text))
    (plain : text.getLast? ≠ some '\r')
    (calls : List LineCall) :
    (inMemory ⟨name, .read, text⟩).answers (.inMemory files) calls =
      (diskReader reader).answers (.onDisk directory) calls := by
  induction calls generalizing text reader with
  | nil => rfl
  | cons call calls inductionHypothesis =>
      unfold answers
      cases call with
      | isAtEnd =>
          obtain ⟨later, delivers, inMemory, onDisk⟩ := answer_isAtEnd delivers
          rw [inMemory, onDisk, inductionHypothesis delivers plain]
      | line =>
          by_cases feeds : '\n' ∈ text
          · obtain ⟨line, behind, rfl, absent⟩ := List.eq_append_cons_of_mem feeds
            obtain ⟨later, delivers, inMemory, onDisk⟩ := answer_line_toFeed delivers absent
            have rest : behind.getLast? ≠ some '\r' := by
              by_cases empty : behind = []
              · simp [empty]
              · rwa [← getLast?_behind empty]
            rw [inMemory, onDisk, inductionHypothesis delivers rest]
          · obtain ⟨later, delivers, inMemory, onDisk⟩ := answer_line_last delivers feeds
            rw [inMemory, onDisk, MemoryFile.withoutReturn_eq_self plain,
              inductionHypothesis delivers (by simp)]

/-- The readers differ on the last line of a text that ends with a carriage return. -/
theorem exists_answers_ne
    (delivers : reader.Delivers directory (utf8Bytes text))
    (returns : text.getLast? = some '\r') :
    ∃ calls,
      (inMemory ⟨name, .read, text⟩).answers (.inMemory files) calls ≠
        (diskReader reader).answers (.onDisk directory) calls := by
  induction length : text.length using Nat.strong_induction_on generalizing text reader with
  | _ count inductionHypothesis =>
      by_cases feeds : '\n' ∈ text
      · obtain ⟨line, behind, rfl, absent⟩ := List.eq_append_cons_of_mem feeds
        obtain ⟨later, delivers, inMemory, onDisk⟩ := answer_line_toFeed delivers absent
        have notEmpty : behind ≠ [] := by
          rintro rfl
          simp at returns
        rw [getLast?_behind notEmpty] at returns
        have shorter : behind.length < count := by
          rw [← length, List.length_append, List.length_cons]
          omega
        obtain ⟨calls, differ⟩ := inductionHypothesis _ shorter delivers returns rfl
        refine ⟨.line :: calls, fun same => differ ?_⟩
        unfold answers at same
        rw [inMemory, onDisk] at same
        exact (List.cons.inj same).2
      · obtain ⟨later, -, inMemory, onDisk⟩ := answer_line_last delivers feeds
        refine ⟨[.line], fun same => ?_⟩
        unfold answers at same
        rw [inMemory, onDisk] at same
        have sameLine := LineAnswer.line.inj (List.cons.inj same).1
        exact MemoryFile.withoutReturn_ne_self returns
          (String.ofList_injective (Option.some.inj sameLine))

/--
A reader in memory and a reader on disk over the same text answer alike whatever is asked of
them, exactly when the text does not end with a carriage return.
-/
theorem answers_agree_iff
    {text : String}
    (inMemory : files.get? name = some text)
    (onDisk : directory.readBytes? name = some text.toUTF8.toList) :
    ∃ memory disk,
      (FileAccess.inMemory files).open? name .read = some (memory, .inMemory files) ∧
        (FileAccess.onDisk directory).open? name .read = some (disk, .onDisk directory) ∧
          ((∀ calls,
              memory.answers (.inMemory files) calls =
                disk.answers (.onDisk directory) calls) ↔
            text.toList.getLast? ≠ some '\r') := by
  obtain ⟨number, opened, delivers⟩ :
      ∃ number,
        directory.openReader? name = some ⟨.file number, 0, []⟩ ∧
          DirectoryReader.Delivers ⟨.file number, 0, []⟩ directory (utf8Bytes text.toList) := by
    unfold Directory.readBytes? at onDisk
    split at onDisk
    · next path isPath =>
      split at onDisk
      · next number isFile =>
        refine ⟨number, ?_, number, rfl, ?_⟩
        · simp [Directory.openReader?, isPath, isFile]
        · rw [← utf8Bytes.of_toUTF8, ← Option.some.inj onDisk]
          exact ⟨List.drop_zero, Nat.le_refl _⟩
      · cases onDisk
    · cases onDisk
  refine ⟨.inMemory ⟨name, .read, text.toList⟩, .diskReader ⟨.file number, 0, []⟩, ?_, ?_, ?_⟩
  · simp [FileAccess.open?, MemoryFiles.open?, inMemory]
  · simp [FileAccess.open?, opened]
  · constructor
    · intro agree returns
      obtain ⟨calls, differ⟩ := exists_answers_ne delivers returns
      exact differ (agree calls)
    · exact answers_eq delivers

/-- The readers of a text that has been stored in both places under a simple name. -/
theorem stored_answers_agree_iff
    (simple : Directory.IsSimpleName name)
    (fits : directory.lead.utf8ByteSize + name.utf8ByteSize < Directory.pathLimit)
    (unused : directory.entries.lookup [name] = none)
    (text : String) :
    ∃ memory disk,
      ((FileAccess.inMemory files).insert name text).open? name .read =
          some (memory, (FileAccess.inMemory files).insert name text) ∧
        ((FileAccess.onDisk directory).insert name text).open? name .read =
            some (disk, (FileAccess.onDisk directory).insert name text) ∧
          ((∀ calls,
              memory.answers ((FileAccess.inMemory files).insert name text) calls =
                disk.answers ((FileAccess.onDisk directory).insert name text) calls) ↔
            text.toList.getLast? ≠ some '\r') :=
  answers_agree_iff (files.get?_insert name text)
    (Directory.readBytes?_insert simple fits unused text)

end OpenFile

end BotScript
