import BotScript.Host.Standard
import BotScript.Proofs.FileOpening
import BotScript.Proofs.LineReading
import Mathlib.Order.Bounds.Defs

namespace BotScript

/-!
# Parts and places of texts

The front of a text and what is left behind it make up the text, and a text is found at the
first place at which it is the middle of another.  All places and lengths count characters.
The search alone runs over bytes: a character starts with a byte with which no character goes
on, so the bytes of a text stand among those of another only where its characters do.
-/

/-! ## Bytes of characters -/

namespace utf8Bytes

variable {needle text : List Char}

/-- A byte that starts characters is the first one of its character. -/
theorem eq_cons (character : Char) :
    ∃ first more,
      String.utf8EncodeChar character = first :: more ∧ first.IsUTF8FirstByte ∧
        ∀ byte ∈ more, ¬ byte.IsUTF8FirstByte := by
  obtain ⟨first, more, encoded⟩ :=
    List.exists_cons_of_ne_nil (String.utf8EncodeChar_ne_nil (c := character))
  have starts (index : Nat) (inside : index < (first :: more).length) :
      (first :: more)[index].IsUTF8FirstByte ↔ index = 0 := by
    simp only [← encoded]
    exact UInt8.isUTF8FirstByte_getElem_utf8EncodeChar
  refine ⟨first, more, encoded, (starts 0 (Nat.succ_pos _)).mpr rfl, fun byte member start => ?_⟩
  obtain ⟨index, inside, rfl⟩ := List.getElem_of_mem member
  exact Nat.succ_ne_zero index ((starts (index + 1) (Nat.succ_lt_succ inside)).mp start)

/-- The bytes of a text stand in front of those of another if its characters do. -/
theorem prefix_iff : utf8Bytes needle <+: utf8Bytes text ↔ needle <+: text := by
  constructor
  · rintro ⟨rest, whole⟩
    have encoded := congrArg List.toByteArray whole
    rw [List.toByteArray_append] at encoded
    exact List.isPrefix_of_utf8Encode_append_eq_utf8Encode rest.toByteArray encoded
  · rintro ⟨rest, rfl⟩
    exact ⟨utf8Bytes rest, (append needle rest).symm⟩

end utf8Bytes

namespace StringLibrary

/-! ## The search -/

section Search

variable {α : Type} [BEq α] {needle list : List α} {place : Nat}

/-- Only the empty list is found in the empty list. -/
theorem find?_nil (noPrefix : ¬ needle <+: []) : find? needle [] = none := by
  rw [find?, if_neg]
  intro isEmpty
  exact noPrefix (List.prefix_nil.mpr (List.isEmpty_iff.mp isEmpty))

variable [LawfulBEq α]

/-- A list that stands in front of another is found there. -/
theorem find?_atStart (isPrefix : needle <+: list) : find? needle list = some 0 := by
  cases list with
  | nil =>
      rw [find?, List.prefix_nil.mp isPrefix]
      rfl
  | cons first rest =>
      rw [find?, if_pos (List.isPrefixOf_iff_prefix.mpr isPrefix)]

/-- A list that does not stand in front of another is searched for behind its first item. -/
theorem find?_cons
    {first : α}
    {rest : List α}
    (noPrefix : ¬ needle <+: first :: rest) :
    find? needle (first :: rest) = (find? needle rest).map (· + 1) := by
  rw [find?, if_neg (mt List.isPrefixOf_iff_prefix.mp noPrefix)]

/-- Items with which a list does not start are passed over. -/
theorem find?_append
    {start : α}
    {more front : List α}
    (absent : start ∉ front) :
    find? (start :: more) (front ++ list) =
      (find? (start :: more) list).map (· + front.length) := by
  induction front with
  | nil => simp
  | cons first front inductionHypothesis =>
      obtain ⟨differs, absent⟩ := not_or.mp (mt List.mem_cons.mpr absent)
      have noPrefix : ¬ start :: more <+: first :: (front ++ list) := fun isPrefix =>
        differs (List.cons_prefix_cons.mp isPrefix).1
      rw [List.cons_append, find?_cons noPrefix, inductionHypothesis absent, Option.map_map]
      rfl

/-- A list is found at the first place at which it stands. -/
theorem find?_first (found : find? needle list = some place) :
    place ≤ list.length ∧ needle <+: list.drop place ∧
      ∀ earlier < place, ¬ needle <+: list.drop earlier := by
  induction list generalizing place with
  | nil =>
      have isPrefix : needle <+: [] := by
        by_contra noPrefix
        rw [find?_nil noPrefix] at found
        cases found
      rw [find?_atStart isPrefix] at found
      obtain rfl := Option.some.inj found
      exact ⟨Nat.le_refl _, isPrefix, fun _ isEarlier => absurd isEarlier (Nat.not_lt_zero _)⟩
  | cons first rest inductionHypothesis =>
      by_cases isPrefix : needle <+: first :: rest
      · rw [find?_atStart isPrefix] at found
        obtain rfl := Option.some.inj found
        exact ⟨Nat.zero_le _, isPrefix, fun _ isEarlier => absurd isEarlier (Nat.not_lt_zero _)⟩
      · rw [find?_cons isPrefix] at found
        obtain ⟨behind, isBehind, rfl⟩ := Option.map_eq_some_iff.mp found
        obtain ⟨inside, stands, isFirst⟩ := inductionHypothesis isBehind
        refine ⟨Nat.succ_le_succ inside, stands, fun earlier isEarlier => ?_⟩
        cases earlier with
        | zero => exact isPrefix
        | succ earlier => exact isFirst earlier (Nat.lt_of_succ_lt_succ isEarlier)

/-- A list is not found if it does not occur. -/
theorem find?_eq_none_iff : find? needle list = none ↔ ¬ needle <:+: list := by
  induction list with
  | nil => cases needle <;> simp [find?]
  | cons first rest inductionHypothesis =>
      rw [List.infix_cons_iff]
      by_cases isPrefix : needle <+: first :: rest
      · simp [find?_atStart isPrefix, isPrefix]
      · simp [find?_cons isPrefix, isPrefix, inductionHypothesis]

end Search

/-! ## From bytes to characters -/

/-- The bytes of a text are found behind those of the characters in front of it. -/
theorem find?_utf8Bytes (needle text : List Char) :
    find? (utf8Bytes needle) (utf8Bytes text) =
      (find? needle text).map fun place => (utf8Bytes (text.take place)).length := by
  induction text with
  | nil =>
      by_cases isPrefix : needle <+: []
      · rw [find?_atStart isPrefix, find?_atStart (utf8Bytes.prefix_iff.mpr isPrefix)]
        rfl
      · rw [find?_nil isPrefix]
        exact find?_nil (mt (@utf8Bytes.prefix_iff needle []).mp isPrefix)
  | cons character rest inductionHypothesis =>
      by_cases isPrefix : needle <+: character :: rest
      · rw [find?_atStart isPrefix, find?_atStart (utf8Bytes.prefix_iff.mpr isPrefix)]
        rfl
      · obtain ⟨leading, others, rfl⟩ : ∃ leading others, needle = leading :: others :=
          List.exists_cons_of_ne_nil fun isEmpty => isPrefix (isEmpty ▸ List.nil_prefix)
        -- The first byte searched for starts a character, so no byte with which the first
        -- character goes on is equal to it.
        obtain ⟨start, further, isLeading, starts, -⟩ := utf8Bytes.eq_cons leading
        obtain ⟨first, more, isCharacter, -, goesOn⟩ := utf8Bytes.eq_cons character
        have searched : utf8Bytes (leading :: others) = start :: (further ++ utf8Bytes others) :=
          congrArg (· ++ utf8Bytes others) isLeading
        have bytes (text : List Char) :
            utf8Bytes (character :: text) = first :: (more ++ utf8Bytes text) :=
          congrArg (· ++ utf8Bytes text) isCharacter
        have noPrefix := mt utf8Bytes.prefix_iff.mp isPrefix
        rw [bytes] at noPrefix ⊢
        rw [find?_cons isPrefix, find?_cons noPrefix, searched,
          find?_append fun member => goesOn start member starts, ← searched, inductionHypothesis,
          Option.map_map, Option.map_map, Option.map_map]
        congr 1
        funext place
        simp only [Function.comp_apply, List.take_succ_cons, bytes, List.length_cons,
          List.length_append]
        omega

/-- The search among bytes finds the place of a text among characters. -/
theorem position?_eq (text needle : String) :
    position? text needle = find? needle.toList text.toList := by
  unfold position?
  simp only [utf8Bytes.of_toUTF8, find?_utf8Bytes]
  cases found : find? needle.toList text.toList with
  | none => rfl
  | some place =>
      obtain ⟨inside, -, -⟩ := find?_first found
      have whole :
          utf8Bytes text.toList =
            utf8Bytes (text.toList.take place) ++ utf8Bytes (text.toList.drop place) := by
        rw [← utf8Bytes.append, List.take_append_drop]
      have front :
          (utf8Bytes text.toList).take (utf8Bytes (text.toList.take place)).length =
            utf8Bytes (text.toList.take place) := by
        rw [whole]
        exact List.take_left' rfl
      have counted : (String.ofList (text.toList.take place)).length = place := by
        rw [String.length_ofList, List.length_take, Nat.min_eq_left inside]
      simp only [Option.map_some, Option.bind_eq_bind, Option.bind_some, front,
        utf8Bytes.fromUTF8?, counted]
      rfl

-- In front of the place stands one character of three bytes.
example : position? "€é𝄞é" "é" = some 1 := by decide +kernel

/-- A place inside a text is a number of 64 bits. -/
theorem toInt_place
    {text : List Char}
    {place : Nat}
    (inside : place ≤ text.length)
    (fits : text.length < 2 ^ 63) :
    (Int64.ofNat place).toInt = place :=
  Int64.toInt_ofNat_of_lt (Nat.lt_of_le_of_lt inside fits)

/-- Among the numbers, the place of a text is the least one at which it stands. -/
theorem isLeast_place
    {needle text : List Char}
    {place : Nat}
    (fits : text.length < 2 ^ 63)
    (found : find? needle text = some place) :
    IsLeast {start | 0 ≤ start ∧ needle <+: text.drop start.toInt.toNat} (Int64.ofNat place) := by
  obtain ⟨inside, stands, isFirst⟩ := find?_first found
  have number := toInt_place inside fits
  refine ⟨⟨?_, ?_⟩, ?_⟩
  · rw [Int64.le_iff_toInt_le, number]
    exact Int.natCast_nonneg place
  · rw [number, Int.toNat_natCast]
    exact stands
  · rintro start ⟨isNumber, standsThere⟩
    have notEarlier := mt (isFirst start.toInt.toNat) (not_not_intro standsThere)
    rw [Int64.le_iff_toInt_le, Int64.toInt_zero] at isNumber
    rw [Int64.le_iff_toInt_le, number]
    omega

/-! ## Parts of a text -/

section Parts

variable (text : List Char) (start count : Int64)

/-- A count is brought between zero and the length of a text. -/
theorem clamp_eq : (clamp count text : Int) = min (max count.toInt 0) text.length := by
  rw [clamp]
  omega

/-- The front of a text and what is left behind it make up the text. -/
theorem left_append_suffixFrom : left text count ++ suffixFrom text count = text :=
  List.take_append_drop (clamp count text) text

/-- The front of a text has as many characters as are asked for and there are. -/
theorem length_left : (left text count).length = clamp count text := by
  rw [left, List.length_take, clamp]
  omega

/-- So has the back. -/
theorem length_right : (right text count).length = clamp count text := by
  rw [right, List.length_drop, clamp]
  omega

/-- The front of a text stands at its start. -/
theorem left_atStart : left text count <+: text :=
  List.take_prefix _ text

/-- The back of a text stands at its end. -/
theorem right_atEnd : right text count <:+ text :=
  List.drop_suffix _ text

/-- A limit beyond the end of a text does not matter. -/
theorem left_eq_take : left text count = text.take count.toInt.toNat :=
  List.take_eq_take_min.symm

/-- A start beyond the end of a text does not matter. -/
theorem suffixFrom_eq_drop : suffixFrom text start = text.drop start.toInt.toNat :=
  List.drop_eq_drop_min.symm

/-- Neither of the two matters for the middle of a text. -/
theorem middle_eq_take :
    middle text start count = (text.drop start.toInt.toNat).take count.toInt.toNat := by
  rw [middle, suffixFrom_eq_drop, List.take_eq_take_iff, clamp, List.length_drop]
  omega

end Parts

end StringLibrary

/-! ## Calls by name -/

/-- A number is accepted where one is demanded. -/
theorem ArgumentCheck.numeric_ok
    {types : List Ty}
    {index : Nat}
    {ty : Ty}
    (isThere : types[index]? = some ty)
    (isNumber : ty.isNumeric = true) :
    ArgumentCheck.numeric types index = .ok () := by
  simp only [ArgumentCheck.numeric, isThere, isNumber, if_true]

/-- An argument that is a text. -/
theorem NativeCall.string_results
    {call : NativeCall}
    {index : Nat}
    {text : String}
    {world : World}
    (isThere : call.arguments[index]? = some (.str text)) :
    Action.Results world (call.string index) (.ok text) world :=
  (Action.Results.require isThere).bind (.pure text)

/--
A call by name is accepted for arguments of some types, and results in a value in every world,
which it leaves as it is.
-/
def Registry.Gives
    (registry : Registry) (name : String) (types : List Ty) (arguments : List Value)
    (value : Value) :
    Prop :=
  ∃ id result,
    registry.resolve? types (registry.functionsNamed name) = some (.ok (id, result)) ∧
      ∀ world, (registry.call id ⟨none, arguments, types⟩).Results world (.ok value) world

namespace StringLibrary

open Registry (standard)

variable {types : List Ty} {arguments : List Value} {given value : Value}

/-- Each text function is the only native under its name. -/
theorem standard_functionsNamed
    {native : Native}
    (member : native ∈ natives) :
    ∃ id, standard.functionsNamed native.name = [id] ∧ standard.native? id = some native := by
  simp only [natives, List.mem_cons, List.not_mem_nil, or_false] at member
  rcases member with rfl | rfl | rfl | rfl | rfl | rfl | rfl | rfl
  all_goals exact ⟨_, rfl, rfl⟩

/-- A call of a text function gives the one value in which it results. -/
theorem standard_gives_iff
    (native : Native)
    {result : Ty}
    (member : native ∈ natives)
    (accepts : native.check types = .ok result)
    (results :
      ∀ world, (native.run ⟨none, arguments, types⟩).Results world (.ok given) world) :
    standard.Gives native.name types arguments value ↔ value = given := by
  obtain ⟨id, named, found⟩ := standard_functionsNamed member
  have resolved :
      standard.resolve? types (standard.functionsNamed native.name) = some (.ok (id, result)) := by
    simp only [named, Registry.resolve?, found, accepts]
  have called (call : NativeCall) : standard.call id call = native.run call := by
    rw [Registry.call, found]
  constructor
  · rintro ⟨id', result', resolved', results'⟩
    obtain ⟨rfl, -⟩ : id = id' ∧ result = result' := by simpa [resolved] using resolved'
    have both := (results' default).symm.trans ((called _).symm ▸ results default)
    exact Except.ok.inj (Prod.mk.inj both).1
  · rintro rfl
    exact ⟨id, result, resolved, fun world => called _ ▸ results world⟩

section Calls

variable {countType limitType : Ty} {text needle : String} {count limit : Int64}

/-- A text and a number are accepted. -/
theorem checkTextNumber_ok (isCount : countType.isNumeric = true) :
    checkTextNumber [.string, countType] = .ok .string := by
  rw [checkTextNumber, ArgumentCheck.numeric_ok rfl isCount]
  rfl

/-- A text and a number are accepted where a second number may follow. -/
theorem checkTextNumbers_ok (isCount : countType.isNumeric = true) :
    checkTextNumbers [.string, countType] = .ok .string := by
  rw [checkTextNumbers, ArgumentCheck.numeric_ok rfl isCount]
  rfl

/-- A text and two numbers are accepted. -/
theorem checkTextNumbers_limited_ok
    (isCount : countType.isNumeric = true)
    (isLimit : limitType.isNumeric = true) :
    checkTextNumbers [.string, countType, limitType] = .ok .string := by
  rw [checkTextNumbers, ArgumentCheck.numeric_ok rfl isCount, ArgumentCheck.numeric_ok rfl isLimit]
  rfl

/-- The length of a text. -/
theorem strlen_gives_iff :
    standard.Gives "strlen" [.string] [.str text] value ↔
      value = .int (Int64.ofNat text.length) :=
  standard_gives_iff strlen (by simp [natives]) rfl fun _ => rfl

/-- The front of a text. -/
theorem strleft_gives_iff (isCount : countType.isNumeric = true) :
    standard.Gives "strleft" [.string, countType] [.str text, .int count] value ↔
      value = .str (String.ofList (left text.toList count)) :=
  standard_gives_iff strleft (by simp [natives]) (checkTextNumber_ok isCount) fun _ => rfl

/-- The back of a text. -/
theorem strright_gives_iff (isCount : countType.isNumeric = true) :
    standard.Gives "strright" [.string, countType] [.str text, .int count] value ↔
      value = .str (String.ofList (right text.toList count)) :=
  standard_gives_iff strright (by simp [natives]) (checkTextNumber_ok isCount) fun _ => rfl

/-- What is left of a text behind its front. -/
theorem strmid_gives_iff (isCount : countType.isNumeric = true) :
    standard.Gives "strmid" [.string, countType] [.str text, .int count] value ↔
      value = .str (String.ofList (suffixFrom text.toList count)) :=
  standard_gives_iff strmid (by simp [natives]) (checkTextNumbers_ok isCount) fun _ => rfl

/-- The middle of a text. -/
theorem strmid_limited_gives_iff
    (isCount : countType.isNumeric = true)
    (isLimit : limitType.isNumeric = true) :
    standard.Gives "strmid" [.string, countType, limitType] [.str text, .int count, .int limit]
        value ↔
      value = .str (String.ofList (middle text.toList count limit)) :=
  standard_gives_iff strmid (by simp [natives]) (checkTextNumbers_limited_ok isCount isLimit)
    fun _ => rfl

/-- A text is the middle of another where it stands in it. -/
theorem strmid_gives_needle_iff
    {start length : Int64}
    (isCount : countType.isNumeric = true)
    (isLimit : limitType.isNumeric = true)
    (isLength : length.toInt = needle.toList.length) :
    standard.Gives "strmid" [.string, countType, limitType] [.str text, .int start, .int length]
        (.str needle) ↔
      needle.toList <+: text.toList.drop start.toInt.toNat := by
  rw [strmid_limited_gives_iff isCount isLimit, Value.str.injEq, ← String.toList_inj,
    String.toList_ofList, middle_eq_take, isLength, Int.toNat_natCast, List.prefix_iff_eq_take]

/-- The place of a text in another, or `-1`. -/
theorem strfind_gives_iff :
    standard.Gives "strfind" [.string, .string] [.str text, .str needle] value ↔
      value = .int ((find? needle.toList text.toList).elim (-1) Int64.ofNat) := by
  refine standard_gives_iff strfind (by simp [natives]) rfl fun world => ?_
  refine (NativeCall.string_results rfl).bind ((NativeCall.string_results rfl).bind ?_)
  rw [← position?_eq]
  cases position? text needle <;> rfl

end Calls

/-! ## Laws -/

variable {countType limitType : Ty}

/--
How the length, the front, the back and the middle of a text and the place of a text in another
go together, for calls with two texts and two numbers.
-/
structure SubstringLaws
    (registry : Registry) (countType limitType : Ty) (text needle : String)
    (count limit : Int64) :
    Prop where
  /-- The length of a text is the number of its characters. -/
  length :
    ∃ length,
      registry.Gives "strlen" [.string] [.str text] (.int length) ∧
        length.toInt = text.length
  /-- The front of a text and what is left behind it make up the text. -/
  whole :
    ∃ front rest,
      registry.Gives "strleft" [.string, countType] [.str text, .int count] (.str front) ∧
        registry.Gives "strmid" [.string, countType] [.str text, .int count] (.str rest) ∧
          front ++ rest = text
  /-- The front has the number of characters asked for, brought between zero and the length. -/
  front :
    ∃ front length,
      registry.Gives "strleft" [.string, countType] [.str text, .int count] (.str front) ∧
        registry.Gives "strlen" [.string] [.str text] (.int length) ∧
          (front.length : Int) = min (max count.toInt 0) length.toInt ∧
            front.toList <+: text.toList
  /-- So has the back, which stands at the end of the text. -/
  back :
    ∃ back length,
      registry.Gives "strright" [.string, countType] [.str text, .int count] (.str back) ∧
        registry.Gives "strlen" [.string] [.str text] (.int length) ∧
          (back.length : Int) = min (max count.toInt 0) length.toInt ∧
            back.toList <:+ text.toList
  /-- The middle is the front of what is left behind the front. -/
  middle :
    ∃ rest middle,
      registry.Gives "strmid" [.string, countType] [.str text, .int count] (.str rest) ∧
        registry.Gives "strmid" [.string, countType, limitType]
            [.str text, .int count, .int limit] (.str middle) ∧
          registry.Gives "strleft" [.string, limitType] [.str rest, .int limit] (.str middle)
  /-- A text is found at the first place at which it is the middle of the other one. -/
  place :
    ∃ place length,
      registry.Gives "strfind" [.string, .string] [.str text, .str needle] (.int place) ∧
        registry.Gives "strlen" [.string] [.str needle] (.int length) ∧
          (place = -1 ↔ ¬ needle.toList <:+: text.toList) ∧
            (place ≠ -1 →
              IsLeast
                {start | 0 ≤ start ∧
                  registry.Gives "strmid" [.string, countType, limitType]
                    [.str text, .int start, .int length] (.str needle)}
                place)

/--
The text functions of the standard library obey the laws of substrings, for every text whose
length is a number of 64 bits, as that of each text in memory is.
-/
theorem standard_substringLaws
    (isCount : countType.isNumeric = true)
    (isLimit : limitType.isNumeric = true)
    (text needle : String)
    (count limit : Int64)
    (fits : text.length < 2 ^ 63) :
    SubstringLaws standard countType limitType text needle count limit := by
  have length : (Int64.ofNat text.length).toInt = text.toList.length :=
    toInt_place (Nat.le_refl _) fits
  refine
    { length := ⟨_, strlen_gives_iff.mpr rfl, length⟩
      whole :=
        ⟨_, _, (strleft_gives_iff isCount).mpr rfl, (strmid_gives_iff isCount).mpr rfl, ?whole⟩
      front := ⟨_, _, (strleft_gives_iff isCount).mpr rfl, strlen_gives_iff.mpr rfl, ?front⟩
      back := ⟨_, _, (strright_gives_iff isCount).mpr rfl, strlen_gives_iff.mpr rfl, ?back⟩
      middle :=
        ⟨_, _, (strmid_gives_iff isCount).mpr rfl,
          (strmid_limited_gives_iff isCount isLimit).mpr rfl, (strleft_gives_iff isLimit).mpr ?middle⟩
      place := ⟨_, _, strfind_gives_iff.mpr rfl, strlen_gives_iff.mpr rfl, ?place⟩ }
  case whole =>
    rw [← String.ofList_append, left_append_suffixFrom, String.ofList_toList]
  case front =>
    rw [String.length_ofList, String.toList_ofList, length_left, clamp_eq, length]
    exact ⟨rfl, left_atStart _ _⟩
  case back =>
    rw [String.length_ofList, String.toList_ofList, length_right, clamp_eq, length]
    exact ⟨rfl, right_atEnd _ _⟩
  case middle =>
    rw [String.toList_ofList, left_eq_take, suffixFrom_eq_drop, middle_eq_take]
  case place =>
    cases found : find? needle.toList text.toList with
    | none =>
        exact ⟨iff_of_true rfl (find?_eq_none_iff.mp found), fun isThere => absurd rfl isThere⟩
    | some place =>
        rw [Option.elim_some]
        obtain ⟨inside, stands, -⟩ := find?_first found
        have occurs : needle.toList <:+: text.toList :=
          stands.isInfix.trans (List.drop_suffix place text.toList).isInfix
        have needleLength : (Int64.ofNat needle.length).toInt = needle.toList.length :=
          toInt_place occurs.length_le fits
        have isThere : Int64.ofNat place ≠ -1 := by
          intro isMinusOne
          have number := toInt_place inside fits
          rw [isMinusOne] at number
          exact absurd number (by simp)
        refine ⟨iff_of_false isThere (not_not_intro occurs), fun _ => ?_⟩
        simp only [strmid_gives_needle_iff isCount isLimit needleLength]
        exact isLeast_place fits found

/-- A letter of two bytes behind one of three, and again behind one of four. -/
theorem standard_substringLaws_mixed :
    Ty.isNumeric .int = true ∧ Ty.isNumeric .long = true ∧ "€é𝄞é".length < 2 ^ 63 ∧
      SubstringLaws standard .int .long "€é𝄞é" "é" 2 1 ∧
        standard.Gives "strfind" [.string, .string] [.str "€é𝄞é", .str "é"] (.int 1) :=
  ⟨rfl, rfl, by decide, standard_substringLaws rfl rfl "€é𝄞é" "é" 2 1 (by decide),
    strfind_gives_iff.mpr (by decide)⟩

end StringLibrary

end BotScript
