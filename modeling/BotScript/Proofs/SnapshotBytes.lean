import BotScript.Snapshot.Format
import Mathlib.Algebra.Order.Group.Nat

namespace BotScript

/-!
# The byte form loses nothing

A codec reads back what it has written, whatever stands behind it.  This holds of
all numbers, and of lists and texts as long as their lengths have eight bytes, which
is so of everything that a memory can hold.  It is shown for one form of bytes after
another, and so for whole snapshots.
-/

/-! ## Codecs that read back -/

namespace Bytes

/-- As many bytes are written as the width says. -/
@[simp] theorem length_ofNat (width value : Nat) : (ofNat width value).length = width := by
  induction width generalizing value with
  | zero => rfl
  | succ width inductionHypothesis => simp [ofNat, inductionHypothesis]

/-- The lowest bytes of a number stand for its remainder. -/
theorem toNat_ofNat (width value : Nat) : toNat (ofNat width value) = value % 256 ^ width := by
  induction width generalizing value with
  | zero => simp [ofNat, toNat, Nat.mod_one]
  | succ width inductionHypothesis =>
      have byte : (UInt8.ofNat (value % 256)).toNat = value % 256 :=
        UInt8.toNat_ofNat_of_lt' (Nat.mod_lt _ (by decide))
      rw [ofNat, toNat, inductionHypothesis, byte, Nat.pow_succ', Nat.mod_mul]

/-- A number that fits the width is read back. -/
theorem toNat_ofNat_of_lt
    {width value : Nat}
    (fits : value < 256 ^ width) :
    toNat (ofNat width value) = value := by
  rw [toNat_ofNat, Nat.mod_eq_of_lt fits]

end Bytes

namespace Codec

variable {α β : Type}

/-- What a codec writes of a value that fits, it reads back, and it leaves the rest. -/
def ReadsBack (codec : Codec α) (fits : α → Prop) : Prop :=
  ∀ value rest, fits value → codec.read? (codec.write value ++ rest) = some (value, rest)

/-- Two values that are written alike are the same. -/
theorem ReadsBack.injective
    {codec : Codec α}
    {fits : α → Prop}
    (readsBack : codec.ReadsBack fits)
    {first second : α}
    (fitsFirst : fits first)
    (fitsSecond : fits second)
    (alike : codec.write first = codec.write second) :
    first = second := by
  have readFirst := readsBack first [] fitsFirst
  rw [alike, readsBack second [] fitsSecond] at readFirst
  cases readFirst
  rfl

/-- A narrower condition on the values. -/
theorem ReadsBack.narrow
    {codec : Codec α}
    {fits narrower : α → Prop}
    (readsBack : codec.ReadsBack fits)
    (implies : ∀ value, narrower value → fits value) :
    codec.ReadsBack narrower :=
  fun value rest holds => readsBack value rest (implies value holds)

/-- A value that is read and wrapped. -/
theorem ReadsBack.readAs
    {codec : Codec α}
    {fits : α → Prop}
    (readsBack : codec.ReadsBack fits)
    {value : α}
    (holds : fits value)
    (make : α → β)
    (rest : List UInt8) :
    codec.readAs make (codec.write value ++ rest) = some (make value, rest) := by
  rw [Codec.readAs, readsBack value rest holds]
  rfl

/-- Values that stand for other values, as long as they can be told apart. -/
theorem ReadsBack.iso
    {codec : Codec α}
    {fits : α → Prop}
    (readsBack : codec.ReadsBack fits)
    {pack : α → β}
    {unpack : β → α}
    (inverse : ∀ value, pack (unpack value) = value) :
    (codec.iso pack unpack).ReadsBack fun value => fits (unpack value) := by
  intro value rest holds
  have read := readsBack.readAs holds pack rest
  rwa [inverse] at read

/-- Two values, one after the other. -/
theorem ReadsBack.pair
    {left : Codec α}
    {right : Codec β}
    {fitsLeft : α → Prop}
    {fitsRight : β → Prop}
    (readsLeft : left.ReadsBack fitsLeft)
    (readsRight : right.ReadsBack fitsRight) :
    (left.pair right).ReadsBack fun value => fitsLeft value.1 ∧ fitsRight value.2 := by
  rintro ⟨first, second⟩ rest ⟨holdsLeft, holdsRight⟩
  simp only [Codec.pair, List.append_assoc]
  rw [readsLeft first _ holdsLeft]
  simp only [Option.bind_eq_bind, Option.bind_some]
  rw [readsRight second rest holdsRight]
  rfl

/-- A number that has no more bytes than the width. -/
theorem natural_readsBack (width : Nat) : (natural width).ReadsBack (· < 256 ^ width) := by
  intro value rest fits
  have front : (Bytes.ofNat width value ++ rest).take width = Bytes.ofNat width value :=
    List.take_left' (Bytes.length_ofNat width value)
  have back : (Bytes.ofNat width value ++ rest).drop width = rest :=
    List.drop_left' (Bytes.length_ofNat width value)
  simp only [natural, front, back, Bytes.length_ofNat, if_pos, Bytes.toNat_ofNat_of_lt fits]

/-- Every 32-bit word. -/
theorem word32_readsBack : word32.ReadsBack fun _ => True :=
  ((natural_readsBack 4).iso fun _ => UInt32.ofNat_toNat).narrow fun word _ => word.toNat_lt

/-- Every 64-bit word. -/
theorem word64_readsBack : word64.ReadsBack fun _ => True :=
  ((natural_readsBack 8).iso fun _ => UInt64.ofNat_toNat).narrow fun word _ => word.toNat_lt

/-- Every truth value. -/
theorem flag_readsBack : flag.ReadsBack fun _ => True := by
  rintro (_ | _) rest - <;> rfl

/-- A value that may be missing. -/
theorem ReadsBack.optional
    {codec : Codec α}
    {fits : α → Prop}
    (readsBack : codec.ReadsBack fits) :
    codec.optional.ReadsBack fun value => ∀ content ∈ value, fits content := by
  rintro (_ | content) rest holds
  · rfl
  · have read := readsBack.readAs (holds content rfl) some rest
    simp only [Codec.optional, List.append_assoc, flag_readsBack true _ trivial,
      Option.bind_eq_bind, Option.bind_some]
    exact read

/-- Values that are written one behind the other. -/
theorem ReadsBack.readMany
    {codec : Codec α}
    {fits : α → Prop}
    (readsBack : codec.ReadsBack fits)
    (values reversed : List α)
    (rest : List UInt8)
    (holds : ∀ value ∈ values, fits value) :
    codec.readMany values.length reversed (values.flatMap codec.write ++ rest) =
      some (reversed.reverse ++ values, rest) := by
  induction values generalizing reversed with
  | nil => simp [Codec.readMany]
  | cons value values inductionHypothesis =>
      obtain ⟨holdsFirst, holdsOthers⟩ := List.forall_mem_cons.mp holds
      simp only [List.length_cons, List.flatMap_cons, List.append_assoc, Codec.readMany]
      rw [readsBack value _ holdsFirst]
      simpa using inductionHypothesis (value :: reversed) holdsOthers

/-- A list whose length has eight bytes. -/
theorem ReadsBack.list
    {codec : Codec α}
    {fits : α → Prop}
    (readsBack : codec.ReadsBack fits) :
    codec.list.ReadsBack fun values =>
      values.length < UInt64.size ∧ ∀ value ∈ values, fits value := by
  rintro values rest ⟨length, holds⟩
  simp only [Codec.list, List.append_assoc]
  rw [natural_readsBack 8 values.length _ length]
  exact readsBack.readMany values [] rest holds

/-- The bytes of a byte array as a list. -/
theorem toList_byteArray (bytes : ByteArray) : bytes.toList = bytes.data.toList := by
  have loop (count index : Nat) (reversed : List UInt8) (left : bytes.size - index = count) :
      ByteArray.toList.loop bytes index reversed =
        reversed.reverse ++ bytes.data.toList.drop index := by
    induction count generalizing index reversed with
    | zero =>
        have behind : bytes.data.toList.length ≤ index := by
          simp only [Array.length_toList, ByteArray.size_data]
          omega
        rw [ByteArray.toList.loop, if_neg (by omega), List.drop_eq_nil_of_le behind,
          List.append_nil]
    | succ count inductionHypothesis =>
        have inside : index < bytes.size := by omega
        rw [ByteArray.toList.loop, if_pos inside, inductionHypothesis _ _ (by omega)]
        have entry : bytes.data.toList.drop index =
            bytes.get! index :: bytes.data.toList.drop (index + 1) := by
          rw [List.drop_eq_getElem_cons (by simpa using inside)]
          simp [ByteArray.get!, inside]
        rw [entry]
        simp
  exact loop _ 0 [] rfl

/-- A text whose length has eight bytes. -/
theorem text_readsBack : text.ReadsBack fun value => value.utf8ByteSize < UInt64.size := by
  intro value rest length
  have bytes : value.toUTF8.toList.length = value.utf8ByteSize := by
    rw [toList_byteArray, Array.length_toList]
    rfl
  have back : String.fromUTF8? ⟨value.toUTF8.toList.toArray⟩ = some value := by
    rw [toList_byteArray, Array.toArray_toList]
    exact dif_pos value.isValidUTF8
  simp only [text, List.append_assoc]
  rw [natural_readsBack 8 value.utf8ByteSize _ length]
  simp only [Option.bind_eq_bind, Option.bind_some]
  rw [List.take_left' bytes, List.drop_left' bytes, if_pos bytes, back]
  rfl

end Codec

/-! ## Addressable snapshots -/

/-- A memory with 64-bit addresses can hold so many parts in a row. -/
def Addressable (length : Nat) : Prop :=
  length < UInt64.size

/-- The name of a class fits the memory. -/
def Ty.Addressable : Ty → Prop
  | .array element => element.Addressable
  | .object className => BotScript.Addressable className.utf8ByteSize
  | _ => True

/-- A text fits the memory. -/
def SavedValue.Addressable : SavedValue → Prop
  | .str value => BotScript.Addressable value.utf8ByteSize
  | _ => True

/-- The value or the label of a completion fits the memory. -/
def SavedCompletion.Addressable : SavedCompletion → Prop
  | .value content | .returned content => content.Addressable
  | .breakTo label | .continueTo label =>
      ∀ name ∈ label, BotScript.Addressable name.utf8ByteSize
  | _ => True

/-- The type and the value of a cell fit the memory. -/
def CellRecord.Addressable (record : CellRecord) : Prop :=
  record.ty.Addressable ∧ record.value.Addressable

/-- The type and the elements of an array fit the memory. -/
def ArrayRecord.Addressable (record : ArrayRecord) : Prop :=
  record.element.Addressable ∧ BotScript.Addressable record.limits.length ∧
    BotScript.Addressable record.items.length

/-- The operands and the completion held back by a frame fit the memory. -/
def FrameRecord.Addressable (record : FrameRecord) : Prop :=
  (BotScript.Addressable record.values.length ∧ ∀ value ∈ record.values, value.Addressable) ∧
    ∀ completion ∈ record.pending, completion.Addressable

/-- All texts and tables of a snapshot fit a memory with 64-bit addresses. -/
structure Snapshot.Addressable (snapshot : Snapshot) : Prop where
  entry : BotScript.Addressable snapshot.entry.utf8ByteSize
  cells :
    BotScript.Addressable snapshot.cells.length ∧ ∀ record ∈ snapshot.cells, record.Addressable
  arrays :
    BotScript.Addressable snapshot.arrays.length ∧ ∀ record ∈ snapshot.arrays, record.Addressable
  objects :
    BotScript.Addressable snapshot.objects.length ∧
      ∀ record ∈ snapshot.objects, BotScript.Addressable record.fields.length
  statics :
    BotScript.Addressable snapshot.statics.length ∧
      ∀ fields ∈ snapshot.statics, BotScript.Addressable fields.length
  activations :
    BotScript.Addressable snapshot.activations.length ∧
      ∀ record ∈ snapshot.activations, BotScript.Addressable record.locals.length
  frames :
    BotScript.Addressable snapshot.frames.length ∧ ∀ record ∈ snapshot.frames, record.Addressable
  incoming : ∀ completion ∈ snapshot.incoming, completion.Addressable

/-! ## The parts of a snapshot -/

namespace Codec

/-- The number of a variant is read first. -/
theorem read?_variant
    (number : UInt32)
    (parts rest : List UInt8) :
    word32.read? (variant number parts ++ rest) = some (number, parts ++ rest) := by
  rw [variant, List.append_assoc]
  exact word32_readsBack number _ trivial

/-- The type behind a number. -/
theorem readTy_variant
    (number : UInt32)
    (parts rest : List UInt8) :
    readTy (variant number parts ++ rest) =
      readTy ([UInt8.ofNat (number.toNat % 256), UInt8.ofNat (number.toNat / 256 % 256),
        UInt8.ofNat (number.toNat / 256 / 256 % 256),
        UInt8.ofNat (number.toNat / 256 / 256 / 256 % 256)] ++ (parts ++ rest)) := by
  rw [variant, List.append_assoc]
  rfl

/-- Types. -/
theorem ty_readsBack : ty.ReadsBack Ty.Addressable := by
  intro value
  simp only [ty]
  induction value with
  | array element inductionHypothesis =>
      intro rest fits
      have inner := inductionHypothesis rest fits
      rw [writeTy, readTy_variant]
      simp [readTy, Bytes.toNat, inner]
  | object className =>
      intro rest fits
      have inner := text_readsBack.readAs fits Ty.object rest
      rw [writeTy, readTy_variant]
      simpa [readTy, Bytes.toNat] using inner
  | _ =>
      intro rest _
      rw [writeTy, readTy_variant]
      simp [readTy, Bytes.toNat]

/-- Identifiers. -/
theorem id_readsBack {table : Table} : (Codec.id : Codec (Id table)).ReadsBack fun _ => True :=
  word32_readsBack.iso fun _ => rfl

/-- The states of cells. -/
theorem initState_readsBack : initState.ReadsBack fun _ => True := by
  intro value rest _
  cases value <;>
    simp only [initState, read?_variant, Option.bind_eq_bind, Option.bind_some, List.nil_append]

/-- Integers. -/
theorem int64_readsBack : int64.ReadsBack fun _ => True :=
  word64_readsBack.iso fun _ => rfl

/-- Floating-point numbers, whatever their bits. -/
theorem double_readsBack : double.ReadsBack fun _ => True :=
  word64_readsBack.iso fun _ => rfl

/-- Saved values. -/
theorem savedValue_readsBack : savedValue.ReadsBack SavedValue.Addressable := by
  intro value rest fits
  cases value <;>
    simp only [savedValue, read?_variant, Option.bind_eq_bind, Option.bind_some, List.nil_append]
  case bool value => exact flag_readsBack.readAs trivial SavedValue.bool rest
  case int value => exact int64_readsBack.readAs trivial SavedValue.int rest
  case float value => exact double_readsBack.readAs trivial SavedValue.float rest
  case str value => exact text_readsBack.readAs fits SavedValue.str rest
  case array number => exact word32_readsBack.readAs trivial SavedValue.array rest
  case object number => exact word32_readsBack.readAs trivial SavedValue.object rest

/-- Exceptions. -/
theorem runtimeError_readsBack : runtimeError.ReadsBack fun _ => True := by
  have spans : span.ReadsBack fun _ => True :=
    ((word32_readsBack.pair word32_readsBack).iso fun _ => rfl).narrow fun _ _ => ⟨trivial, trivial⟩
  exact ((word32_readsBack.pair spans).iso fun _ => rfl).narrow fun _ _ => ⟨trivial, trivial⟩

/-- Saved completions. -/
theorem savedCompletion_readsBack : savedCompletion.ReadsBack SavedCompletion.Addressable := by
  intro value rest fits
  cases value <;>
    simp only [savedCompletion, read?_variant, Option.bind_eq_bind, Option.bind_some,
      List.nil_append]
  case value content => exact savedValue_readsBack.readAs fits SavedCompletion.value rest
  case place cell => exact word32_readsBack.readAs trivial SavedCompletion.place rest
  case breakTo target => exact text_readsBack.optional.readAs fits SavedCompletion.breakTo rest
  case continueTo target =>
    exact text_readsBack.optional.readAs fits SavedCompletion.continueTo rest
  case returned content => exact savedValue_readsBack.readAs fits SavedCompletion.returned rest
  case thrown error => exact runtimeError_readsBack.readAs trivial SavedCompletion.thrown rest

/-- Demands. -/
theorem demand_readsBack : demand.ReadsBack fun _ => True := by
  intro wanted rest _
  cases wanted <;>
    simp only [demand, read?_variant, Option.bind_eq_bind, Option.bind_some, List.nil_append]

/-- Nodes. -/
theorem node_readsBack : node.ReadsBack fun _ => True := by
  intro value rest _
  cases value <;>
    simp only [node, read?_variant, Option.bind_eq_bind, Option.bind_some]
  case start entry => exact id_readsBack.readAs trivial Node.start rest
  case function function => exact id_readsBack.readAs trivial Node.function rest
  case fieldSetup owner => exact id_readsBack.readAs trivial Node.fieldSetup rest
  case statement statement => exact id_readsBack.readAs trivial Node.statement rest
  case expression expression wanted =>
    have parts : (Codec.id.pair demand).ReadsBack fun _ : ExprId × Demand => True :=
      (id_readsBack.pair demand_readsBack).narrow fun _ _ => ⟨trivial, trivial⟩
    exact @ReadsBack.readAs _ _ _ _ parts (expression, wanted) trivial
      (fun wanted => Node.expression wanted.1 wanted.2) rest

/-- Lists of numbers. -/
theorem numbers_readsBack : numbers.ReadsBack fun values => Addressable values.length :=
  word32_readsBack.list.narrow fun _ length => ⟨length, fun _ _ => trivial⟩

/-- Cells. -/
theorem cellRecord_readsBack : cellRecord.ReadsBack CellRecord.Addressable :=
  ((ty_readsBack.pair (initState_readsBack.pair savedValue_readsBack)).iso fun _ => rfl).narrow
    fun _ fits => ⟨fits.1, trivial, fits.2⟩

/-- Arrays. -/
theorem arrayRecord_readsBack : arrayRecord.ReadsBack ArrayRecord.Addressable := by
  have limits : word32.optional.list.ReadsBack fun values => Addressable values.length :=
    word32_readsBack.optional.list.narrow fun _ length => ⟨length, fun _ _ _ _ => trivial⟩
  exact (ty_readsBack.pair (limits.pair numbers_readsBack)).iso fun _ => rfl

/-- Instances. -/
theorem objectRecord_readsBack :
    objectRecord.ReadsBack fun record => Addressable record.fields.length :=
  ((id_readsBack.pair numbers_readsBack).iso fun _ => rfl).narrow fun _ fits => ⟨trivial, fits⟩

/-- Activations. -/
theorem activationRecord_readsBack :
    activationRecord.ReadsBack fun record => Addressable record.locals.length :=
  ((id_readsBack.optional.pair (word32_readsBack.optional.pair numbers_readsBack)).iso
    fun _ => rfl).narrow fun _ fits => ⟨fun _ _ => trivial, fun _ _ => trivial, fits⟩

/-- Frames. -/
theorem frameRecord_readsBack : frameRecord.ReadsBack FrameRecord.Addressable := by
  have parts := node_readsBack.pair (word32_readsBack.pair (word32_readsBack.pair
    (word32_readsBack.pair (savedValue_readsBack.list.pair (word32_readsBack.optional.pair
      (savedCompletion_readsBack.optional.pair word32_readsBack))))))
  exact (parts.iso fun _ => rfl).narrow fun _ fits =>
    ⟨trivial, trivial, trivial, trivial, fits.1, fun _ _ => trivial, fits.2, trivial⟩

/-- Snapshots without the marking bytes and the version. -/
theorem snapshot_readsBack : snapshot.ReadsBack Snapshot.Addressable := by
  have parts := word32_readsBack.pair (text_readsBack.pair (cellRecord_readsBack.list.pair
    (arrayRecord_readsBack.list.pair (objectRecord_readsBack.list.pair
      (numbers_readsBack.list.pair (activationRecord_readsBack.list.pair
        (frameRecord_readsBack.list.pair
          (savedCompletion_readsBack.optional.pair word64_readsBack))))))))
  exact (parts.iso fun _ => rfl).narrow fun _ fits =>
    ⟨trivial, fits.entry, fits.cells, fits.arrays, fits.objects, fits.statics, fits.activations,
      fits.frames, fits.incoming, trivial⟩

end Codec

namespace Snapshot

/-- Whatever stands behind a snapshot, it is read back. -/
theorem ofBytes_append
    {snapshot : Snapshot}
    (addressable : snapshot.Addressable)
    (rest : List UInt8) :
    ofBytes (snapshot.toBytes ++ rest) = .ok snapshot := by
  have contents : (Codec.word32.pair Codec.snapshot).ReadsBack fun value => value.2.Addressable :=
    (Codec.word32_readsBack.pair Codec.snapshot_readsBack).narrow fun _ fits => ⟨trivial, fits⟩
  have marked :
      envelope.read? (snapshot.toBytes ++ rest) = some ((magic, currentVersion, snapshot), rest) := by
    simp only [envelope, toBytes, List.append_assoc]
    rw [if_neg (by simp), List.drop_left' rfl, List.take_left' rfl]
    exact contents.readAs addressable _ rest
  simp [ofBytes, marked]

/--
A snapshot is read back from its bytes, with every bit of its floating-point numbers,
and no other snapshot has the same bytes.
-/
theorem ofBytes_toBytes
    {snapshot : Snapshot}
    (addressable : snapshot.Addressable) :
    ofBytes snapshot.toBytes = .ok snapshot ∧
      ∀ other : Snapshot, other.Addressable → other.toBytes = snapshot.toBytes →
        other = snapshot := by
  have readBack {snapshot : Snapshot} (addressable : snapshot.Addressable) :
      ofBytes snapshot.toBytes = .ok snapshot := by
    simpa using ofBytes_append addressable []
  refine ⟨readBack addressable, fun other otherAddressable alike => ?_⟩
  have readOther := readBack otherAddressable
  rw [alike, readBack addressable] at readOther
  cases readOther
  rfl

/--
A suspended `finally` block.  One cell holds an array of arrays that contains
itself, one a number with the bits of a silent NaN, and one a text beyond ASCII.
-/
def knotted : Snapshot where
  signature := 0xDEADBEEF
  entry := "main"
  cells :=
    [⟨.array (.array (.object "Bot")), .defined, .array 0⟩,
     ⟨.double, .defaulted, .float ⟨0x7FF8000000000001⟩⟩,
     ⟨.string, .undefined, .str "grüß"⟩]
  arrays := [⟨.array (.object "Bot"), [some 3, none], [0, 0]⟩]
  objects := [⟨⟨0⟩, [1, 2]⟩]
  statics := [[], [2]]
  activations := [⟨none, none, []⟩, ⟨some ⟨0⟩, some 0, [0]⟩]
  frames :=
    [⟨.start ⟨0⟩, 3, 0, 0, [], none, none, 0⟩,
     ⟨.statement ⟨7⟩, 9, 1, 0, [.nan, .object 0], some 1, some (.continueTo (some "outer")), 1⟩]
  incoming := some (.thrown ⟨6000, ⟨12, 17⟩⟩)
  steps := 18446744073709551615

/-- Lists of parts within parts come back as they were. -/
theorem ofBytes_toBytes_knotted :
    knotted.Addressable ∧ ofBytes knotted.toBytes = .ok knotted ∧
      ∀ other : Snapshot, other.Addressable → other.toBytes = knotted.toBytes →
        other = knotted := by
  have addressable : knotted.Addressable := by
    constructor <;>
      simp [knotted, BotScript.Addressable, CellRecord.Addressable, Ty.Addressable,
        SavedValue.Addressable, ArrayRecord.Addressable, FrameRecord.Addressable,
        SavedCompletion.Addressable] <;> decide
  exact ⟨addressable, ofBytes_toBytes addressable⟩

end Snapshot

end BotScript
