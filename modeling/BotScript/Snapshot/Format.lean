import BotScript.Snapshot.Codec
import BotScript.Snapshot.Record

namespace BotScript

/-!
# The byte form of snapshots

A snapshot starts with four marking bytes and a version; its parts follow in
the order of their declaration.  Variants are numbered in the order of their
declaration as well.  Bytes behind the snapshot are ignored.
-/

namespace Codec

/-- A type: the number of its form, and the element type or the class name. -/
def writeTy : Ty → List UInt8
  | .void => variant 0 []
  | .boolean => variant 1 []
  | .byte => variant 2 []
  | .short => variant 3 []
  | .char => variant 4 []
  | .int => variant 5 []
  | .long => variant 6 []
  | .float => variant 7 []
  | .double => variant 8 []
  | .string => variant 9 []
  | .null => variant 10 []
  | .array element => variant 11 (writeTy element)
  | .object className => variant 12 (text.write className)

/-- Read a type. -/
def readTy : List UInt8 → Option (Ty × List UInt8)
  | first :: second :: third :: fourth :: rest =>
      match Bytes.toNat [first, second, third, fourth] with
      | 0 => some (.void, rest)
      | 1 => some (.boolean, rest)
      | 2 => some (.byte, rest)
      | 3 => some (.short, rest)
      | 4 => some (.char, rest)
      | 5 => some (.int, rest)
      | 6 => some (.long, rest)
      | 7 => some (.float, rest)
      | 8 => some (.double, rest)
      | 9 => some (.string, rest)
      | 10 => some (.null, rest)
      | 11 => (readTy rest).map fun (element, rest) => (.array element, rest)
      | 12 => text.readAs Ty.object rest
      | _ => none
  | _ => none

/-- The codec of types. -/
def ty : Codec Ty :=
  ⟨writeTy, readTy⟩

/-- The codec of identifiers. -/
def id {table : Table} : Codec (Id table) :=
  word32.iso Id.mk Id.raw

/-- The codec of the states of a cell. -/
def initState : Codec InitState where
  write
    | .undefined => variant 0 []
    | .defaulted => variant 1 []
    | .defined => variant 2 []
  read? bytes := do
    match ← word32.read? bytes with
    | (0, rest) => some (.undefined, rest)
    | (1, rest) => some (.defaulted, rest)
    | (2, rest) => some (.defined, rest)
    | _ => none

/-- The codec of 64-bit integers. -/
def int64 : Codec Int64 :=
  word64.iso UInt64.toInt64 Int64.toUInt64

/-- The codec of floating-point numbers, every bit of them. -/
def double : Codec Double :=
  word64.iso Double.mk Double.bits

/-- The codec of saved values. -/
def savedValue : Codec SavedValue where
  write
    | .void => variant 0 []
    | .bool value => variant 1 (flag.write value)
    | .int value => variant 2 (int64.write value)
    | .float value => variant 3 (double.write value)
    | .str value => variant 4 (text.write value)
    | .nan => variant 5 []
    | .null => variant 6 []
    | .array number => variant 7 (word32.write number)
    | .object number => variant 8 (word32.write number)
  read? bytes := do
    match ← word32.read? bytes with
    | (0, rest) => some (.void, rest)
    | (1, rest) => flag.readAs .bool rest
    | (2, rest) => int64.readAs .int rest
    | (3, rest) => double.readAs .float rest
    | (4, rest) => text.readAs .str rest
    | (5, rest) => some (.nan, rest)
    | (6, rest) => some (.null, rest)
    | (7, rest) => word32.readAs .array rest
    | (8, rest) => word32.readAs .object rest
    | _ => none

/-- The codec of source spans. -/
def span : Codec Span :=
  (word32.pair word32).iso (fun (start, stop) => ⟨start, stop⟩) fun span =>
    (span.start, span.stop)

/-- The codec of exceptions. -/
def runtimeError : Codec RuntimeError :=
  (word32.pair span).iso (fun (code, span) => ⟨code.toInt32, span⟩) fun error =>
    (error.code.toUInt32, error.span)

/-- The codec of labels. -/
def label : Codec (Option String) :=
  text.optional

/-- The codec of saved completions. -/
def savedCompletion : Codec SavedCompletion where
  write
    | .normal => variant 0 []
    | .value value => variant 1 (savedValue.write value)
    | .place cell => variant 2 (word32.write cell)
    | .breakTo target => variant 3 (label.write target)
    | .continueTo target => variant 4 (label.write target)
    | .returned value => variant 5 (savedValue.write value)
    | .thrown error => variant 6 (runtimeError.write error)
  read? bytes := do
    match ← word32.read? bytes with
    | (0, rest) => some (.normal, rest)
    | (1, rest) => savedValue.readAs .value rest
    | (2, rest) => word32.readAs .place rest
    | (3, rest) => label.readAs .breakTo rest
    | (4, rest) => label.readAs .continueTo rest
    | (5, rest) => savedValue.readAs .returned rest
    | (6, rest) => runtimeError.readAs .thrown rest
    | _ => none

/-- The codec of demands. -/
def demand : Codec Demand where
  write
    | .value => variant 0 []
    | .place => variant 1 []
  read? bytes := do
    match ← word32.read? bytes with
    | (0, rest) => some (.value, rest)
    | (1, rest) => some (.place, rest)
    | _ => none

/-- The codec of nodes. -/
def node : Codec Node where
  write
    | .start entry => variant 0 (id.write entry)
    | .function function => variant 1 (id.write function)
    | .fieldSetup owner => variant 2 (id.write owner)
    | .statement statement => variant 3 (id.write statement)
    | .expression expression wanted => variant 4 (id.write expression ++ demand.write wanted)
  read? bytes := do
    match ← word32.read? bytes with
    | (0, rest) => id.readAs .start rest
    | (1, rest) => id.readAs .function rest
    | (2, rest) => id.readAs .fieldSetup rest
    | (3, rest) => id.readAs .statement rest
    | (4, rest) =>
        (id.pair demand).readAs (fun (expression, wanted) => .expression expression wanted) rest
    | _ => none

/-- The codec of lists of numbers. -/
def numbers : Codec (List UInt32) :=
  word32.list

/-- The codec of cells. -/
def cellRecord : Codec CellRecord :=
  (ty.pair (initState.pair savedValue)).iso
    (fun (ty, state, value) => ⟨ty, state, value⟩)
    fun record => (record.ty, record.state, record.value)

/-- The codec of arrays. -/
def arrayRecord : Codec ArrayRecord :=
  (ty.pair (word32.optional.list.pair numbers)).iso
    (fun (element, limits, items) => ⟨element, limits, items⟩)
    fun record => (record.element, record.limits, record.items)

/-- The codec of instances. -/
def objectRecord : Codec ObjectRecord :=
  (id.pair numbers).iso
    (fun (owner, fields) => ⟨owner, fields⟩)
    fun record => (record.owner, record.fields)

/-- The codec of activations. -/
def activationRecord : Codec ActivationRecord :=
  (id.optional.pair (word32.optional.pair numbers)).iso
    (fun (function, this, locals) => ⟨function, this, locals⟩)
    fun record => (record.function, record.this, record.locals)

/-- The codec of frames. -/
def frameRecord : Codec FrameRecord :=
  (node.pair (word32.pair (word32.pair (word32.pair
    (savedValue.list.pair (word32.optional.pair (savedCompletion.optional.pair word32))))))).iso
    (fun (node, state, cursor, aux, values, place, pending, act) =>
      ⟨node, state, cursor, aux, values, place, pending, act⟩)
    fun record =>
      (record.node, record.state, record.cursor, record.aux, record.values, record.place,
        record.pending, record.act)

/-- The codec of snapshots without the marking bytes and the version. -/
def snapshot : Codec Snapshot :=
  (word32.pair (text.pair (cellRecord.list.pair (arrayRecord.list.pair (objectRecord.list.pair
    (numbers.list.pair (activationRecord.list.pair (frameRecord.list.pair
      (savedCompletion.optional.pair word64))))))))).iso
    (fun
      (signature, entry, cells, arrays, objects, statics, activations, frames, incoming, steps) =>
      ⟨signature, entry, cells, arrays, objects, statics, activations, frames, incoming, steps⟩)
    fun record =>
      (record.signature, record.entry, record.cells, record.arrays, record.objects, record.statics,
        record.activations, record.frames, record.incoming, record.steps)

end Codec

namespace Snapshot

/-- The bytes that mark a snapshot. -/
def magic : List UInt8 :=
  "CBOT".toUTF8.toList

/-- The marking bytes, the version and the contents of a snapshot of any version. -/
def envelope : Codec (List UInt8 × UInt32 × Snapshot) where
  write value := value.1 ++ (Codec.word32.pair Codec.snapshot).write value.2
  read? bytes :=
    if bytes.length < magic.length then none
    else (Codec.word32.pair Codec.snapshot).readAs
      (fun value => (bytes.take magic.length, value)) (bytes.drop magic.length)

/-- The bytes of a snapshot. -/
def toBytes (snapshot : Snapshot) : List UInt8 :=
  envelope.write (magic, currentVersion, snapshot)

/-- The snapshot that bytes stand for; the mark and the version are looked at last. -/
def ofBytes (bytes : List UInt8) : Except SnapshotError Snapshot :=
  match envelope.read? bytes with
  | none => .error .unreadable
  | some ((mark, version, snapshot), _) =>
      if mark != magic then .error .badMagic
      else if version != currentVersion then .error (.version version)
      else .ok snapshot

end Snapshot

end BotScript
