import BotScript.Proofs.LockstepLibrary
import BotScript.Proofs.SoundExpression

namespace BotScript

/-!
# The standard library over sound heaps

The natives of the standard library place nothing on the heap, and deliver
texts, numbers and truth values only.
-/

open Restored (Bounds)

/-- An action keeps heaps of a size sound and of that size, and its result meets a condition. -/
def Action.Steady
    {α : Type} (tree : Tree) (bounds : Bounds) (post : α → Prop) (action : Action α) : Prop :=
  ∀ world : World,
    world.heap.Sound tree →
    world.heap.bounds = bounds →
    ((action.run.run world).2.heap.Sound tree ∧ (action.run.run world).2.heap.bounds = bounds) ∧
      ∀ result, (action.run.run world).1 = .ok result → post result

namespace Action

variable {α β : Type} {tree : Tree} {bounds : Bounds} {post : β → Prop}

/-- An action that delivers nothing on the heap keeps the heap. -/
theorem Steady.keeps
    {action : Action Value}
    {world : World}
    (steady : Steady tree world.heap.bounds (fun result => result.refs = []) action)
    (sound : world.heap.Sound tree) :
    Keeps tree Value.refs world action := by
  obtain ⟨⟨after, same⟩, scalar⟩ := steady world sound rfl
  refine ⟨⟨after, same.ge⟩, fun result delivered => ?_⟩
  rw [scalar result delivered]
  exact Bounds.cover_nil

namespace Steady

/-- A result that needs no action. -/
theorem pure
    {value : β}
    (holds : post value) :
    Steady tree bounds post (Pure.pure value) := by
  intro world sound size
  refine ⟨⟨sound, size⟩, fun result delivered => ?_⟩
  cases delivered
  exact holds

/-- An action and what follows it. -/
theorem bind
    {middle : α → Prop}
    {action : Action α}
    {next : α → Action β}
    (first : Steady tree bounds middle action)
    (rest : ∀ value, middle value → Steady tree bounds post (next value)) :
    Steady tree bounds post (action >>= next) := by
  intro world sound size
  have reached := first world sound size
  simp only [ExceptT.run_bind, StateT.run_bind]
  revert reached
  generalize action.run.run world = taken
  obtain ⟨result, after⟩ := taken
  rintro ⟨⟨afterSound, afterSize⟩, holds⟩
  cases result with
  | ok value => exact rest value (holds value rfl) after afterSound afterSize
  | error fault => exact ⟨⟨afterSound, afterSize⟩, fun _ failed => by cases failed⟩

/-- Nothing is said of the result. -/
theorem weaken
    {middle : β → Prop}
    {action : Action β}
    (steady : Steady tree bounds middle action) :
    Steady tree bounds (fun _ => True) action :=
  fun world sound size => ⟨(steady world sound size).1, fun _ _ => trivial⟩

/-- What follows an action of which nothing else is known. -/
theorem andThen
    {action : Action α}
    {next : α → Action β}
    (first : Steady tree bounds (fun _ => True) action)
    (rest : ∀ value, Steady tree bounds post (next value)) :
    Steady tree bounds post (action >>= next) :=
  first.bind fun value _ => rest value

/-- A failure. -/
theorem fail
    (code : ErrorCode) :
    Steady tree bounds post (Action.fail code) :=
  fun _ sound size => ⟨⟨sound, size⟩, fun _ failed => by cases failed⟩

/-- A check. -/
theorem ofChecked
    {result : Checked α} :
    Steady tree bounds (fun value => result = .ok value) (Action.ofChecked result) := by
  cases result with
  | ok value => exact pure rfl
  | error fault => exact fun _ sound size => ⟨⟨sound, size⟩, fun _ failed => by cases failed⟩

/-- A value that must be there. -/
theorem require
    {code : ErrorCode}
    (value : Option α) :
    Steady tree bounds (fun _ => True) (Action.require code value) := by
  cases value with
  | none => exact fail code
  | some value => exact pure trivial

/-- What is read of the world. -/
theorem withWorld
    {next : World → Action β}
    (rest : ∀ world : World, world.heap.Sound tree → world.heap.bounds = bounds →
      Steady tree bounds post (next world)) :
    Steady tree bounds post (get >>= next) :=
  fun world sound size => rest world sound size world sound size

/-- A change of the world. -/
theorem change
    {how : World → World}
    (keeps : ∀ world : World, world.heap.Sound tree → world.heap.bounds = bounds →
      (how world).heap.Sound tree ∧ (how world).heap.bounds = bounds) :
    Steady tree bounds (fun _ => True) (modify how : Action PUnit) :=
  fun world sound size => ⟨keeps world sound size, fun _ _ => trivial⟩

/-- A replaced heap. -/
theorem setHeap
    {heap : Heap}
    (sound : heap.Sound tree)
    (size : heap.bounds = bounds) :
    Steady tree bounds (fun _ => True) (Action.setHeap heap) :=
  change fun _ _ _ => ⟨sound, size⟩

/-- A change of the host. -/
theorem modifyHost
    (how : Host → Host) :
    Steady tree bounds (fun _ => True) (Action.modifyHost how) :=
  change fun _ sound size => ⟨sound, size⟩

/-- A store of a value that is not on the heap. -/
theorem assign
    (cell : CellId)
    {value : Value}
    (scalar : value.refs = []) :
    Steady tree bounds (fun _ => True) (Action.assign cell value) := by
  refine withWorld fun world sound size => bind ofChecked fun heap assigned => ?_
  obtain ⟨after, same⟩ := sound.assign (scalar ▸ Bounds.cover_nil) assigned
  exact setHeap after (same.trans size)

/-! ## Arguments -/

variable (call : NativeCall)

/-- An argument as a text. -/
theorem string
    (index : Nat) :
    Steady tree bounds (fun _ => True) (call.string index) := by
  unfold NativeCall.string
  refine andThen (require _) fun value => ?_
  split
  · exact pure trivial
  · exact fail _
  · exact fail _
  · exact fail _
  · exact withWorld fun world _ _ => ofChecked.weaken

/-- An argument as an integer. -/
theorem int
    (index : Nat) :
    Steady tree bounds (fun _ => True) (call.int index) := by
  unfold NativeCall.int
  refine andThen (require _) fun value => ?_
  split
  · exact fail _
  · exact require _

/-- The cell of a field of the receiver. -/
theorem fieldCell
    (name : String) :
    Steady tree bounds (fun _ => True) (call.fieldCell name) := by
  unfold NativeCall.fieldCell NativeCall.this
  exact andThen (require _) fun object => withWorld fun _ _ _ => require _

/-! ## Files -/

/-- The number of the open file of the receiver. -/
theorem handleOf :
    Steady tree bounds (fun _ => True) (FileLibrary.handleOf call) := by
  unfold FileLibrary.handleOf
  refine andThen (fieldCell call _) fun cell => withWorld fun world _ _ => ?_
  dsimp only
  split
  · exact andThen (fail _) fun _ => require _
  · exact require _

/-- The owner of an open file. -/
theorem attach
    (object : ObjectId)
    (handle : FileHandle) :
    Steady tree bounds (fun _ => True) (FileLibrary.attach object handle) :=
  change fun _ sound size =>
    ⟨(sound.setOpenFile object (some handle)).1, (sound.setOpenFile object _).2.trans size⟩

/-- The owner of an open file gives it up. -/
theorem detach
    (object : ObjectId) :
    Steady tree bounds (fun _ => True) (FileLibrary.detach object) :=
  change fun _ sound size =>
    ⟨(sound.setOpenFile object none).1, (sound.setOpenFile object _).2.trans size⟩

/-- The name and mode that arguments give. -/
theorem nameAndMode :
    Steady tree bounds (fun _ => True) (FileLibrary.nameAndMode call) := by
  unfold FileLibrary.nameAndMode
  split
  · exact fail _
  · refine andThen (string call 0) fun argument => ?_
    split
    · refine andThen (fieldCell call _) fun cell => withWorld fun _ _ _ => ?_
      split
      · exact bind ofChecked fun _ _ => pure trivial
      · exact fail _
    · exact pure trivial
  · exact andThen (string call 1) fun _ => andThen (require _) fun _ =>
      andThen (string call 0) fun _ => pure trivial
  · exact fail _

/-- A file is opened, and its handle put into a field and attached to the receiver. -/
private theorem openedFile
    (host : Host)
    (name : String)
    (mode : OpenMode)
    (object : ObjectId)
    (handleCell : CellId) :
    Steady tree bounds (fun _ => True) (do
      let (file, files) ← Action.require .fileOpen (host.files.open? name mode)
      let (handle, openFiles) := host.openFiles.insert file
      Action.modifyHost fun host => { host with files, openFiles }
      FileLibrary.attach object handle
      Action.assign handleCell (.int handle)) :=
  andThen (require _) fun _ => andThen (modifyHost _) fun _ =>
    andThen (attach object _) fun _ => assign handleCell rfl

/-- A file is opened. -/
theorem openFile :
    Steady tree bounds (fun _ => True) (FileLibrary.openFile call) := by
  unfold FileLibrary.openFile
  refine andThen (require _) fun object => andThen (nameAndMode call) fun named => ?_
  obtain ⟨name, mode⟩ := named
  refine andThen (fieldCell call _) fun nameCell => andThen (assign nameCell rfl) fun _ => ?_
  refine andThen (fieldCell call _) fun handleCell => withWorld fun world _ _ => ?_
  dsimp only
  split
  · exact andThen (fail _) fun _ => openedFile world.host name mode object handleCell
  · exact openedFile world.host name mode object handleCell

/-- An operation on the open file of the receiver. -/
theorem withOpen
    (operation : OpenFile → FileAccess → α × OpenFile × FileAccess) :
    Steady tree bounds (fun _ => True) (FileLibrary.withOpen call operation) := by
  unfold FileLibrary.withOpen
  exact andThen (handleOf call) fun handle => withWorld fun world _ _ =>
    andThen (require _) fun file => andThen (modifyHost _) fun _ => pure trivial

end Steady

end Action

/-! ## Natives -/

/-- A native keeps heaps sound and of their size, and delivers nothing on the heap. -/
def Native.Steady (native : Native) (tree : Tree) : Prop :=
  ∀ call bounds, Action.Steady tree bounds (fun result => result.refs = []) (native.run call)

namespace Native.Steady

open Action.Steady

variable (tree : Tree)

/-- The number of elements of an array. -/
theorem arraySize : arraySize.Steady tree := by
  intro call bounds
  refine withWorld fun world _ _ => ?_
  split
  · exact pure rfl
  · exact pure rfl
  · exact fail _

/-- The text functions. -/
theorem strings
    {native : Native}
    (member : native ∈ StringLibrary.natives) :
    native.Steady tree := by
  intro call bounds
  simp only [StringLibrary.natives, List.mem_cons, List.not_mem_nil, or_false] at member
  rcases member with rfl | rfl | rfl | rfl | rfl | rfl | rfl | rfl
  · exact andThen (string call 0) fun text => pure rfl
  · exact andThen (string call 0) fun text => andThen (int call 1) fun count => pure rfl
  · exact andThen (string call 0) fun text => andThen (int call 1) fun count => pure rfl
  · refine andThen (string call 0) fun text => andThen (int call 1) fun start => ?_
    split
    · exact andThen (int call 2) fun count => pure rfl
    · exact pure rfl
  · exact andThen (string call 0) fun text => pure rfl
  · refine andThen (string call 0) fun text => andThen (string call 1) fun needle => ?_
    split <;> exact pure rfl
  · exact andThen (string call 0) fun text => pure rfl
  · exact andThen (string call 0) fun text => pure rfl

/-- The method that closes a file. -/
theorem close : FileLibrary.closeMethod.Steady tree := by
  intro call bounds
  refine andThen (require _) fun object => andThen (handleOf call) fun handle => ?_
  refine withWorld fun world _ _ => ?_
  have closes :
      Action.Steady tree bounds (fun result => result.refs = []) (do
        Action.modifyHost fun host => { host with openFiles := host.openFiles.erase handle }
        FileLibrary.detach object
        let cell ← call.fieldCell "handle"
        let world ← get
        Action.setHeap (world.heap.setCell cell (Cell.declared .int))
        Pure.pure Value.void) := by
    refine andThen (modifyHost _) fun _ => andThen (detach object) fun _ => ?_
    refine andThen (fieldCell call _) fun cell => withWorld fun later sound size => ?_
    have empty : later.heap.bounds.Cover (Cell.declared .int).value.refs := Bounds.cover_nil
    obtain ⟨after, same⟩ := sound.setCell cell empty
    exact andThen (setHeap after (same.trans size)) fun _ => pure rfl
  dsimp only
  split
  · exact andThen (fail _) fun _ => closes
  · exact closes

/-- The methods of files. -/
theorem files
    {native : Native}
    (member : native ∈ FileLibrary.methods) :
    native.Steady tree := by
  intro call bounds
  simp only [FileLibrary.methods, List.mem_cons, List.not_mem_nil, or_false] at member
  rcases member with rfl | rfl | rfl | rfl | rfl | rfl
  · unfold FileLibrary.construct
    dsimp only
    split
    · exact andThen (string call 0) fun name => andThen (fieldCell call _) fun cell =>
        andThen (assign cell rfl) fun _ => pure rfl
    · exact pure rfl
  · exact andThen (openFile call) fun _ => pure rfl
  · exact close tree call bounds
  · refine andThen (string call 0) fun text => andThen (require _) fun _ =>
      andThen (withOpen call _) fun done => ?_
    split
    · exact pure rfl
    · exact fail _
  · exact andThen (withOpen call _) fun line => andThen (require _) fun text => pure rfl
  · exact andThen (withOpen call _) fun ended => pure rfl

/-- The function that deletes a file. -/
theorem deleteFile : FileLibrary.deleteFile.Steady tree :=
  fun call _ => andThen (string call 0) fun _ => withWorld fun _ _ _ =>
    andThen (modifyHost _) fun _ => pure rfl

end Native.Steady

/-- The natives of the standard library keep heaps sound. -/
theorem Registry.standard_keepsHeaps
    (tree : Tree) :
    standard.KeepsHeaps tree := by
  intro id call world sound _
  refine Action.Steady.keeps ?_ sound
  unfold Registry.call
  cases found : standard.native? id with
  | none => exact Action.Steady.fail _
  | some native =>
      rcases standard_native? found with rfl | member | member | rfl
      · exact Native.Steady.arraySize tree call _
      · exact Native.Steady.strings tree member call _
      · exact Native.Steady.files tree member call _
      · exact Native.Steady.deleteFile tree call _

end BotScript
