import BotScript.Proofs.LockstepStatement

namespace BotScript

/-!
# The standard library in lockstep

The natives of the standard library read texts, numbers and fields, and change
cells, the owners of open files and the host.  They never look at where a part
of the heap is.
-/

namespace Action

variable {α β γ δ : Type} {shift : Relocation}

namespace Follows

/-- Results that need no action. -/
theorem pure
    {R : α → β → Prop}
    {first : α}
    {second : β}
    (related : R first second) :
    Follows shift R (Pure.pure first) (Pure.pure second) :=
  fun _ _ embeds => ⟨.ok related, embeds⟩

/-- An action and what follows it. -/
theorem bind
    {R : α → β → Prop}
    {S : γ → δ → Prop}
    {inner : Action α}
    {outer : Action β}
    {innerNext : α → Action γ}
    {outerNext : β → Action δ}
    (follows : Follows shift R inner outer)
    (rest : ∀ first second, R first second →
      Follows shift S (innerNext first) (outerNext second)) :
    Follows shift S (inner >>= innerNext) (outer >>= outerNext) := by
  intro before after embeds
  have reached := follows before after embeds
  simp only [ExceptT.run_bind, StateT.run_bind]
  revert reached
  generalize inner.run.run before = innerResult
  generalize outer.run.run after = outerResult
  obtain ⟨first, innerWorld⟩ := innerResult
  obtain ⟨second, outerWorld⟩ := outerResult
  rintro ⟨agree, world⟩
  cases agree with
  | ok related => exact rest _ _ related _ _ world
  | error => exact ⟨.error, world⟩

/-- The same result on both sides. -/
theorem same
    {S : γ → δ → Prop}
    {inner outer : Action α}
    {innerNext : α → Action γ}
    {outerNext : α → Action δ}
    (follows : Follows shift Eq inner outer)
    (rest : ∀ value, Follows shift S (innerNext value) (outerNext value)) :
    Follows shift S (inner >>= innerNext) (outer >>= outerNext) := by
  refine bind follows ?_
  rintro value _ rfl
  exact rest value

/-- Failures with the same error. -/
theorem fail
    {R : α → β → Prop}
    (code : ErrorCode) :
    Follows shift R (Action.fail code) (Action.fail code) :=
  fun _ _ embeds => ⟨.error, embeds⟩

/-- Checks that agree. -/
theorem ofChecked
    {R : α → β → Prop}
    {first : Checked α}
    {second : Checked β}
    (agree : Agree R first second) :
    Follows shift R (Action.ofChecked first) (Action.ofChecked second) := by
  cases agree with
  | ok related => exact pure related
  | error => exact fun _ _ embeds => ⟨.error, embeds⟩

/-- A value that must be there, where it has been renamed. -/
theorem require
    {f : α → β}
    {code : ErrorCode}
    (value : Option α) :
    Follows shift (Renamed f) (Action.require code value)
      (Action.require code (value.map f)) := by
  cases value with
  | none => exact fail code
  | some value => exact pure rfl

/-- A value that must be there. -/
theorem requireSame
    {code : ErrorCode}
    (value : Option α) :
    Follows shift Eq (Action.require code value) (Action.require code value) := by
  cases value with
  | none => exact fail code
  | some value => exact pure rfl

/-- What is read of both worlds. -/
theorem withWorld
    {S : γ → δ → Prop}
    {innerNext : World → Action γ}
    {outerNext : World → Action δ}
    (rest : ∀ before after, World.Embeds shift before after →
      Follows shift S (innerNext before) (outerNext after)) :
    Follows shift S (get >>= innerNext) (get >>= outerNext) :=
  bind (R := World.Embeds shift) (fun _ _ embeds => ⟨.ok embeds, embeds⟩) rest

/-- Changes of both worlds. -/
theorem change
    {inner outer : World → World}
    (embeds : ∀ before after, World.Embeds shift before after →
      World.Embeds shift (inner before) (outer after)) :
    Follows shift Eq (modify inner) (modify outer : Action PUnit) :=
  fun before after world => ⟨.ok rfl, embeds before after world⟩

/-- A replaced heap. -/
theorem setHeap
    {inner outer : Heap}
    (embeds : Heap.Embeds shift inner outer) :
    Follows shift Eq (Action.setHeap inner) (Action.setHeap outer) :=
  change fun _ _ world => ⟨embeds, world.host⟩

/-- A change of the host. -/
theorem modifyHost
    (how : Host → Host) :
    Follows shift Eq (Action.modifyHost how) (Action.modifyHost how) :=
  change fun _ _ world => ⟨world.heap, congrArg how world.host⟩

/-- A store. -/
theorem assign
    (cell : CellId)
    (value : Value) :
    Follows shift Eq (Action.assign cell value)
      (Action.assign (shift.cell cell) (shift.value value)) :=
  withWorld fun _ _ world =>
    bind (ofChecked (world.heap.assign cell value)) fun _ _ embeds => setHeap embeds

/-! ## Arguments -/

variable (call : NativeCall)

/-- An argument as a text. -/
theorem string
    (index : Nat) :
    Follows shift Eq (call.string index) ((shift.call call).string index) := by
  unfold NativeCall.string
  have found : (shift.call call).arguments[index]? = (call.arguments[index]?).map shift.value := by
    simp [Relocation.call]
  rw [found]
  refine bind (require (f := shift.value) _) ?_
  rintro value _ rfl
  have text :
      Follows shift Eq
        (do
          let world ← get
          Action.ofChecked (world.heap.valueText value ((call.types[index]?).getD .string)))
        (do
          let world ← get
          Action.ofChecked
            (world.heap.valueText (shift.value value) ((call.types[index]?).getD .string))) :=
    withWorld fun _ _ world => by
      rw [world.heap.valueText]
      exact ofChecked (.refl (fun _ => rfl) _)
  cases value with
  | str content => exact pure rfl
  | nan => exact fail _
  | void => exact fail _
  | null => exact fail _
  | _ => exact text

/-- An argument as an integer. -/
theorem int
    (index : Nat) :
    Follows shift Eq (call.int index) ((shift.call call).int index) := by
  unfold NativeCall.int
  have found : (shift.call call).arguments[index]? = (call.arguments[index]?).map shift.value := by
    simp [Relocation.call]
  rw [found]
  refine bind (require (f := shift.value) _) ?_
  rintro value _ rfl
  cases value with
  | nan => exact fail _
  | _ => exact requireSame _

/-- The receiver. -/
theorem this :
    Follows shift (Renamed shift.object) call.this (shift.call call).this :=
  require _

/-- The cell of a field of the receiver. -/
theorem fieldCell
    (name : String) :
    Follows shift (Renamed shift.cell) (call.fieldCell name) ((shift.call call).fieldCell name) := by
  unfold NativeCall.fieldCell
  refine bind (this call) ?_
  rintro object _ rfl
  refine withWorld fun _ _ world => ?_
  rw [world.heap.fieldNamed?]
  exact require _

/-! ## Files -/

/-- The number of the open file of the receiver. -/
theorem handleOf :
    Follows shift Eq (FileLibrary.handleOf call) (FileLibrary.handleOf (shift.call call)) := by
  unfold FileLibrary.handleOf
  refine bind (fieldCell call _) ?_
  rintro cell _ rfl
  refine withWorld fun _ _ world => ?_
  simp only [world.heap.cell, Relocation.content_state, Relocation.content_value,
    Relocation.value_int?]
  split
  · exact same (fail _) fun _ => requireSame _
  · exact requireSame _

/-- The owner of an open file. -/
theorem attach
    (object : ObjectId)
    (handle : FileHandle) :
    Follows shift Eq (FileLibrary.attach object handle)
      (FileLibrary.attach (shift.object object) handle) :=
  change fun before after world => by
    have heap := world.heap.setObject object
      { before.heap.object object with openFile := some handle }
    simp only [world.heap.object, world.host, Relocation.fields_openFile]
    exact ⟨heap, rfl⟩

/-- The owner of an open file gives it up. -/
theorem detach
    (object : ObjectId) :
    Follows shift Eq (FileLibrary.detach object) (FileLibrary.detach (shift.object object)) :=
  change fun before after world => by
    have heap := world.heap.setObject object { before.heap.object object with openFile := none }
    simp only [world.heap.object, world.host, Relocation.fields_openFile]
    exact ⟨heap, rfl⟩

/-- The name and mode that arguments give. -/
theorem nameAndMode :
    Follows shift Eq (FileLibrary.nameAndMode call)
      (FileLibrary.nameAndMode (shift.call call)) := by
  unfold FileLibrary.nameAndMode
  have count : (shift.call call).arguments.length = call.arguments.length := by
    simp [Relocation.call]
  rw [count]
  split
  · exact fail _
  · refine same (string call 0) fun argument => ?_
    split
    · refine bind (fieldCell call _) ?_
      rintro cell _ rfl
      refine withWorld fun before _ world => ?_
      rw [world.heap.read]
      cases before.heap.read cell with
      | error fault => exact fail _
      | ok stored =>
          dsimp only [Except.map]
          rw [world.heap.valueText]
          exact same (ofChecked (.refl (fun _ => rfl) _)) fun _ => pure rfl
    · exact pure rfl
  · exact same (string call 1) fun _ => same (requireSame _) fun _ =>
      same (string call 0) fun _ => pure rfl
  · exact fail _

/-- A file is opened, and its handle put into a field and attached to the receiver. -/
private theorem handedOut
    (host : Host)
    (name : String)
    (mode : OpenMode)
    (object : ObjectId)
    (handleCell : CellId) :
    Follows shift Eq
      (do
        let (file, files) ← Action.require .fileOpen (host.files.open? name mode)
        let (handle, openFiles) := host.openFiles.insert file
        Action.modifyHost fun host => { host with files, openFiles }
        FileLibrary.attach object handle
        Action.assign handleCell (.int handle))
      (do
        let (file, files) ← Action.require .fileOpen (host.files.open? name mode)
        let (handle, openFiles) := host.openFiles.insert file
        Action.modifyHost fun host => { host with files, openFiles }
        FileLibrary.attach (shift.object object) handle
        Action.assign (shift.cell handleCell) (.int handle)) := by
  refine same (requireSame _) fun opened => same (modifyHost _) fun _ => ?_
  exact same (attach object _) fun _ => assign handleCell (.int _)

/-- A file is opened. -/
theorem openFile :
    Follows shift Eq (FileLibrary.openFile call) (FileLibrary.openFile (shift.call call)) := by
  unfold FileLibrary.openFile
  refine bind (this call) ?_
  rintro object _ rfl
  refine same (nameAndMode call) fun named => ?_
  obtain ⟨name, mode⟩ := named
  refine bind (fieldCell call _) ?_
  rintro nameCell _ rfl
  refine same (assign nameCell (.str name)) fun _ => ?_
  refine bind (fieldCell call _) ?_
  rintro handleCell _ rfl
  refine withWorld fun before after world => ?_
  rw [world.host]
  simp only [world.heap.cell, Relocation.content_state]
  split
  · exact same (fail _) fun _ => handedOut _ name mode object handleCell
  · exact handedOut _ name mode object handleCell

/-- An operation on the open file of the receiver. -/
theorem withOpen
    (operation : OpenFile → FileAccess → α × OpenFile × FileAccess) :
    Follows shift Eq (FileLibrary.withOpen call operation)
      (FileLibrary.withOpen (shift.call call) operation) := by
  unfold FileLibrary.withOpen
  refine same (handleOf call) fun handle => withWorld fun before after world => ?_
  rw [world.host]
  exact same (requireSame _) fun file => same (modifyHost _) fun _ => pure rfl

end Follows

end Action

/-! ## Natives -/

/-- A native does the same on both worlds of a relocation. -/
def Native.Respects (native : Native) (shift : Relocation) : Prop :=
  ∀ call, Action.Follows shift (Renamed shift.value) (native.run call) (native.run (shift.call call))

namespace Native.Respects

open Action.Follows

variable (shift : Relocation)

/-- The number of elements of an array. -/
theorem arraySize : arraySize.Respects shift := by
  intro call
  refine withWorld fun before _ world => ?_
  obtain ⟨receiver, arguments, types⟩ := call
  match arguments with
  | [] => exact fail _
  | first :: others =>
      cases first with
      | array id => exact pure (by simp [Renamed, world.heap.array])
      | null => exact pure rfl
      | _ => exact fail _

/-- The text functions. -/
theorem strings
    {native : Native}
    (member : native ∈ StringLibrary.natives) :
    native.Respects shift := by
  intro call
  simp only [StringLibrary.natives, List.mem_cons, List.not_mem_nil, or_false] at member
  rcases member with rfl | rfl | rfl | rfl | rfl | rfl | rfl | rfl
  · exact same (string call 0) fun text => pure rfl
  · exact same (string call 0) fun text => same (int call 1) fun count => pure rfl
  · exact same (string call 0) fun text => same (int call 1) fun count => pure rfl
  · refine same (string call 0) fun text => same (int call 1) fun start => ?_
    have count : (shift.call call).arguments.length = call.arguments.length := by
      simp [Relocation.call]
    rw [count]
    split
    · exact same (int call 2) fun count => pure rfl
    · exact pure rfl
  · exact same (string call 0) fun text => pure rfl
  · refine same (string call 0) fun text => same (string call 1) fun needle => ?_
    split <;> exact pure rfl
  · exact same (string call 0) fun text => pure rfl
  · exact same (string call 0) fun text => pure rfl

/-- The constructor of files. -/
theorem construct : FileLibrary.construct.Respects shift := by
  intro call
  have empty : (shift.call call).arguments.isEmpty = call.arguments.isEmpty := by
    simp [Relocation.call]
  unfold FileLibrary.construct
  dsimp only
  rw [empty]
  split
  · refine same (string call 0) fun name => bind (fieldCell call _) ?_
    rintro cell _ rfl
    exact same (assign cell (.str name)) fun _ => pure rfl
  · exact pure rfl

/-- The method that closes a file. -/
theorem close : FileLibrary.closeMethod.Respects shift := by
  intro call
  refine bind (this call) ?_
  rintro object _ rfl
  refine same (handleOf call) fun handle => withWorld fun before after world => ?_
  have closes :
      Action.Follows shift (Renamed shift.value)
        (do
          Action.modifyHost fun host => { host with openFiles := host.openFiles.erase handle }
          FileLibrary.detach object
          let cell ← call.fieldCell "handle"
          let world ← get
          Action.setHeap (world.heap.setCell cell (Cell.declared .int))
          Pure.pure Value.void)
        (do
          Action.modifyHost fun host => { host with openFiles := host.openFiles.erase handle }
          FileLibrary.detach (shift.object object)
          let cell ← (shift.call call).fieldCell "handle"
          let world ← get
          Action.setHeap (world.heap.setCell cell (Cell.declared .int))
          Pure.pure Value.void) := by
    refine same (modifyHost _) fun _ => same (detach object) fun _ => ?_
    refine bind (fieldCell call _) ?_
    rintro cell _ rfl
    refine withWorld fun later _ laterWorld => ?_
    have heap := laterWorld.heap.setCell cell (Cell.declared .int)
    rw [Relocation.content_declared] at heap
    exact same (setHeap heap) fun _ => pure rfl
  rw [world.host]
  dsimp only
  split
  · exact same (fail _) fun _ => closes
  · exact closes

/-- The methods of files. -/
theorem files
    {native : Native}
    (member : native ∈ FileLibrary.methods) :
    native.Respects shift := by
  intro call
  simp only [FileLibrary.methods, List.mem_cons, List.not_mem_nil, or_false] at member
  rcases member with rfl | rfl | rfl | rfl | rfl | rfl
  · exact construct shift call
  · exact same (openFile call) fun _ => pure rfl
  · exact close shift call
  · refine same (string call 0) fun text => bind (this call) ?_
    rintro _ _ -
    refine same (withOpen call _) fun done => ?_
    split
    · exact pure rfl
    · exact fail _
  · exact same (withOpen call _) fun line => same (requireSame _) fun text => pure rfl
  · exact same (withOpen call _) fun ended => pure rfl

/-- The function that deletes a file. -/
theorem deleteFile : FileLibrary.deleteFile.Respects shift := by
  intro call
  refine same (string call 0) fun name => withWorld fun before after world => ?_
  rw [world.host]
  exact same (modifyHost _) fun _ => pure rfl

end Native.Respects

namespace Registry

/-- The natives of the standard library, in order of registration. -/
theorem standard_natives :
    standard.natives.toList =
      arraySize :: StringLibrary.natives ++ FileLibrary.methods ++ [FileLibrary.deleteFile] := rfl

/-- A native of the standard library belongs to one of its parts. -/
theorem standard_native?
    {id : NativeId}
    {native : Native}
    (found : standard.native? id = some native) :
    native = arraySize ∨ native ∈ StringLibrary.natives ∨ native ∈ FileLibrary.methods ∨
      native = FileLibrary.deleteFile := by
  have member : native ∈ standard.natives.toList :=
    Array.mem_toList_iff.mpr (Array.mem_of_getElem? found)
  rw [standard_natives] at member
  simpa [or_assoc] using member

end Registry

end BotScript
