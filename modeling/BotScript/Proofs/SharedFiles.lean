import BotScript.Proofs.FileOwnership

namespace BotScript

/-!
# Files that programs share

Others may open, write, read, close and delete files while a program works on its own.  As long
as they do not write under a name, they leave what is stored under it, and whatever they do,
they leave the open files that the program's own files reach.
-/

/-! ## What others do -/

namespace MemoryFiles

variable {files : MemoryFiles} {name other : String}

/-- The texts under other names stay when one is deleted. -/
theorem get?_erase_of_ne
    (differ : other ≠ name) :
    (files.erase name).get? other = files.get? other :=
  lookup_filter_of_ne differ files.entries

/-- The texts under other names stay when one is inserted. -/
theorem get?_insert_of_ne
    (differ : other ≠ name)
    (text : String) :
    (files.insert name text).get? other = files.get? other := by
  rw [get?, insert, lookup_entry, if_neg differ]
  exact get?_erase_of_ne differ

/-- To open a file leaves the texts that are there, but the one that is to be replaced. -/
theorem get?_of_open?
    {opened : String}
    {mode : OpenMode}
    {file : MemoryFile}
    {after : MemoryFiles}
    {text : String}
    (isOpened : files.open? opened mode = some (file, after))
    (keeps : opened = name → mode ≠ .write)
    (stored : files.get? name = some text) :
    after.get? name = some text := by
  by_cases same : name = opened
  · subst same
    cases mode with
    | write => exact absurd rfl (keeps rfl)
    | read | append =>
        simp only [open?, stored] at isOpened
        cases isOpened
        exact stored
  · have inserted : (files.insert opened "").get? name = some text :=
      (get?_insert_of_ne same "").trans stored
    unfold open? at isOpened
    split at isOpened <;> cases isOpened <;> assumption

end MemoryFiles

/-- A store in memory opens files in memory. -/
theorem FileAccess.open?_inMemory
    {files : MemoryFiles}
    {name : String}
    {mode : OpenMode}
    {file : OpenFile}
    {after : FileAccess}
    (isOpened : (FileAccess.inMemory files).open? name mode = some (file, after)) :
    ∃ opened left,
      files.open? name mode = some (opened, left) ∧
        file = .inMemory opened ∧ after = .inMemory left := by
  obtain ⟨pair, isPair, same⟩ := Option.map_eq_some_iff.mp isOpened
  obtain ⟨opened, left⟩ := pair
  cases same
  exact ⟨opened, left, isPair, rfl, rfl⟩

/-- What is written to another file leaves the text under a name. -/
theorem OpenFile.write_elsewhere
    {files : MemoryFiles}
    {file : OpenFile}
    {name text added : String}
    (others : ∀ memory, file = .inMemory memory → memory.name ≠ name)
    (stored : files.get? name = some text) :
    ∃ left,
      (file.write (.inMemory files) added).2.2 = .inMemory left ∧
        left.get? name = some text := by
  cases file with
  | diskReader => exact ⟨files, rfl, stored⟩
  | diskWriter => exact ⟨files, rfl, stored⟩
  | inMemory memory =>
      refine ⟨(memory.write files added).2, rfl, ?_⟩
      unfold MemoryFile.write
      split
      · exact stored
      · exact (MemoryFiles.get?_insert_of_ne (others memory rfl).symm _).trans stored

namespace FileLibrary

open Action (Results)

/-- The store in memory has a text under a name. -/
def Stored (world : World) (name text : String) : Prop :=
  ∃ files, world.host.files = .inMemory files ∧ files.get? name = some text

/--
A step of others: it does not work on the files of one's own, does not write under the name,
nor delete it.  A call that fails to open a file may be one's own.
-/
inductive Aside (name : String) (mine : ObjectId → Prop) (before : World) : World → Prop where
  | method
      {operation : Operation}
      {other : ObjectId}
      {call : NativeCall}
      {outcome : Except Fault Value}
      {after : World} :
      call.receiver = some other →
      ¬ mine other →
      before.heap.IsFile other →
      (∀ value, operation = .opens → outcome = .ok value → HasRoom before) →
      (operation = .opens → ∀ mode, Asks call before name mode → mode ≠ .write) →
      (operation = .writes → ∀ number file, Reaches before other number (.inMemory file) →
        file.name ≠ name) →
      Results before (operation.native.run call) outcome after →
      Aside name mine before after
  | failed
      {this : ObjectId}
      {call : NativeCall}
      {fault : Fault}
      {after : World} :
      call.receiver = some this →
      before.heap.IsFile this →
      Results before (openMethod.run call) (.error fault) after →
      Aside name mine before after
  | deleted
      {call : NativeCall}
      {outcome : Except Fault Value}
      {after : World} :
      (∀ deleted, Results before (call.string 0) (.ok deleted) before → deleted ≠ name) →
      Results before (deleteFile.run call) outcome after →
      Aside name mine before after
  | script
      {after : World} :
      LeavesFiles before after →
      Aside name mine before after
  | released
      {other : ObjectId} :
      ¬ mine other →
      before.heap.IsFile other →
      Aside name mine before (before.closeFile other)

namespace Aside

variable {name text : String} {mine : ObjectId → Prop} {before after : World} {this : ObjectId}
  {history : List FileEvent}

/-- A step of others is a step of a program. -/
theorem fileStep
    (aside : Aside name mine before after) :
    ∃ event, FileStep before event after := by
  cases aside with
  | method receiver _ isFile room _ _ ran => exact ⟨_, .method receiver isFile room ran⟩
  | @failed this call fault _ receiver isFile ran =>
      have step : FileStep before (Operation.opens.event this (.error fault) _) after :=
        .method receiver isFile (fun value _ isOk => by cases isOk) ran
      exact ⟨_, step⟩
  | deleted _ ran => exact ⟨_, .deleted ran⟩
  | script leaves => exact ⟨_, .script leaves⟩
  | released => exact ⟨_, .released _⟩

/-- Others leave one's own files what they have. -/
theorem keeps
    (aside : Aside name mine before after)
    (apart : before.heap.FilesApart)
    (isMine : mine this)
    (isFile : before.heap.IsFile this) :
    after.heap.IsFile this ∧ Keeps before after this := by
  have notMine {other : ObjectId} (others : ¬ mine other) : this ≠ other :=
    fun same => others (same ▸ isMine)
  cases aside with
  | method receiver others isOther _ _ _ ran =>
      have conduct := Conduct.of_results receiver isOther apart ran
      exact ⟨(conduct.sameShape isOther apart).isFile_iff.mpr isFile,
        conduct.keeps_other isOther apart isFile (notMine others)⟩
  | @failed other call fault _ receiver isOther ran =>
      have conduct : Conduct call before other .opens (.error fault) after :=
        .of_results receiver isOther apart ran
      exact ⟨(conduct.sameShape isOther apart).isFile_iff.mpr isFile,
        (conduct.unopened isOther apart isFile).1⟩
  | deleted _ ran =>
      obtain rfl | ⟨deleted, -, rfl⟩ := deleteFile_outcome ran
      all_goals exact ⟨isFile, isFile, rfl, rfl⟩
  | script leaves => exact leaves.keeps this isFile
  | @released other others =>
      rw [World.closeFile_eq]
      split
      · exact ⟨isFile, isFile, rfl, rfl⟩
      · have shape : before.heap.SameShape (before.setOwned other none).heap :=
          World.sameShape_setOwned
        exact ⟨shape.isFile_iff.mpr isFile, isFile, handle?_congr shape fun _ _ => rfl,
          congrArg _ (World.object_setOwned_of_ne (notMine others))⟩

/-- Others leave the open files that one's own reach. -/
theorem reaches
    {number : FileHandle}
    {file : OpenFile}
    (aside : Aside name mine before after)
    (accounts : Accounts history before)
    (isMine : mine this)
    (isFile : before.heap.IsFile this)
    (reaches : Reaches before this number file) :
    Reaches after this number file := by
  have notMine {other : ObjectId} (others : ¬ mine other) : other ≠ this :=
    fun same => others (same.symm ▸ isMine)
  have owned := accounts.reached this number file isFile reaches
  have own := accounts.owned this number isFile owned
  -- No other file owns what one's own file reaches.
  have unowned {other : ObjectId} (isOther : before.heap.IsFile other) (differ : other ≠ this) :
      (before.heap.object other).openFile ≠ some number := fun isOwned =>
    differ (accounts.once other this number (accounts.owned other number isOther isOwned) own)
  refine ⟨(aside.keeps accounts.apart isMine isFile).2.number.trans reaches.kept, ?_⟩
  cases aside with
  | method receiver others isOther _ _ _ ran =>
      have conduct := Conduct.of_results receiver isOther accounts.apart ran
      refine conduct.listed_other (fun found isReached => ?_) (unowned isOther (notMine others))
        reaches.listed
      exact unowned isOther (notMine others) (accounts.reached _ _ _ isOther isReached)
  | @failed other call fault _ receiver isOther ran =>
      have conduct : Conduct call before other .opens (.error fault) after :=
        .of_results receiver isOther accounts.apart ran
      rw [(conduct.unopened isOther accounts.apart isFile).2]
      exact reaches.listed
  | deleted _ ran =>
      obtain rfl | ⟨deleted, -, rfl⟩ := deleteFile_outcome ran
      all_goals exact reaches.listed
  | script leaves =>
      rw [leaves.openFiles]
      exact reaches.listed
  | @released other others isOther =>
      rw [World.closeFile_eq]
      split
      · exact reaches.listed
      · exact (OpenFiles.get?_without (unowned isOther (notMine others))).trans reaches.listed

/-- Others leave what is stored under the name. -/
theorem stored
    (aside : Aside name mine before after)
    (apart : before.heap.FilesApart)
    (stored : Stored before name text) :
    Stored after name text := by
  obtain ⟨files, isMemory, isText⟩ := stored
  cases aside with
  | method receiver _ isOther _ keeps writesOther ran =>
      have conduct := Conduct.of_results receiver isOther apart ran
      cases conduct with
      | stays => exact ⟨files, isMemory, isText⟩
      | named => exact ⟨files, isMemory, isText⟩
      | opened named _ isOpened =>
          rw [isMemory] at isOpened
          obtain ⟨opened, left, isOpen, -, rfl⟩ := FileAccess.open?_inMemory isOpened
          refine ⟨left, rfl, MemoryFiles.get?_of_open? isOpen (fun same => ?_) isText⟩
          exact keeps rfl _ (same ▸ named.asks)
      | @wrote _ number file written reaches =>
          have others (memory : MemoryFile) (isInMemory : file = .inMemory memory) :
              memory.name ≠ name :=
            writesOther rfl number memory (isInMemory ▸ reaches)
          obtain ⟨left, isLeft, isKept⟩ := OpenFile.write_elsewhere others isText
          refine ⟨left, ?_, isKept⟩
          exact (congrArg (fun access => (file.write access written).2.2) isMemory).trans isLeft
      | looked => exact ⟨files, isMemory, isText⟩
      | closed => exact ⟨files, isMemory, isText⟩
  | @failed other call fault _ receiver isOther ran =>
      have conduct : Conduct call before other .opens (.error fault) after :=
        .of_results receiver isOther apart ran
      refine ⟨files, ?_, isText⟩
      rw [(conduct.unopened isOther apart isOther).2]
      exact isMemory
  | deleted others ran =>
      obtain rfl | ⟨deleted, asked, rfl⟩ := deleteFile_outcome ran
      · exact ⟨files, isMemory, isText⟩
      · refine ⟨files.erase deleted, ?_, ?_⟩
        · simp only [isMemory]
          rfl
        · rw [MemoryFiles.get?_erase_of_ne (others deleted asked).symm]
          exact isText
  | script leaves => exact ⟨files, leaves.stored.trans isMemory, isText⟩
  | released =>
      rw [World.closeFile_eq]
      split <;> exact ⟨files, isMemory, isText⟩

end Aside

/-! ## Calls with others in between -/

/-- Calls of methods, one after the other, with steps of others anywhere, and their outcomes. -/
inductive Session (name : String) (mine : ObjectId → Prop) :
    World → List (Operation × NativeCall) → List (Except Fault Value) → World → Prop where
  | done
      {world : World} :
      Session name mine world [] [] world
  | aside
      {before between after : World}
      {calls : List (Operation × NativeCall)}
      {outcomes : List (Except Fault Value)} :
      Aside name mine before between →
      Session name mine between calls outcomes after →
      Session name mine before calls outcomes after
  | call
      {before between after : World}
      {operation : Operation}
      {call : NativeCall}
      {outcome : Except Fault Value}
      {calls : List (Operation × NativeCall)}
      {outcomes : List (Except Fault Value)} :
      (operation = .opens → HasRoom before) →
      Results before (operation.native.run call) outcome between →
      Session name mine between calls outcomes after →
      Session name mine before ((operation, call) :: calls) (outcome :: outcomes) after

/-- What others keep. -/
def Lasts (name : String) (mine : ObjectId → Prop) (holds : World → Prop) : Prop :=
  ∀ before after, Aside name mine before after → holds before → holds after

namespace Session

variable {name : String} {mine : ObjectId → Prop} {first last : World}
  {calls : List (Operation × NativeCall)} {outcomes : List (Except Fault Value)}

/-- Without calls there are no outcomes. -/
theorem outcomes_nil
    (session : Session name mine first [] outcomes last) :
    outcomes = [] := by
  generalize isEmpty : ([] : List (Operation × NativeCall)) = all at session
  induction session with
  | done => rfl
  | aside _ _ inductionHypothesis => exact inductionHypothesis isEmpty
  | call => cases isEmpty

/-- What others keep holds when the next call is made, and what the call leads to behind it. -/
theorem advance
    {holds leads : World → Prop}
    {operation : Operation}
    {call : NativeCall}
    {value : Value}
    (session : Session name mine first ((operation, call) :: calls) outcomes last)
    (lasts : Lasts name mine holds)
    (does :
      ∀ world, holds world → (operation = .opens → HasRoom world) →
        ∃ after, Results world (operation.native.run call) (.ok value) after ∧ leads after)
    (start : holds first) :
    ∃ between later,
      outcomes = .ok value :: later ∧ leads between ∧
        Session name mine between calls later last := by
  generalize isCalls : (operation, call) :: calls = all at session
  induction session with
  | done => cases isCalls
  | aside step _ inductionHypothesis => exact inductionHypothesis (lasts _ _ step start) isCalls
  | call room ran rest =>
      cases isCalls
      obtain ⟨after, alsoRan, leads⟩ := does _ start room
      cases ran.symm.trans alsoRan
      exact ⟨_, _, rfl, leads, rest⟩

end Session

end FileLibrary

end BotScript
