import BotScript.Machine.Release
import BotScript.Proofs.FileConduct

namespace BotScript

/-!
# Files reach what they have opened

While scripts leave the numbers of files alone, a file reaches no other open file than the one
that it has opened itself: however the methods of files, the other steps of scripts and the
release of instances follow each other, its number is the one that its latest successful
`open` gave it, and no other file was given that number.
-/

namespace FileLibrary

open Action (Results)

/-! ## Histories -/

/-- What happens to files. -/
inductive FileEvent where
  | opened (this : ObjectId) (number : FileHandle)
  | closed (this : ObjectId)
  | nothing
  deriving Repr, DecidableEq

/-- What a method of a file has come to, when `last` is the last number given out. -/
def Operation.event
    (operation : Operation) (this : ObjectId) (outcome : Except Fault Value)
    (last : FileHandle) :
    FileEvent :=
  match operation, outcome with
  | .opens, .ok _ => .opened this last
  | .closes, .ok _ => .closed this
  | _, _ => .nothing

/--
The number that the latest successful `open` of a file gave it, unless the file has been closed
since then; the latest event comes first.
-/
def ownNumber (this : ObjectId) : List FileEvent → Option FileHandle
  | [] => none
  | .opened that number :: earlier =>
      if that = this then some number else ownNumber this earlier
  | .closed that :: earlier => if that = this then none else ownNumber this earlier
  | .nothing :: earlier => ownNumber this earlier

/-- A file that has not been opened. -/
structure Blank (world : World) (this : ObjectId) : Prop where
  closed : ¬ HasNumber world.heap this
  unowned : (world.heap.object this).openFile = none

/-- A step outside of the library: it leaves files as they are, and may create closed ones. -/
structure LeavesFiles (before after : World) : Prop where
  openFiles : after.host.openFiles = before.host.openFiles
  stored : after.host.files = before.host.files
  apart : after.heap.FilesApart
  keeps : ∀ this, before.heap.IsFile this → after.heap.IsFile this ∧ Keeps before after this
  fresh : ∀ this, after.heap.IsFile this → before.heap.IsFile this ∨ Blank after this

/--
A step of a program as far as files are concerned.  Files are opened only while there is
another number for them.
-/
inductive FileStep (before : World) : FileEvent → World → Prop where
  | method
      {operation : Operation}
      {this : ObjectId}
      {call : NativeCall}
      {outcome : Except Fault Value}
      {after : World} :
      call.receiver = some this →
      before.heap.IsFile this →
      (∀ value, operation = .opens → outcome = .ok value → HasRoom before) →
      Results before (operation.native.run call) outcome after →
      FileStep before (operation.event this outcome after.host.openFiles.last) after
  | deleted
      {call : NativeCall}
      {outcome : Except Fault Value}
      {after : World} :
      Results before (deleteFile.run call) outcome after →
      FileStep before .nothing after
  | script
      {after : World} :
      LeavesFiles before after →
      FileStep before .nothing after
  | released
      (this : ObjectId) :
      FileStep before (.closed this) (before.closeFile this)

/-- The steps of a program, with what happened in them, the latest first. -/
inductive FileRun (first : World) : List FileEvent → World → Prop where
  | start : FileRun first [] first
  | step
      {history : List FileEvent}
      {event : FileEvent}
      {before after : World} :
      FileRun first history before →
      FileStep before event after →
      FileRun first (event :: history) after

/-- No file of a program is open; other programs may have open files. -/
structure Idle (world : World) : Prop where
  apart : world.heap.FilesApart
  closed : ∀ this, world.heap.IsFile this → Blank world this
  counted : 0 ≤ world.host.openFiles.last.toInt
  given :
    ∀ number file, world.host.openFiles.get? number = some file →
      number.toInt ≤ world.host.openFiles.last.toInt

/-- Nothing is open where there is only a closed file. -/
theorem closedFile_idle (stored : List (String × String)) : Idle (closedFile stored) := by
  have only (this : ObjectId) (isFile : (closedFile stored).heap.IsFile this) : this = ⟨0⟩ := by
    have known : this.index < 1 := isFile.known
    obtain ⟨index⟩ := this
    exact congrArg ObjectId.mk (Nat.lt_one_iff.mp known)
  refine ⟨⟨?_, ?_, ?_⟩, ?_, Int.le_refl 0, fun number file listed => by cases listed⟩
  · intro this cell isFile isName
    cases only this isFile
    cases isName
    rfl
  · intro this cell isFile isHandle
    cases only this isFile
    cases isHandle
    rfl
  · intro this other isFile isOther differ
    exact absurd ((only this isFile).trans (only other isOther).symm) differ
  · intro this isFile
    cases only this isFile
    refine ⟨fun hasNumber => ?_, rfl⟩
    obtain ⟨cell, isHandle, isDefined⟩ := hasNumber
    cases isHandle
    cases isDefined

/-! ## What holds at every step -/

/-- What the numbers of files tell about the history. -/
structure Accounts (history : List FileEvent) (world : World) : Prop where
  apart : world.heap.FilesApart
  counted : 0 ≤ world.host.openFiles.last.toInt
  /-- What a file owns, its latest `open` has opened. -/
  owned :
    ∀ this number, world.heap.IsFile this →
      (world.heap.object this).openFile = some number → ownNumber this history = some number
  /-- What a file reaches, it owns. -/
  reached :
    ∀ this number file, world.heap.IsFile this → Reaches world this number file →
      (world.heap.object this).openFile = some number
  /-- No number is given to two files. -/
  once :
    ∀ this other number, ownNumber this history = some number →
      ownNumber other history = some number → this = other
  /-- The numbers that were given, are kept or are listed have been counted. -/
  given :
    ∀ this number, ownNumber this history = some number →
      number.toInt ≤ world.host.openFiles.last.toInt
  kept :
    ∀ this number, world.heap.IsFile this → number? world.heap this = some number →
      number.toInt ≤ world.host.openFiles.last.toInt
  listed :
    ∀ number file, world.host.openFiles.get? number = some file →
      number.toInt ≤ world.host.openFiles.last.toInt

/-- At first nothing has happened. -/
theorem Idle.accounts
    {world : World}
    (idle : Idle world) :
    Accounts [] world where
  apart := idle.apart
  counted := idle.counted
  owned this number isFile owned := by
    rw [(idle.closed this isFile).unowned] at owned
    cases owned
  reached this number file isFile reaches := by
    cases (number?_of_not_hasNumber (idle.closed this isFile).closed).symm.trans reaches.kept
  once this other number given := by cases given
  given this number given := by cases given
  kept this number isFile kept := by
    cases (number?_of_not_hasNumber (idle.closed this isFile).closed).symm.trans kept
  listed := idle.given

namespace Accounts

variable {history : List FileEvent} {before after : World} {this : ObjectId}

/-- A step in which no file is opened or closed. -/
theorem nothing
    (accounts : Accounts history before)
    (apart : after.heap.FilesApart)
    (files : ∀ this, after.heap.IsFile this → Keeps before after this ∨ Blank after this)
    (last : after.host.openFiles.last = before.host.openFiles.last)
    (listed :
      ∀ number file, after.host.openFiles.get? number = some file →
        ∃ former, before.host.openFiles.get? number = some former) :
    Accounts (.nothing :: history) after where
  apart := apart
  counted := last ▸ accounts.counted
  owned this number isFile owned := by
    obtain keeps | blank := files this isFile
    · exact accounts.owned this number keeps.isFile (keeps.owned.symm.trans owned)
    · cases blank.unowned.symm.trans owned
  reached this number file isFile reaches := by
    obtain keeps | blank := files this isFile
    · obtain ⟨former, isListed⟩ := listed number file reaches.listed
      rw [keeps.owned]
      exact accounts.reached this number former keeps.isFile
        ⟨keeps.number.symm.trans reaches.kept, isListed⟩
    · cases (number?_of_not_hasNumber blank.closed).symm.trans reaches.kept
  once := accounts.once
  given this number given := last ▸ accounts.given this number given
  kept this number isFile kept := by
    obtain keeps | blank := files this isFile
    · exact last ▸ accounts.kept this number keeps.isFile (keeps.number.symm.trans kept)
    · cases (number?_of_not_hasNumber blank.closed).symm.trans kept
  listed number file isListed := by
    obtain ⟨former, wasListed⟩ := listed number file isListed
    exact last ▸ accounts.listed number former wasListed

/-- A step in which a file is opened under the next number. -/
theorem opened
    (accounts : Accounts history before)
    (apart : after.heap.FilesApart)
    (next : after.host.openFiles.last.toInt = before.host.openFiles.last.toInt + 1)
    (others : ∀ other, other ≠ this → after.heap.IsFile other → Keeps before after other)
    (isNumber : number? after.heap this = some after.host.openFiles.last)
    (isOwned : (after.heap.object this).openFile = some after.host.openFiles.last)
    (listed :
      ∀ number file, after.host.openFiles.get? number = some file →
        number = after.host.openFiles.last ∨
          ∃ former, before.host.openFiles.get? number = some former) :
    Accounts (.opened this after.host.openFiles.last :: history) after := by
  have fresh (number : FileHandle)
      (counted : number.toInt ≤ before.host.openFiles.last.toInt) :
      number ≠ after.host.openFiles.last := by
    rintro rfl
    omega
  have own : ownNumber this (.opened this after.host.openFiles.last :: history) =
      some after.host.openFiles.last :=
    if_pos rfl
  have elsewhere (other : ObjectId) (differ : other ≠ this) :
      ownNumber other (.opened this after.host.openFiles.last :: history) =
        ownNumber other history :=
    if_neg (Ne.symm differ)
  have given (other : ObjectId) (number : FileHandle) (differ : other ≠ this)
      (isGiven : ownNumber other (.opened this after.host.openFiles.last :: history) =
        some number) :
      number.toInt ≤ before.host.openFiles.last.toInt :=
    accounts.given other number ((elsewhere other differ).symm.trans isGiven)
  constructor
  case apart => exact apart
  case counted =>
    have := accounts.counted
    omega
  case owned =>
    intro other number isFile owned
    by_cases same : other = this
    · subst same
      exact own.trans (isOwned.symm.trans owned)
    · have keeps := others other same isFile
      exact (elsewhere other same).trans
        (accounts.owned other number keeps.isFile (keeps.owned.symm.trans owned))
  case reached =>
    intro other number file isFile reaches
    by_cases same : other = this
    · subst same
      exact isOwned.trans (isNumber.symm.trans reaches.kept)
    · have keeps := others other same isFile
      have kept := keeps.number.symm.trans reaches.kept
      obtain rfl | ⟨former, wasListed⟩ := listed number file reaches.listed
      · exact absurd rfl (fresh _ (accounts.kept other _ keeps.isFile kept))
      · rw [keeps.owned]
        exact accounts.reached other number former keeps.isFile ⟨kept, wasListed⟩
  case once =>
    intro one other number isOne isOther
    by_cases oneSame : one = this <;> by_cases otherSame : other = this
    · exact oneSame.trans otherSame.symm
    · subst oneSame
      cases own.symm.trans isOne
      exact absurd rfl (fresh _ (given other _ otherSame isOther))
    · subst otherSame
      cases own.symm.trans isOther
      exact absurd rfl (fresh _ (given one _ oneSame isOne))
    · exact accounts.once one other number ((elsewhere one oneSame).symm.trans isOne)
        ((elsewhere other otherSame).symm.trans isOther)
  case given =>
    intro other number isGiven
    by_cases same : other = this
    · subst same
      cases own.symm.trans isGiven
      exact Int.le_refl _
    · have := given other number same isGiven
      omega
  case kept =>
    intro other number isFile kept
    by_cases same : other = this
    · subst same
      cases isNumber.symm.trans kept
      exact Int.le_refl _
    · have keeps := others other same isFile
      have := accounts.kept other number keeps.isFile (keeps.number.symm.trans kept)
      omega
  case listed =>
    intro number file isListed
    obtain rfl | ⟨former, wasListed⟩ := listed number file isListed
    · exact Int.le_refl _
    · have := accounts.listed number former wasListed
      omega

/-- A step in which a file is closed. -/
theorem closed
    (accounts : Accounts history before)
    (apart : after.heap.FilesApart)
    (last : after.host.openFiles.last = before.host.openFiles.last)
    (others : ∀ other, other ≠ this → after.heap.IsFile other → Keeps before after other)
    (wasFile : after.heap.IsFile this → before.heap.IsFile this)
    (wasNumber :
      ∀ number, number? after.heap this = some number → number? before.heap this = some number)
    (unowned : (after.heap.object this).openFile = none)
    (unreached : after.heap.IsFile this → ∀ number file, ¬ Reaches after this number file)
    (listed :
      ∀ number file, after.host.openFiles.get? number = some file →
        before.host.openFiles.get? number = some file) :
    Accounts (.closed this :: history) after := by
  have own : ownNumber this (.closed this :: history) = none := if_pos rfl
  have elsewhere (other : ObjectId) (differ : other ≠ this) :
      ownNumber other (.closed this :: history) = ownNumber other history :=
    if_neg (Ne.symm differ)
  have given (other : ObjectId) (number : FileHandle)
      (isGiven : ownNumber other (.closed this :: history) = some number) :
      ownNumber other history = some number := by
    by_cases same : other = this
    · subst same
      cases own.symm.trans isGiven
    · exact (elsewhere other same).symm.trans isGiven
  constructor
  case apart => exact apart
  case counted => exact last ▸ accounts.counted
  case owned =>
    intro other number isFile owned
    by_cases same : other = this
    · subst same
      cases unowned.symm.trans owned
    · have keeps := others other same isFile
      exact (elsewhere other same).trans
        (accounts.owned other number keeps.isFile (keeps.owned.symm.trans owned))
  case reached =>
    intro other number file isFile reaches
    by_cases same : other = this
    · subst same
      exact absurd reaches (unreached isFile number file)
    · have keeps := others other same isFile
      rw [keeps.owned]
      exact accounts.reached other number file keeps.isFile
        ⟨keeps.number.symm.trans reaches.kept, listed number file reaches.listed⟩
  case once =>
    intro one other number isOne isOther
    exact accounts.once one other number (given one number isOne) (given other number isOther)
  case given =>
    intro other number isGiven
    exact last ▸ accounts.given other number (given other number isGiven)
  case kept =>
    intro other number isFile kept
    rw [last]
    by_cases same : other = this
    · subst same
      exact accounts.kept other number (wasFile isFile) (wasNumber number kept)
    · have keeps := others other same isFile
      exact accounts.kept other number keeps.isFile (keeps.number.symm.trans kept)
  case listed =>
    intro number file isListed
    exact last ▸ accounts.listed number file (listed number file isListed)

end Accounts

/-- Only what opens or closes a file is told. -/
theorem Operation.event_nothing
    {operation : Operation}
    {this : ObjectId}
    {outcome : Except Fault Value}
    {last : FileHandle}
    (quiet : operation = .opens ∨ operation = .closes → ∃ fault, outcome = .error fault) :
    operation.event this outcome last = .nothing := by
  cases operation with
  | opens =>
      obtain ⟨fault, rfl⟩ := quiet (.inl rfl)
      rfl
  | closes =>
      obtain ⟨fault, rfl⟩ := quiet (.inr rfl)
      rfl
  | construct | writes | reads | ends => rfl

section Steps

variable {history : List FileEvent} {before after : World} {this : ObjectId}
  {event : FileEvent}

/-- A method of a file keeps the accounts. -/
theorem Conduct.accounts
    {call : NativeCall}
    {operation : Operation}
    {outcome : Except Fault Value}
    (conduct : Conduct call before this operation outcome after)
    (accounts : Accounts history before)
    (isFile : before.heap.IsFile this)
    (room : ∀ value, operation = .opens → outcome = .ok value → HasRoom before) :
    Accounts (operation.event this outcome after.host.openFiles.last :: history) after := by
  have shape := conduct.sameShape isFile accounts.apart
  have apart := shape.filesApart accounts.apart
  have others (other : ObjectId) (differ : other ≠ this) (isOther : after.heap.IsFile other) :
      Keeps before after other :=
    conduct.keeps_other isFile accounts.apart (shape.isFile_iff.mp isOther) differ
  cases conduct with
  | stays quiet =>
      rw [Operation.event_nothing quiet]
      exact accounts.nothing apart (fun _ isFile => .inl ⟨isFile, rfl, rfl⟩) rfl
        fun _ file listed => ⟨file, listed⟩
  | @named _ _ cell name heap quiet notClosed isName stored =>
      rw [Operation.event_nothing fun which => which.elim quiet (absurd · notClosed)]
      refine accounts.nothing apart (fun other isOther => .inl ?_) rfl
        fun _ file listed => ⟨file, listed⟩
      exact .of_name accounts.apart isFile (shape.isFile_iff.mp isOther) isName stored
  | @opened name mode heap last cell file access named isHandle isOpened kept =>
      have small : HasRoom before := room _ rfl rfl
      have counted := toInt_nextNumber accounts.counted small
      have fits := nextNumber_fits accounts.counted small
      have next : (register ⟨heap, before.host⟩ this file access).host.openFiles.last =
          nextNumber before :=
        last_register
      obtain ⟨isNumber, isOwned⟩ := named.numbered isFile accounts.apart fits isHandle kept
      refine accounts.opened apart ?_ others ?_ ?_ fun number found listed => ?_
      · exact (congrArg Int64.toInt next).trans counted
      · exact isNumber.trans (congrArg some next.symm)
      · exact isOwned.trans (congrArg some next.symm)
      · have inserted := OpenFiles.get?_of_without listed
        rw [OpenFiles.get?_insert] at inserted
        cases wasListed : before.host.openFiles.get? number with
        | some former => exact .inr ⟨former, rfl⟩
        | none =>
            rw [wasListed, Option.none_or] at inserted
            by_cases isNext : number = nextNumber before
            · exact .inl (isNext.trans next.symm)
            · cases (if_neg isNext).symm.trans inserted
  | wrote reaches =>
      exact accounts.nothing apart (fun _ isFile => .inl ⟨isFile, rfl, rfl⟩) rfl
        fun _ _ listed => OpenFiles.get?_of_set listed
  | looked which reaches =>
      rw [Operation.event_nothing fun either => by
        obtain rfl | rfl := which <;> cases either <;> contradiction]
      exact accounts.nothing apart (fun _ isFile => .inl ⟨isFile, rfl, rfl⟩) rfl
        fun _ _ listed => OpenFiles.get?_of_set listed
  | @closed number file cell isHandle reaches =>
      have unnumbered : number? (closedWorld before this number cell).heap this = none := by
        rw [number?, Conduct.handle?_closedWorld isFile accounts.apart isHandle]
        rfl
      have unowned :
          ((closedWorld before this number cell).heap.object this).openFile = none := by
        refine (congrArg Instance.openFile World.object_setOwned).trans ?_
        dsimp only
        rw [ite_self]
      refine accounts.closed apart (OpenFiles.last_without _) others shape.isFile_iff.mp
        (fun found isKept => by cases unnumbered.symm.trans isKept) unowned
        (fun _ found open' reaches => by cases unnumbered.symm.trans reaches.kept)
        fun found open' listed => ?_
      have erased := OpenFiles.get?_of_without listed
      exact @OpenFiles.get?_of_without _ _ (some number) _ erased

/-- The file of an instance that is not in use any more is closed. -/
theorem Accounts.released
    (accounts : Accounts history before)
    (this : ObjectId) :
    Accounts (.closed this :: history) (before.closeFile this) := by
  rw [World.closeFile_eq]
  by_cases unowned : (before.heap.object this).openFile = none
  · rw [if_pos unowned]
    refine accounts.closed accounts.apart rfl (fun _ _ isFile => ⟨isFile, rfl, rfl⟩) id
      (fun _ => id) unowned (fun isFile number file reaches => ?_) fun _ _ => id
    cases unowned.symm.trans (accounts.reached this number file isFile reaches)
  · rw [if_neg unowned]
    have shape : before.heap.SameShape (before.setOwned this none).heap :=
      World.sameShape_setOwned
    have kept (other : ObjectId) :
        handle? (before.setOwned this none).heap other = handle? before.heap other :=
      handle?_congr shape fun _ _ => rfl
    have sameNumber :
        number? (before.setOwned this none).heap this = number? before.heap this := by
      rw [number?, number?, kept]
    refine accounts.closed (shape.filesApart accounts.apart) (OpenFiles.last_without _)
      (fun other differ isFile => ⟨shape.isFile_iff.mp isFile, kept other,
        congrArg _ (World.object_setOwned_of_ne differ)⟩)
      shape.isFile_iff.mp (fun _ isKept => sameNumber.symm.trans isKept) ?_
      (fun isFile number file reaches => ?_) fun _ _ => OpenFiles.get?_of_without
    · refine (congrArg Instance.openFile World.object_setOwned).trans ?_
      dsimp only
      rw [ite_self]
    · -- What the instance reached it owned, and that was closed.
      have owned := accounts.reached this number file (shape.isFile_iff.mp isFile)
        ⟨sameNumber.symm.trans reaches.kept, OpenFiles.get?_of_without reaches.listed⟩
      have listed : (before.host.openFiles.without (before.heap.object this).openFile).get? number
          = some file :=
        reaches.listed
      rw [owned] at listed
      cases OpenFiles.get?_erase_self.symm.trans listed

/-- What comes of deleting a file: the store changes at most. -/
theorem deleteFile_outcome
    {call : NativeCall}
    {outcome : Except Fault Value}
    (ran : Results before (deleteFile.run call) outcome after) :
    after = before ∨
      ∃ name,
        Results before (call.string 0) (.ok name) before ∧
          after = ⟨before.heap,
            { before.host with files := (before.host.files.delete name).2 }⟩ := by
  obtain ⟨fault, failed⟩ | ⟨name, isText⟩ := Action.Looks.results (call.string 0) before
  · have stopped : Results before (deleteFile.run call) _ _ := failed.stop
    cases ran.symm.trans stopped
    exact .inl rfl
  · have done : Results before (deleteFile.run call) _ _ :=
      isText.bind (Results.get.bind ((Results.modifyHost _).bind (.pure _)))
    cases ran.symm.trans done
    exact .inr ⟨name, isText, rfl⟩

/-- Every step keeps the accounts. -/
theorem FileStep.accounts
    (step : FileStep before event after)
    (accounts : Accounts history before) :
    Accounts (event :: history) after := by
  cases step with
  | method receiver isFile room ran =>
      exact (Conduct.of_results receiver isFile accounts.apart ran).accounts accounts isFile room
  | deleted ran =>
      obtain rfl | ⟨name, -, rfl⟩ := deleteFile_outcome ran
      all_goals
        exact accounts.nothing accounts.apart (fun _ isFile => .inl ⟨isFile, rfl, rfl⟩) rfl
          fun _ file listed => ⟨file, listed⟩
  | script leaves =>
      refine accounts.nothing leaves.apart (fun this isFile => ?_)
        (congrArg OpenFiles.last leaves.openFiles)
        fun _ file listed => ⟨file, leaves.openFiles ▸ listed⟩
      exact (leaves.fresh this isFile).imp_left fun wasFile => (leaves.keeps this wasFile).2
  | released this => exact accounts.released this

/-- Every run of a program keeps the accounts. -/
theorem FileRun.accounts
    {first world : World}
    (run : FileRun first history world)
    (idle : Idle first) :
    Accounts history world := by
  induction run with
  | start => exact idle.accounts
  | step _ step inductionHypothesis => exact step.accounts inductionHypothesis

/--
A method that needs an open file fails and changes nothing, or it works on the open file that
the latest successful `open` of its receiver has opened and that has not been closed since:
no other file has ever been given the number, and whatever else is open stays as it is.
-/
theorem FileRun.method_reaches_own
    {first world : World}
    {call : NativeCall}
    {operation : Operation}
    {outcome : Except Fault Value}
    (run : FileRun first history world)
    (idle : Idle first)
    (needs : operation.NeedsOpen)
    (receiver : call.receiver = some this)
    (isFile : world.heap.IsFile this)
    (ran : Results world (operation.native.run call) outcome after) :
    (∃ fault,
      outcome = .error fault ∧ after = world ∧
        (fault = .error .fileNotOpen ∨
          operation = .writes ∧ Results world (call.string 0) (.error fault) world)) ∨
    ∃ number file,
      Reaches world this number file ∧
        ownNumber this history = some number ∧
        (∀ other, ownNumber other history = some number → other = this) ∧
        ∀ other listed, other ≠ number → world.host.openFiles.get? other = some listed →
          after.host.openFiles.get? other = some listed := by
  have accounts := run.accounts idle
  by_cases closed : ∀ number file, ¬ Reaches world this number file
  · obtain ⟨fault, failed, reason⟩ := operation.run_closed needs receiver isFile closed
    cases ran.symm.trans failed
    exact .inl ⟨fault, rfl, rfl, reason⟩
  · push Not at closed
    obtain ⟨number, file, reaches⟩ := closed
    have owned := accounts.reached this number file isFile reaches
    have own := accounts.owned this number isFile owned
    refine .inr ⟨number, file, reaches, own,
      fun other isOther => accounts.once other this number isOther own,
      fun other listed differ isListed => ?_⟩
    have conduct := Conduct.of_results receiver isFile accounts.apart ran
    refine conduct.listed_other (fun found isReached => differ ?_) (fun isOwned => differ ?_)
      isListed
    · exact Option.some.inj (isReached.kept.symm.trans reaches.kept)
    · exact Option.some.inj (isOwned.symm.trans owned)

end Steps

end FileLibrary

end BotScript
