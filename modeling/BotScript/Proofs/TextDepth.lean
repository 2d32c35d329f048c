import BotScript.Machine.Release
import Mathlib.Data.Fintype.Card
import Mathlib.Data.Set.Finite.Basic
import Mathlib.Logic.Relation
import Mathlib.Order.Monotone.Basic

namespace BotScript

/-!
# The bound on the nesting of texts

Text forms are computed with a bound on their nesting.  The bound `textDepth`
is large enough: from there on, a larger bound never changes the result.  With
every step of the bound the structures whose text does not fit become fewer, or
they are those that contain themselves and no bound helps.  So a value has a text
exactly if it leads to no structure that contains itself, and if its text is not
made from the cell that is in use.
-/

namespace Heap

open Relation (ReflTransGen TransGen)

variable {heap : Heap} {inUse : Option CellId}

/-- The text of an item of an array or of a field of an instance. -/
def itemText
    (heap : Heap) (inUse : Option CellId) (depth : Nat) (item : CellId) :
    Checked String :=
  if inUse == some item then .error .cellInUse
  else if (heap.cell item).state == .undefined then .ok "undefined"
  else heap.textWithin inUse depth (heap.cell item).value (heap.cell item).ty

/-- The text of an array is made of the texts of its items. -/
theorem textWithin_array
    (depth : Nat)
    (id : ArrayId)
    (ty : Ty) :
    heap.textWithin inUse (depth + 1) (.array id) ty =
      (do
        let texts ← (heap.array id).items.toList.mapM (heap.itemText inUse depth)
        pure ("\x7b " ++ ", ".intercalate texts ++ " \x7d")) := by
  rw [textWithin]
  rfl

/-- The text of an instance is made of the texts of its fields. -/
theorem textWithin_object
    (depth : Nat)
    (id : ObjectId)
    (ty : Ty) :
    heap.textWithin inUse (depth + 1) (.object id) ty =
      (do
        let texts ← (heap.object id).fields.toList.mapM (heap.itemText inUse depth)
        pure ("Pointer to " ++
          " extends ".intercalate (levelTexts (heap.object id).layout.levels texts))) := by
  rw [textWithin]
  rfl

/-- Whether the text of a value is nested deeper than a bound. -/
def isEndless (heap : Heap) (inUse : Option CellId) (depth : Nat) (value : Value) : Bool :=
  match heap.textWithin inUse depth value .null with
  | .error .endlessText => true
  | _ => false

/-- What refers to nothing has the same text over every heap. -/
theorem textWithin_scalar
    {value : Value}
    (scalar : value.refs = [])
    (heap : Heap)
    (inUse : Option CellId)
    (depth : Nat)
    (ty : Ty) :
    heap.textWithin inUse depth value ty = .ok (value.scalarText ty) := by
  cases value with
  | array | object => cases scalar
  | _ => cases depth <;> rfl

/-- A traversal has results for all items, or it fails with the fault of one of them. -/
theorem mapM_cases
    {α β ε : Type}
    (step : α → Except ε β)
    (items : List α) :
    (∃ results, items.mapM step = .ok results ∧
        ∀ item ∈ items, ∃ result, step item = .ok result) ∨
      ∃ item ∈ items, ∃ fault,
        step item = .error fault ∧ items.mapM step = .error fault := by
  induction items with
  | nil => exact .inl ⟨[], rfl, by simp⟩
  | cons item rest inductionHypothesis =>
      rw [List.mapM_cons]
      cases here : step item with
      | error fault => exact .inr ⟨item, List.mem_cons_self, fault, here, rfl⟩
      | ok result =>
          obtain ⟨results, areResults, all⟩ | ⟨other, isOther, fault, failed, fails⟩ :=
            inductionHypothesis
          · refine .inl ⟨result :: results, by rw [areResults]; rfl, ?_⟩
            exact List.forall_mem_cons.mpr ⟨⟨result, here⟩, all⟩
          · exact .inr ⟨other, List.mem_cons_of_mem item isOther, fault, failed, by rw [fails]; rfl⟩

/-- A failure with one fault, and no other result, is passed on by a traversal. -/
theorem mapM_congr_of_ne
    {α β ε : Type}
    {first second : α → Except ε β}
    {fault : ε}
    {items : List α}
    (agree : ∀ item, first item ≠ .error fault → second item = first item)
    (fine : items.mapM first ≠ .error fault) :
    items.mapM second = items.mapM first := by
  induction items with
  | nil =>
      rfl
  | cons item rest inductionHypothesis =>
      rw [List.mapM_cons, List.mapM_cons]
      rw [List.mapM_cons] at fine
      cases result : first item with
      | error other =>
          have other_ne : first item ≠ .error fault := by
            intro same
            rw [same] at fine
            exact fine rfl
          rw [agree item other_ne, result]
          rfl
      | ok text =>
          have text_ne : first item ≠ .error fault := by
            rw [result]
            exact fun same => nomatch same
          rw [agree item text_ne, result]
          rw [result] at fine
          have restFine : rest.mapM first ≠ .error fault := by
            intro same
            rw [same] at fine
            exact fine rfl
          rw [inductionHypothesis restFine]

/-- A value is endless when its text, read as any type, fails with that fault. -/
theorem isEndless_iff
    (depth : Nat)
    (value : Value)
    (ty : Ty) :
    heap.isEndless inUse depth value = true ↔
      heap.textWithin inUse depth value ty = .error .endlessText := by
  have untyped :
      value.refs ≠ [] →
        heap.textWithin inUse depth value .null = heap.textWithin inUse depth value ty := by
    intro refers
    cases value <;> cases depth <;> first | rfl | exact absurd rfl refers
  unfold isEndless
  cases value with
  | array id =>
      rw [untyped (by simp [Value.refs])]
      split <;> simp_all
  | object id =>
      rw [untyped (by simp [Value.refs])]
      split <;> simp_all
  | _ => simp [textWithin, pure, Except.pure]

/-- A text that fits a bound fits the next bound as well, and stays the same. -/
theorem textWithin_succ
    {depth : Nat}
    {value : Value}
    {ty : Ty}
    (fits : heap.textWithin inUse depth value ty ≠ .error .endlessText) :
    heap.textWithin inUse (depth + 1) value ty = heap.textWithin inUse depth value ty := by
  induction depth generalizing value ty with
  | zero =>
      cases value <;> first | rfl | exact absurd rfl fits
  | succ depth inductionHypothesis =>
      have items :
          ∀ item,
            heap.itemText inUse depth item ≠ .error .endlessText →
            heap.itemText inUse (depth + 1) item = heap.itemText inUse depth item := by
        intro item itemFits
        unfold itemText at itemFits ⊢
        split
        · rfl
        · next unused =>
            simp only [unused] at itemFits
            split
            · rfl
            · next known =>
                refine inductionHypothesis fun endless => itemFits ?_
                simpa [known] using endless
      cases value with
      | array id =>
          rw [textWithin_array] at fits ⊢
          rw [textWithin_array, mapM_congr_of_ne items]
          intro endless
          rw [endless] at fits
          exact fits rfl
      | object id =>
          rw [textWithin_object] at fits ⊢
          rw [textWithin_object, mapM_congr_of_ne items]
          intro endless
          rw [endless] at fits
          exact fits rfl
      | _ => rfl

/-- If a step of the bound makes no text fit, no later step does. -/
theorem textWithin_settled
    {depth : Nat}
    (settled : ∀ value ty,
      heap.textWithin inUse (depth + 1) value ty = heap.textWithin inUse depth value ty)
    (value : Value)
    (ty : Ty) :
    heap.textWithin inUse (depth + 2) value ty =
      heap.textWithin inUse (depth + 1) value ty := by
  have items : heap.itemText inUse (depth + 1) = heap.itemText inUse depth := by
    funext item
    unfold itemText
    rw [settled]
  cases value with
  | array id =>
      rw [textWithin_array, textWithin_array, items]
  | object id =>
      rw [textWithin_object, textWithin_object, items]
  | _ => rfl

/-- The references to the arrays and instances of a heap. -/
def structures (heap : Heap) : Finset Value :=
  (Finset.range heap.arrays.size).image (fun index => .array ⟨index⟩) ∪
    (Finset.range heap.objects.size).image fun index => .object ⟨index⟩

/-- A heap has no more structures than arrays and instances. -/
theorem card_structures_le :
    heap.structures.card ≤ heap.arrays.size + heap.objects.size := by
  calc heap.structures.card
      ≤ _ := Finset.card_union_le ..
    _ ≤ (Finset.range heap.arrays.size).card + (Finset.range heap.objects.size).card :=
        Nat.add_le_add Finset.card_image_le Finset.card_image_le
    _ = heap.arrays.size + heap.objects.size := by simp

/-- Only the structures of a heap can have a text that does not fit. -/
theorem isEndless_of_not_mem
    {depth : Nat}
    {value : Value}
    (missing : value ∉ heap.structures) :
    heap.isEndless inUse (depth + 1) value = false := by
  cases value with
  | array id =>
      have outside : heap.arrays.size ≤ id.index := by
        by_contra inside
        refine missing (Finset.mem_union_left _ (Finset.mem_image.mpr ⟨id.index, ?_, rfl⟩))
        simpa using inside
      have missingArray : heap.array id = default := by
        simp [array, outside]
      simp [isEndless, textWithin_array, missingArray, default]
      rfl
  | object id =>
      have outside : heap.objects.size ≤ id.index := by
        by_contra inside
        refine missing (Finset.mem_union_right _ (Finset.mem_image.mpr ⟨id.index, ?_, rfl⟩))
        simpa using inside
      have missingObject : heap.object id = default := by
        simp [object, outside]
      simp [isEndless, textWithin_object, missingObject, default]
      rfl
  | _ => rfl

/-- The structures of a heap whose text fits a bound. -/
def fitting (heap : Heap) (inUse : Option CellId) (depth : Nat) : Finset Value :=
  heap.structures.filter fun value => heap.isEndless inUse depth value = false

/-- What fits a bound fits the next one. -/
theorem fitting_subset
    (depth : Nat) :
    heap.fitting inUse depth ⊆ heap.fitting inUse (depth + 1) := by
  intro value member
  simp only [fitting, Finset.mem_filter] at member ⊢
  refine ⟨member.1, ?_⟩
  have fits : heap.textWithin inUse depth value .null ≠ .error .endlessText := by
    rw [Ne, ← isEndless_iff]
    simp [member.2]
  rw [← Bool.not_eq_true, isEndless_iff _ _ .null, textWithin_succ fits]
  exact fits

/-- If as many structures fit a positive bound as the next one, all texts are settled. -/
theorem settled_of_card
    {depth : Nat}
    (same :
      (heap.fitting inUse (depth + 1)).card = (heap.fitting inUse (depth + 2)).card)
    (value : Value)
    (ty : Ty) :
    heap.textWithin inUse (depth + 2) value ty =
      heap.textWithin inUse (depth + 1) value ty := by
  have fitting :=
    Finset.eq_of_subset_of_card_le (fitting_subset (depth + 1))
      same.ge
  by_cases endless : heap.isEndless inUse (depth + 1) value = true
  · have later : heap.isEndless inUse (depth + 2) value = true := by
      by_contra fits
      have inside : value ∈ heap.structures := by
        by_contra missing
        simp [isEndless_of_not_mem missing] at endless
      have member : value ∈ heap.fitting inUse (depth + 2) :=
        Finset.mem_filter.mpr ⟨inside, by simpa using fits⟩
      rw [← fitting] at member
      simp [Heap.fitting, endless] at member
    rw [(isEndless_iff _ _ _).mp endless, (isEndless_iff _ _ _).mp later]
  · exact textWithin_succ fun error => endless ((isEndless_iff _ _ ty).mpr error)

/-- From the bound on the nesting of texts on, larger bounds give the same text. -/
theorem textWithin_textDepth
    {depth : Nat}
    (enough : heap.textDepth ≤ depth)
    (value : Value)
    (ty : Ty) :
    heap.textWithin inUse depth value ty = heap.textWithin inUse heap.textDepth value ty := by
  let parts := heap.arrays.size + heap.objects.size
  have stable :
      ∀ count, parts ≤ count →
        (heap.fitting inUse (count + 1)).card = (heap.fitting inUse (parts + 1)).card := by
    intro count
    refine Nat.stabilises_of_monotone
      (f := fun count => (heap.fitting inUse (count + 1)).card)
      (monotone_nat_of_le_succ fun count => Finset.card_le_card (fitting_subset _))
      (fun count => (Finset.card_filter_le ..).trans card_structures_le) ?_
    intro count same
    have settled := settled_of_card same
    have next : heap.fitting inUse (count + 2) = heap.fitting inUse (count + 3) := by
      refine Finset.filter_congr fun value _ => ?_
      rw [isEndless, isEndless, textWithin_settled settled]
    exact congrArg Finset.card next
  have step :
      ∀ count, parts ≤ count →
        heap.textWithin inUse (count + 2) value ty =
          heap.textWithin inUse (count + 1) value ty :=
    fun count within =>
      settled_of_card ((stable count within).trans (stable (count + 1) (by omega)).symm) _ _
  obtain ⟨more, rfl⟩ := Nat.exists_eq_add_of_le enough
  induction more with
  | zero => rfl
  | succ more inductionHypothesis =>
      rw [← inductionHypothesis (by omega)]
      have last := step (parts + more) (by omega)
      have shape : heap.textDepth + more = parts + more + 1 := by
        simp only [textDepth, parts]
        omega
      rw [← Nat.add_assoc, shape]
      exact last

/-! ## Texts that end -/

variable {value : Value} {ty : Ty} {depth : Nat}

/-- The cells from which the text of a value is made. -/
def textCells (heap : Heap) : Value → List CellId
  | .array id => (heap.array id).items.toList
  | .object id => (heap.object id).fields.toList
  | _ => []

/-- The text of a value shows the value of one of its cells. -/
def Shows (heap : Heap) (whole part : Value) : Prop :=
  ∃ cell ∈ heap.textCells whole,
    (heap.cell cell).state ≠ .undefined ∧ (heap.cell cell).value = part

/-- What the text of a value shows, however deep, shows itself. -/
def ShowsItself (heap : Heap) (value : Value) : Prop :=
  ∃ whole, ReflTransGen heap.Shows value whole ∧ TransGen heap.Shows whole whole

/-- The text of a value is made from a cell, however deep. -/
def ReadsCell (heap : Heap) (value : Value) (cell : CellId) : Prop :=
  ∃ whole, ReflTransGen heap.Shows value whole ∧ cell ∈ heap.textCells whole

/-- What shows a part is made from the cells from which the part is made. -/
theorem ReadsCell.behind
    {part : Value}
    {cell : CellId}
    (shows : heap.Shows value part)
    (reads : heap.ReadsCell part cell) :
    heap.ReadsCell value cell := by
  obtain ⟨whole, reached, isCell⟩ := reads
  exact ⟨whole, .head shows reached, isCell⟩

/-- Only the structures of a heap are made from cells. -/
theorem mem_structures_of_textCells
    {cell : CellId}
    (isCell : cell ∈ heap.textCells value) :
    value ∈ heap.structures := by
  cases value with
  | array id =>
      refine Finset.mem_union_left _ (Finset.mem_image.mpr ⟨id.index, ?_, rfl⟩)
      by_contra outside
      have missing : heap.array id = default := by simp_all [array]
      rw [textCells, missing] at isCell
      cases isCell
  | object id =>
      refine Finset.mem_union_right _ (Finset.mem_image.mpr ⟨id.index, ?_, rfl⟩)
      by_contra outside
      have missing : heap.object id = default := by simp_all [object]
      rw [textCells, missing] at isCell
      cases isCell
  | _ => cases isCell

/-- With a positive bound, a value has a text exactly if all cells of its text have. -/
theorem textWithin_succ_cases
    (heap : Heap)
    (inUse : Option CellId)
    (depth : Nat)
    (value : Value)
    (ty : Ty) :
    (∃ text, heap.textWithin inUse (depth + 1) value ty = .ok text ∧
        ∀ cell ∈ heap.textCells value, ∃ text, heap.itemText inUse depth cell = .ok text) ∨
      ∃ cell ∈ heap.textCells value, ∃ fault,
        heap.itemText inUse depth cell = .error fault ∧
          heap.textWithin inUse (depth + 1) value ty = .error fault := by
  cases value with
  | array id =>
      rw [textWithin_array]
      obtain ⟨texts, areTexts, all⟩ | ⟨cell, isCell, fault, failed, fails⟩ :=
        mapM_cases (heap.itemText inUse depth) (heap.array id).items.toList
      · exact .inl ⟨_, by rw [areTexts]; rfl, all⟩
      · exact .inr ⟨cell, isCell, fault, failed, by rw [fails]; rfl⟩
  | object id =>
      rw [textWithin_object]
      obtain ⟨texts, areTexts, all⟩ | ⟨cell, isCell, fault, failed, fails⟩ :=
        mapM_cases (heap.itemText inUse depth) (heap.object id).fields.toList
      · exact .inl ⟨_, by rw [areTexts]; rfl, all⟩
      · exact .inr ⟨cell, isCell, fault, failed, by rw [fails]; rfl⟩
  | _ => exact .inl ⟨_, rfl, by simp [textCells]⟩

/-- A cell has no text if it is in use, or if its value has none. -/
theorem itemText_error
    {cell : CellId}
    {fault : Fault}
    (failed : heap.itemText inUse depth cell = .error fault) :
    (fault = .cellInUse ∧ inUse = some cell) ∨
      (heap.cell cell).state ≠ .undefined ∧
        heap.textWithin inUse depth (heap.cell cell).value (heap.cell cell).ty = .error fault := by
  unfold itemText at failed
  split at failed
  · next used =>
      cases failed
      exact .inl ⟨rfl, by simpa using used⟩
  · split at failed
    · cases failed
    · next known => exact .inr ⟨by simpa using known, failed⟩

/-- A text that ends is made from no cell that is in use, and shows only values with texts. -/
theorem itemText_ok
    {cell : CellId}
    {text : String}
    (ended : heap.itemText inUse depth cell = .ok text) :
    inUse ≠ some cell ∧
      ((heap.cell cell).state ≠ .undefined →
        heap.textWithin inUse depth (heap.cell cell).value (heap.cell cell).ty = .ok text) := by
  unfold itemText at ended
  split at ended
  · cases ended
  · next unused =>
      refine ⟨by simpa using unused, fun known => ?_⟩
      rwa [if_neg (by simpa using known)] at ended

/-- Without a text, a value is nested too deep, or made from the cell that is in use. -/
theorem textWithin_error
    {fault : Fault}
    (failed : heap.textWithin inUse depth value ty = .error fault) :
    fault = .endlessText ∨
      fault = .cellInUse ∧ ∃ cell, inUse = some cell ∧ heap.ReadsCell value cell := by
  induction depth generalizing value ty with
  | zero => cases value <;> first | exact .inl (Except.error.inj failed).symm | cases failed
  | succ depth inductionHypothesis =>
      obtain ⟨text, isText, -⟩ | ⟨cell, isCell, other, itemFailed, fails⟩ :=
        textWithin_succ_cases heap inUse depth value ty
      · cases isText.symm.trans failed
      · obtain rfl : fault = other := Except.error.inj (failed.symm.trans fails)
        obtain ⟨rfl, used⟩ | ⟨known, deeper⟩ := itemText_error itemFailed
        · exact .inr ⟨rfl, cell, used, value, .refl, isCell⟩
        · obtain endless | ⟨isUse, used, isUsed, reads⟩ := inductionHypothesis deeper
          · exact .inl endless
          · exact .inr ⟨isUse, used, isUsed, reads.behind ⟨cell, isCell, known, rfl⟩⟩

/-- What the text of a value shows has a text of a smaller nesting. -/
theorem Shows.text
    {part : Value}
    {text : String}
    (shows : heap.Shows value part)
    (ended : heap.textWithin inUse depth value ty = .ok text) :
    ∃ less partTy partText,
      depth = less + 1 ∧ heap.textWithin inUse less part partTy = .ok partText := by
  obtain ⟨cell, isCell, known, rfl⟩ := shows
  cases depth with
  | zero => cases value <;> first | cases isCell | cases ended
  | succ less =>
      obtain ⟨-, -, all⟩ | ⟨-, -, fault, -, fails⟩ :=
        textWithin_succ_cases heap inUse less value ty
      · obtain ⟨itemText, isText⟩ := all cell isCell
        exact ⟨less, _, itemText, rfl, (itemText_ok isText).2 known⟩
      · cases fails.symm.trans ended

/-- What has a text shows nothing without an end. -/
theorem acc_of_text
    {text : String}
    (ended : heap.textWithin inUse depth value ty = .ok text) :
    Acc (fun part whole => heap.Shows whole part) value := by
  induction depth generalizing value ty text with
  | zero =>
      refine ⟨value, fun part shows => ?_⟩
      obtain ⟨_, _, _, positive, -⟩ := shows.text ended
      cases positive
  | succ depth inductionHypothesis =>
      refine ⟨value, fun part shows => ?_⟩
      obtain ⟨_, _, _, isLess, partEnded⟩ := shows.text ended
      cases isLess
      exact inductionHypothesis partEnded

/-- What shows nothing without an end does not show itself. -/
theorem not_showsItself_of_acc
    (ends : Acc (fun part whole => heap.Shows whole part) value) :
    ¬ heap.ShowsItself value := by
  induction ends with
  | intro value _ inductionHypothesis =>
      rintro ⟨whole, reached, circle⟩
      obtain rfl | ⟨part, shows, further⟩ := ReflTransGen.cases_head reached
      · obtain ⟨part, shows, further⟩ := TransGen.head'_iff.mp circle
        exact inductionHypothesis part shows
          ⟨part, .refl, TransGen.tail'_iff.mpr ⟨_, further, shows⟩⟩
      · exact inductionHypothesis part shows ⟨whole, further, circle⟩

/-- What has a text is not made from the cell that is in use. -/
theorem not_readsCell_of_text
    {text : String}
    {cell : CellId}
    (ended : heap.textWithin (some cell) depth value ty = .ok text) :
    ¬ heap.ReadsCell value cell := by
  rintro ⟨whole, reached, isCell⟩
  induction reached using ReflTransGen.head_induction_on generalizing depth ty text with
  | refl =>
      cases depth with
      | zero => cases whole <;> first | cases isCell | cases ended
      | succ depth =>
          obtain ⟨-, -, all⟩ | ⟨-, -, fault, -, fails⟩ :=
            textWithin_succ_cases heap (some cell) depth whole ty
          · obtain ⟨itemText, isText⟩ := all cell isCell
            exact (itemText_ok isText).1 rfl
          · cases fails.symm.trans ended
  | head shows _ inductionHypothesis =>
      obtain ⟨_, _, _, -, partEnded⟩ := shows.text ended
      exact inductionHypothesis partEnded

/-- What is nested deeper than the bound shows something that is. -/
theorem exists_shows_of_endless
    (endless : heap.textWithin inUse heap.textDepth value ty = .error .endlessText) :
    value ∈ heap.structures ∧ ∃ part partTy, heap.Shows value part ∧
      heap.textWithin inUse heap.textDepth part partTy = .error .endlessText := by
  rw [← textWithin_textDepth (Nat.le_succ _)] at endless
  obtain ⟨text, isText, -⟩ | ⟨cell, isCell, fault, failed, fails⟩ :=
    textWithin_succ_cases heap inUse heap.textDepth value ty
  · cases isText.symm.trans endless
  · obtain rfl : fault = .endlessText := Except.error.inj (fails.symm.trans endless)
    obtain ⟨isUse, -⟩ | ⟨known, partEndless⟩ := itemText_error failed
    · cases isUse
    · exact ⟨mem_structures_of_textCells isCell, _, _, ⟨cell, isCell, known, rfl⟩, partEndless⟩

/-- A value that does not show itself is not nested deeper than the bound. -/
theorem textWithin_textDepth_ne
    (finite : ¬ heap.ShowsItself value)
    (ty : Ty) :
    heap.textWithin inUse heap.textDepth value ty ≠ .error .endlessText := by
  -- Nothing that the value shows comes back to itself, so a chain of structures that are nested
  -- too deep would be a chain of different structures of the heap, and end.
  let Shown := { part : Value // part ∈ heap.structures ∧ ReflTransGen heap.Shows value part }
  let Below (part whole : Shown) : Prop := TransGen heap.Shows whole.1 part.1
  have : Finite Shown :=
    (heap.structures.finite_toSet.subset fun _ isShown => isShown.1).to_subtype
  have : IsTrans Shown Below := ⟨fun _ _ _ first second => second.trans first⟩
  have : Std.Irrefl Below := ⟨fun part circle => finite ⟨part.1, part.2.2, circle⟩⟩
  have wellFounded : WellFounded Below := Finite.wellFounded_of_trans_of_irrefl Below
  have shown (part : Shown) (ty : Ty) :
      heap.textWithin inUse heap.textDepth part.1 ty ≠ .error .endlessText := by
    induction part using wellFounded.induction generalizing ty with
    | _ part inductionHypothesis =>
        intro endless
        obtain ⟨-, next, nextTy, shows, nextEndless⟩ := exists_shows_of_endless endless
        have isStructure := (exists_shows_of_endless nextEndless).1
        exact inductionHypothesis ⟨next, isStructure, part.2.2.tail shows⟩ (.single shows) nextTy
          nextEndless
  intro endless
  exact shown ⟨value, (exists_shows_of_endless endless).1, .refl⟩ ty endless

/--
The text of a value ends exactly if nothing that it shows shows itself, and if it is not made
from the cell that is in use.
-/
theorem textWithin_textDepth_ok_iff
    (value : Value)
    (ty : Ty) :
    (∃ text, heap.textWithin inUse heap.textDepth value ty = .ok text) ↔
      ¬ heap.ShowsItself value ∧ ∀ cell, inUse = some cell → ¬ heap.ReadsCell value cell := by
  constructor
  · rintro ⟨text, ended⟩
    refine ⟨not_showsItself_of_acc (acc_of_text ended), ?_⟩
    rintro cell rfl
    exact not_readsCell_of_text ended
  · rintro ⟨finite, unused⟩
    cases result : heap.textWithin inUse heap.textDepth value ty with
    | ok text => exact ⟨text, rfl⟩
    | error fault =>
        obtain rfl | ⟨-, cell, isUse, reads⟩ := textWithin_error result
        · exact absurd result (textWithin_textDepth_ne finite ty)
        · exact absurd reads (unused cell isUse)

/-- A value has a text exactly if nothing that it shows shows itself; otherwise no bound helps. -/
theorem text_ends_iff
    (heap : Heap)
    (value : Value)
    (ty : Ty) :
    (¬ heap.ShowsItself value →
      ∃ text, heap.valueText value ty = .ok text ∧
        ∀ depth, heap.textDepth ≤ depth → heap.textWithin none depth value ty = .ok text) ∧
    (heap.ShowsItself value →
      ∀ depth, heap.textWithin none depth value ty = .error .endlessText) := by
  constructor
  · intro finite
    have ends : ∃ text, heap.textWithin none heap.textDepth value ty = .ok text :=
      (textWithin_textDepth_ok_iff value ty).mpr ⟨finite, by rintro cell ⟨⟩⟩
    obtain ⟨text, ended⟩ := ends
    exact ⟨text, ended, fun depth enough => (textWithin_textDepth enough value ty).trans ended⟩
  · intro itself depth
    cases result : heap.textWithin none depth value ty with
    | ok text => exact absurd itself (not_showsItself_of_acc (acc_of_text result))
    | error fault =>
        obtain rfl | ⟨-, _, isUse, -⟩ := textWithin_error result
        · rfl
        · cases isUse

end Heap

/-! ## Faults of conversions -/

/-- What is made from a result misses no part that the result does not miss. -/
theorem Checked.map_found
    {α β : Type}
    {result : Checked α}
    (found : result ≠ .error .missingPart)
    (change : α → β) :
    result.map change ≠ .error .missingPart := by
  cases result with
  | ok value =>
      intro missing
      cases missing
  | error fault =>
      intro missing
      cases missing
      exact found rfl

/-- A text misses no part. -/
theorem Heap.textWithin_found
    (heap : Heap)
    (inUse : Option CellId)
    (depth : Nat)
    (value : Value)
    (ty : Ty) :
    heap.textWithin inUse depth value ty ≠ .error .missingPart := by
  intro missing
  obtain endless | ⟨used, -⟩ := textWithin_error missing
  · cases endless
  · cases used

/-- A conversion misses no part. -/
theorem Heap.convertWhile_found
    (heap : Heap)
    (inUse : Option CellId)
    (value : Value)
    (source target : Ty) :
    heap.convertWhile inUse value source target ≠ .error .missingPart := by
  have text (value : Value) :
      (heap.textWithin inUse heap.textDepth value source).map Value.str ≠ .error .missingPart :=
    Checked.map_found (heap.textWithin_found inUse heap.textDepth value source) _
  unfold convertWhile
  cases value <;> cases target <;> dsimp only
  all_goals first
    | exact text _
    | (intro missing; cases missing)

/-- A store misses no part. -/
theorem Cell.stored_found
    (cell : Cell)
    (heap : Heap)
    (inUse : Option CellId)
    (value : Value)
    (source : Ty) :
    cell.stored heap inUse value source ≠ .error .missingPart :=
  Checked.map_found (heap.convertWhile_found inUse value source cell.ty) _

/-- A store into the heap misses no part. -/
theorem Heap.store_found
    (heap : Heap)
    (id : CellId)
    (value : Value)
    (source : Ty) :
    heap.store id value source ≠ .error .missingPart :=
  Checked.map_found ((heap.cell id).stored_found heap (some id) value source) _

end BotScript
