import GradualScript.Proofs.OperatorTree.Basic

/-!
# Reading operator trees

A tree is read from its infix order element by element. What has been read is a stack of frames, the operators and
parentheses that wait for their right side, and possibly the operand that was read last.

* `Frame`, `TreeReader`, `TreeReader.step?` : what has been read, and one more element;
* `OperatorTree.read?` : the tree of a list of elements;
* `grouped_of_read?`, `read?_eq_some_iff` : only grouped trees are read, and from how they are written;
* `read?_written` : every grouped tree is read, so that no two of them are written alike.
-/

set_option autoImplicit false

namespace GradualScript

open Postfix (Pending precedes)

/-- What waits for the tree on its right. -/
inductive Frame where
  | paren
  | unary (op : Operator)
  | binary (op : Operator) (left : OperatorTree)

namespace Frame

/-- The tree that the frame makes of the one it waits for. -/
def fill : Frame → OperatorTree → OperatorTree
  | paren, t => .paren t
  | unary op, t => .unary op t
  | binary op left, t => .binary op left t

/-- The frame without what has been read on its left. -/
def pending : Frame → Pending
  | paren => .paren
  | unary op | binary op _ => .operator op

/-- The operator at the root of the tree that the frame makes. -/
def root? : Frame → Option Operator
  | paren => none
  | unary op | binary op _ => some op

def written : Frame → List Element
  | paren => [.openParen]
  | unary op => [.operator op]
  | binary op left => left.written ++ [.operator op]

/-- The frame may be filled with a tree that has this root. -/
def takes : Frame → Option Operator → Bool
  | paren, _ => true
  | unary _, root => Operator.takesOperand root
  | binary op _, root => op.takesRight root

/-- What has been read in the frame is grouped. -/
def Proper : Frame → Prop
  | paren => True
  | unary op => op.isUnary = true
  | binary op left => op.isUnary = false ∧ op.takesLeft left.root? = true ∧ left.Grouped

theorem root?_fill (frame : Frame) (t : OperatorTree) : (frame.fill t).root? = frame.root? := by
  cases frame <;> rfl

theorem grouped_fill {frame : Frame} {t : OperatorTree} (hframe : frame.Proper)
    (htakes : frame.takes t.root? = true) (ht : t.Grouped) : (frame.fill t).Grouped := by
  cases frame with
  | paren => exact ht
  | unary op => exact ⟨hframe, htakes, ht⟩
  | binary op left => exact ⟨hframe.1, hframe.2.1, htakes, hframe.2.2, ht⟩

theorem eq_paren {frame : Frame} (h : frame.root? = none) : frame = paren := by
  cases frame with
  | paren => rfl
  | unary op => cases h
  | binary op left => cases h

theorem pending_eq_operator {frame : Frame} {op : Operator} :
    frame.pending = .operator op ↔ frame.root? = some op := by
  cases frame <;> simp [pending, root?]

/-- A frame waits for the operand of a binary operator exactly if it is not done before that operator. -/
theorem takes_iff_not_precedes {frame : Frame} {waiting op : Operator} (hframe : frame.Proper)
    (hroot : frame.root? = some waiting) (hop : op.isUnary = false) :
    frame.takes (some op) = true ↔ precedes waiting op = false := by
  by_cases hleft : op.isLeftAssociative = true
  · have hlevel := Operator.level_le_of_isLeftAssociative hop hleft
    have hpower : op ≠ .power := by simpa [Operator.isLeftAssociative] using hleft
    rw [precedes, if_pos hleft, decide_eq_false_iff_not, Nat.not_le]
    cases frame with
    | paren => cases hroot
    | unary unaryOp =>
      cases hroot
      simp only [takes, Operator.takesOperand, hop, hpower, Operator.level_of_isUnary hframe]
      simp
      omega
    | binary binaryOp left =>
      cases hroot
      simp only [takes, Operator.takesRight, hop, hpower]
      split
      · simp
      · rename_i h
        obtain rfl := Operator.isLeftAssociative_eq_false_iff.1 (by simpa using h)
        simp
        omega
  · obtain rfl := Operator.isLeftAssociative_eq_false_iff.1 (by simpa using hleft)
    have hwaiting := waiting.level_le_seven
    rw [precedes, if_neg (by decide), decide_eq_false_iff_not, Nat.not_lt]
    cases frame with
    | paren => cases hroot
    | unary unaryOp => simpa [takes, Operator.takesOperand] using hwaiting
    | binary binaryOp left =>
      cases hroot
      simp only [takes, Operator.takesRight]
      split
      · have := Operator.level_le_of_isLeftAssociative hframe.1 ‹_›
        rw [decide_eq_true_iff, Operator.level_power]
        omega
      · simpa using hwaiting

theorem takes_of_isUnary {frame : Frame} {op : Operator} (hframe : frame.Proper) (hop : op.isUnary = true) :
    frame.takes (some op) = true := by
  cases frame with
  | paren => rfl
  | unary unaryOp => simp [takes, Operator.takesOperand, hop]
  | binary binaryOp left =>
    simp only [takes, Operator.takesRight, hop, Bool.true_or, Operator.level_of_isUnary hop]
    split
    · have := Operator.level_le_of_isLeftAssociative hframe.1 ‹_›
      exact decide_eq_true (by omega)
    · rfl

/-! ## Stacks of frames -/

/-- The elements that have been read in the frames. -/
def allWritten : List Frame → List Element
  | [] => []
  | frame :: frames => allWritten frames ++ frame.written

/-- The innermost frame may be filled with a tree that has this root. -/
def allTake : List Frame → Option Operator → Bool
  | [], _ => true
  | frame :: _, root => frame.takes root

/-- All frames are proper, and each may be filled with what the one inside it makes. -/
def AllProper : List Frame → Prop
  | [] => True
  | frame :: frames => frame.Proper ∧ allTake frames frame.root? = true ∧ AllProper frames

/-- Fills the frames that are done before `next`. -/
def settle (next : Operator) : List Frame → OperatorTree → List Frame × OperatorTree
  | [], t => ([], t)
  | frame :: frames, t =>
    match frame.root? with
    | some op => if precedes op next then settle next frames (frame.fill t) else (frame :: frames, t)
    | none => (frame :: frames, t)

/-- Fills the frames down to the innermost parenthesis, and that. -/
def close? : List Frame → OperatorTree → Option (List Frame × OperatorTree)
  | [], _ => none
  | frame :: frames, t =>
    match frame.root? with
    | some _ => close? frames (frame.fill t)
    | none => some (frames, frame.fill t)

/-- Fills all frames, unless a parenthesis is among them. -/
def finish? : List Frame → OperatorTree → Option OperatorTree
  | [], t => some t
  | frame :: frames, t =>
    match frame.root? with
    | some _ => finish? frames (frame.fill t)
    | none => none

theorem allTake_of_isUnary {frames : List Frame} {op : Operator} (hframes : AllProper frames)
    (hop : op.isUnary = true) : allTake frames (some op) = true := by
  cases frames with
  | nil => rfl
  | cons frame frames => exact takes_of_isUnary hframes.1 hop

theorem allTake_none (frames : List Frame) : allTake frames none = true := by
  cases frames with
  | nil => rfl
  | cons frame frames => cases frame <;> rfl

theorem written_fill (frame : Frame) (t : OperatorTree) (h : frame.root?.isSome = true) :
    (frame.fill t).written = frame.written ++ t.written := by
  cases frame with
  | paren => cases h
  | unary op => rfl
  | binary op left => simp [fill, written, OperatorTree.written]

end Frame

/-- What has been read of a tree. -/
structure TreeReader where
  frames : List Frame
  /-- The operand that was read last, if an operator or a parenthesis has to follow. -/
  operand? : Option OperatorTree

namespace TreeReader

/-- Reads one element. -/
def step? : TreeReader → Element → Option TreeReader
  | ⟨frames, none⟩, .value item => some ⟨frames, some (.value item)⟩
  | ⟨frames, none⟩, .openParen => some ⟨.paren :: frames, none⟩
  | ⟨frames, none⟩, .operator op => if op.isUnary then some ⟨.unary op :: frames, none⟩ else none
  | ⟨frames, some t⟩, .operator op =>
    if op.isUnary then none
    else some ⟨.binary op (Frame.settle op frames t).2 :: (Frame.settle op frames t).1, none⟩
  | ⟨frames, some t⟩, .closeParen => (Frame.close? frames t).map fun (below, group) => ⟨below, some group⟩
  | _, _ => none

/-- Reads elements one after the other. -/
def run? (reader : TreeReader) : List Element → Option TreeReader
  | [] => some reader
  | element :: rest => do run? (← reader.step? element) rest

/-- The tree, if it is complete. -/
def finish? (reader : TreeReader) : Option OperatorTree :=
  reader.operand?.bind (Frame.finish? reader.frames)

/-- Nothing has been read. -/
def start : TreeReader := ⟨[], none⟩

end TreeReader

/-- The tree that is written as the elements. -/
def OperatorTree.read? (elements : List Element) : Option OperatorTree := do
  (← TreeReader.start.run? elements).finish?

/-! ## Only grouped trees are read -/

namespace Frame

/-- A tree in frames that it fits: what is kept while frames are filled. -/
structure Fits (frames : List Frame) (t : OperatorTree) : Prop where
  proper : AllProper frames
  takes : allTake frames t.root? = true
  grouped : t.Grouped

theorem Fits.fill {frame : Frame} {frames : List Frame} {t : OperatorTree} (h : Fits (frame :: frames) t) :
    Fits frames (frame.fill t) where
  proper := h.proper.2.2
  takes := by
    rw [root?_fill]
    exact h.proper.2.1
  grouped := grouped_fill h.proper.1 h.takes h.grouped

theorem settle_fits (next : Operator) (frames : List Frame) (t : OperatorTree) (h : Fits frames t) :
    Fits (settle next frames t).1 (settle next frames t).2 := by
  induction frames generalizing t with
  | nil => exact h
  | cons frame frames ih =>
    rw [settle]
    split
    · split
      · exact ih _ h.fill
      · exact h
    · exact h

theorem settle_written (next : Operator) (frames : List Frame) (t : OperatorTree) :
    allWritten (settle next frames t).1 ++ (settle next frames t).2.written = allWritten frames ++ t.written := by
  induction frames generalizing t with
  | nil => rfl
  | cons frame frames ih =>
    rw [settle]
    split
    · rename_i op hroot
      split
      · rw [ih, written_fill frame t (by rw [hroot]; rfl), allWritten, List.append_assoc]
      · rfl
    · rfl

/-- The frames that are left wait for the right side of `next`. -/
theorem settle_takes {next : Operator} (hnext : next.isUnary = false) (frames : List Frame) (t : OperatorTree)
    (h : AllProper frames) : allTake (settle next frames t).1 (some next) = true := by
  induction frames generalizing t with
  | nil => rfl
  | cons frame frames ih =>
    rw [settle]
    split
    · rename_i op hroot
      split
      · exact ih _ h.2.2
      · rename_i hprecedes
        exact (takes_iff_not_precedes h.1 hroot hnext).2 (by simpa using hprecedes)
    · rename_i hroot
      rw [eq_paren hroot]
      rfl

/-- What is done before `next` may stand on its left. -/
theorem settle_takesLeft {next : Operator} (frames : List Frame) (t : OperatorTree)
    (h : next.takesLeft t.root? = true) : next.takesLeft (settle next frames t).2.root? = true := by
  induction frames generalizing t with
  | nil => exact h
  | cons frame frames ih =>
    rw [settle]
    split
    · rename_i op hroot
      split
      · rename_i hprecedes
        refine ih _ ?_
        rw [root?_fill, hroot]
        by_cases hleft : next.isLeftAssociative = true
        · simpa [precedes, hleft, Operator.takesLeft] using hprecedes
        · have hpower := Operator.isLeftAssociative_eq_false_iff.1 (by simpa using hleft)
          have := op.level_le_seven
          rw [hpower, precedes, if_neg (by decide), decide_eq_true_iff, Operator.level_power] at hprecedes
          omega
      · exact h
    · exact h

theorem close?_fits {frames below : List Frame} {t group : OperatorTree} (h : Fits frames t)
    (hclose : close? frames t = some (below, group)) :
    Fits below group ∧ group.root? = none ∧
      allWritten below ++ group.written = allWritten frames ++ t.written ++ [.closeParen] := by
  induction frames generalizing t with
  | nil => cases hclose
  | cons frame frames ih =>
    rw [close?] at hclose
    split at hclose
    · rename_i op hroot
      obtain ⟨hfits, hnone, hwritten⟩ := ih h.fill hclose
      refine ⟨hfits, hnone, ?_⟩
      simp only [hwritten, written_fill frame t (by rw [hroot]; rfl), allWritten, List.append_assoc]
    · rename_i hroot
      obtain ⟨rfl, rfl⟩ : frames = below ∧ frame.fill t = group := by simpa using hclose
      refine ⟨h.fill, by rw [root?_fill, hroot], ?_⟩
      simp [eq_paren hroot, allWritten, written, fill, OperatorTree.written]

theorem finish?_fits {frames : List Frame} {t whole : OperatorTree} (h : Fits frames t)
    (hfinish : finish? frames t = some whole) :
    whole.Grouped ∧ whole.written = allWritten frames ++ t.written := by
  induction frames generalizing t with
  | nil =>
    obtain rfl : t = whole := by simpa [finish?] using hfinish
    exact ⟨h.grouped, rfl⟩
  | cons frame frames ih =>
    rw [finish?] at hfinish
    split at hfinish
    · rename_i op hroot
      obtain ⟨hgrouped, hwritten⟩ := ih h.fill hfinish
      refine ⟨hgrouped, ?_⟩
      rw [hwritten, written_fill frame t (by rw [hroot]; rfl), allWritten, List.append_assoc]
    · cases hfinish

end Frame

namespace TreeReader

/-- The elements that have been read. -/
def written (reader : TreeReader) : List Element :=
  Frame.allWritten reader.frames ++ reader.operand?.elim [] OperatorTree.written

/-- What has been read is grouped, and the operand that was read last needs no parentheses anywhere. -/
def Proper (reader : TreeReader) : Prop :=
  match reader.operand? with
  | none => Frame.AllProper reader.frames
  | some t => Frame.Fits reader.frames t ∧ t.root? = none

theorem step?_proper {reader next : TreeReader} {element : Element} (h : reader.Proper)
    (hstep : reader.step? element = some next) :
    next.Proper ∧ next.written = reader.written ++ [element] := by
  obtain ⟨frames, operand⟩ := reader
  cases operand with
  | none =>
    cases element with
    | value item =>
      cases hstep
      exact ⟨⟨⟨h, Frame.allTake_none frames, trivial⟩, rfl⟩, by simp [written, OperatorTree.written]⟩
    | openParen =>
      cases hstep
      exact ⟨⟨trivial, Frame.allTake_none frames, h⟩, by simp [written, Frame.allWritten, Frame.written]⟩
    | closeParen => cases hstep
    | operator op =>
      by_cases hop : op.isUnary = true
      · rw [step?, if_pos hop] at hstep
        cases hstep
        exact ⟨⟨hop, Frame.allTake_of_isUnary h hop, h⟩, by simp [written, Frame.allWritten, Frame.written]⟩
      · rw [step?, if_neg hop] at hstep
        cases hstep
  | some t =>
    obtain ⟨hfits, hroot⟩ := h
    cases element with
    | value item => cases hstep
    | openParen => cases hstep
    | closeParen =>
      obtain ⟨⟨below, group⟩, hclose, rfl⟩ := Option.map_eq_some_iff.1 hstep
      obtain ⟨hbelow, hgroup, hwritten⟩ := Frame.close?_fits hfits hclose
      exact ⟨⟨hbelow, hgroup⟩, hwritten⟩
    | operator op =>
      by_cases hop : op.isUnary = true
      · rw [step?, if_pos hop] at hstep
        cases hstep
      · rw [step?, if_neg hop] at hstep
        cases hstep
        have hbinary : op.isUnary = false := by simpa using hop
        have hsettled := Frame.settle_fits op frames t hfits
        refine ⟨⟨⟨hbinary, ?_, hsettled.grouped⟩, ?_, hsettled.proper⟩, ?_⟩
        · exact Frame.settle_takesLeft frames t (by rw [hroot]; rfl)
        · exact Frame.settle_takes hbinary frames t hfits.proper
        · have hwritten := Frame.settle_written op frames t
          simp only [written, Frame.allWritten, Frame.written, Option.elim, List.append_nil, ← hwritten,
            List.append_assoc]

theorem run?_proper {reader next : TreeReader} {elements : List Element} (h : reader.Proper)
    (hrun : reader.run? elements = some next) : next.Proper ∧ next.written = reader.written ++ elements := by
  induction elements generalizing reader with
  | nil =>
    cases hrun
    exact ⟨h, (List.append_nil _).symm⟩
  | cons element rest ih =>
    obtain ⟨middle, hstep, hrest⟩ := Option.bind_eq_some_iff.1 hrun
    obtain ⟨hmiddle, hwritten⟩ := step?_proper h hstep
    obtain ⟨hnext, hall⟩ := ih hmiddle hrest
    exact ⟨hnext, by rw [hall, hwritten, List.append_assoc]; rfl⟩

end TreeReader

/-- What is read is grouped, and it is written as the elements that were read. -/
theorem OperatorTree.grouped_of_read? {elements : List Element} {t : OperatorTree} (h : read? elements = some t) :
    t.Grouped ∧ t.written = elements := by
  obtain ⟨reader, hrun, hfinish⟩ := Option.bind_eq_some_iff.1 h
  have hstart : TreeReader.start.Proper := trivial
  obtain ⟨hproper, hwritten⟩ := TreeReader.run?_proper hstart hrun
  obtain ⟨operand, hoperand, hwhole⟩ := Option.bind_eq_some_iff.1 hfinish
  rw [TreeReader.Proper, hoperand] at hproper
  obtain ⟨hgrouped, hw⟩ := Frame.finish?_fits hproper.1 hwhole
  refine ⟨hgrouped, ?_⟩
  rw [hw]
  simpa [TreeReader.written, hoperand, TreeReader.start, Frame.allWritten] using hwritten

/-! ## Every grouped tree is read -/

namespace Frame

/-- A tree in frames from the inside out. -/
def fillAll (frames : List Frame) (t : OperatorTree) : OperatorTree :=
  frames.foldl (fun inner frame => frame.fill inner) t

theorem settle_append {next : Operator} {inner frames : List Frame} (t : OperatorTree)
    (h : ∀ frame ∈ inner, ∃ op, frame.root? = some op ∧ precedes op next = true) :
    settle next (inner ++ frames) t = settle next frames (fillAll inner t) := by
  induction inner generalizing t with
  | nil => rfl
  | cons frame inner ih =>
    obtain ⟨op, hroot, hprecedes⟩ := h frame List.mem_cons_self
    rw [List.cons_append, settle, hroot]
    simp only [hprecedes, if_true]
    exact ih _ fun other hother => h other (List.mem_cons_of_mem _ hother)

/-- Nothing is done before an operator whose left side the innermost frame waits for. -/
theorem settle_of_takes {next : Operator} {frames : List Frame} (t : OperatorTree) (hnext : next.isUnary = false)
    (h : AllProper frames) (htakes : allTake frames (some next) = true) : settle next frames t = (frames, t) := by
  cases frames with
  | nil => rfl
  | cons frame frames =>
    rw [settle]
    split
    · rename_i op hroot
      rw [if_neg]
      simp [(takes_iff_not_precedes h.1 hroot hnext).1 htakes]
    · rfl

theorem close?_append (inner frames : List Frame) (t : OperatorTree)
    (h : ∀ frame ∈ inner, frame.root?.isSome = true) :
    close? (inner ++ frames) t = close? frames (fillAll inner t) := by
  induction inner generalizing t with
  | nil => rfl
  | cons frame inner ih =>
    obtain ⟨op, hroot⟩ := Option.isSome_iff_exists.1 (h frame List.mem_cons_self)
    rw [List.cons_append, close?, hroot]
    exact ih _ fun other hother => h other (List.mem_cons_of_mem _ hother)

theorem finish?_append (inner frames : List Frame) (t : OperatorTree)
    (h : ∀ frame ∈ inner, frame.root?.isSome = true) :
    finish? (inner ++ frames) t = finish? frames (fillAll inner t) := by
  induction inner generalizing t with
  | nil => rfl
  | cons frame inner ih =>
    obtain ⟨op, hroot⟩ := Option.isSome_iff_exists.1 (h frame List.mem_cons_self)
    rw [List.cons_append, finish?, hroot]
    exact ih _ fun other hother => h other (List.mem_cons_of_mem _ hother)

/-- A tree may stand where the operator may whose left side it is. -/
theorem allTake_left {op : Operator} {frames : List Frame} {root : Option Operator} (hop : op.isUnary = false)
    (h : AllProper frames) (htakes : allTake frames (some op) = true) (hleft : op.takesLeft root = true) :
    allTake frames root = true := by
  cases frames with
  | nil => rfl
  | cons frame frames =>
    cases root with
    | none => exact allTake_none (frame :: frames)
    | some root =>
      by_cases hroot : root.isUnary = true
      · exact takes_of_isUnary h.1 hroot
      · cases hframe : frame.root? with
        | none => rw [eq_paren hframe]; rfl
        | some waiting =>
          have hwaits := (takes_iff_not_precedes h.1 hframe hop).1 htakes
          refine (takes_iff_not_precedes h.1 hframe (by simpa using hroot)).2 ?_
          obtain ⟨hassoc, hlevel⟩ : op.isLeftAssociative = true ∧ op.priority.level ≤ root.priority.level := by
            simpa [Operator.takesLeft] using hleft
          have hlow : waiting.priority.level < op.priority.level := by
            simpa [precedes, hassoc] using hwaits
          rw [precedes]
          split
          · exact decide_eq_false (by omega)
          · exact decide_eq_false (by omega)

end Frame

namespace OperatorTree

/-- The frames that wait when the tree has just been read, from the inside out. -/
def spine : OperatorTree → List Frame
  | value _ | paren _ => []
  | unary op operand => operand.spine ++ [.unary op]
  | binary op left right => right.spine ++ [.binary op left]

/-- The operand at the right end of the tree. -/
def tip : OperatorTree → OperatorTree
  | value item => value item
  | paren inner => paren inner
  | unary _ operand => operand.tip
  | binary _ _ right => right.tip

theorem fillAll_spine (t : OperatorTree) : Frame.fillAll t.spine t.tip = t := by
  induction t with
  | value item => rfl
  | paren inner => rfl
  | unary op operand ih =>
    rw [spine, tip, Frame.fillAll, List.foldl_append]
    exact congrArg (unary op) ih
  | binary op left right _ ih =>
    rw [spine, tip, Frame.fillAll, List.foldl_append]
    exact congrArg (binary op left) ih

theorem isSome_of_mem_spine {t : OperatorTree} {frame : Frame} (h : frame ∈ t.spine) :
    frame.root?.isSome = true := by
  induction t with
  | value item => cases h
  | paren inner => cases h
  | unary op operand ih =>
    rcases List.mem_append.1 h with h | h
    · exact ih h
    · rw [List.mem_singleton.1 h]; rfl
  | binary op left right _ ih =>
    rcases List.mem_append.1 h with h | h
    · exact ih h
    · rw [List.mem_singleton.1 h]; rfl

/-- All that waits in a tree on the left of an operator is done before that operator. -/
theorem precedes_of_mem_spine {next : Operator} (hnext : next.isUnary = false)
    (hassoc : next.isLeftAssociative = true) {t : OperatorTree} (ht : t.Grouped)
    (hroot : ∀ root, t.root? = some root → next.priority.level ≤ root.priority.level) {frame : Frame}
    (h : frame ∈ t.spine) : ∃ op, frame.root? = some op ∧ precedes op next = true := by
  have hlow := Operator.level_le_of_isLeftAssociative hnext hassoc
  induction t with
  | value item => cases h
  | paren inner => cases h
  | unary op operand ih =>
    rcases List.mem_append.1 h with h | h
    · refine ih ht.2.2 (fun root hr => ?_) h
      have hhigh := Operator.six_le_level_of_takesOperand root (by rw [← hr]; exact ht.2.1)
      omega
    · rw [List.mem_singleton.1 h]
      exact ⟨op, rfl, by simpa [precedes, hassoc] using hroot op rfl⟩
  | binary op left right _ ih =>
    obtain ⟨hop, -, hright, -, hgrouped⟩ := ht
    have hself := hroot op rfl
    rcases List.mem_append.1 h with h | h
    · refine ih hgrouped (fun root hr => ?_) h
      rw [hr, Operator.takesRight] at hright
      split at hright
      · have := of_decide_eq_true hright
        omega
      · have hhigh := Operator.six_le_level_of_takesOperand root hright
        omega
    · rw [List.mem_singleton.1 h]
      exact ⟨op, rfl, by simpa [precedes, hassoc] using hself⟩

theorem settle_spine {next : Operator} {frames : List Frame} {t : OperatorTree} (hnext : next.isUnary = false)
    (hframes : Frame.AllProper frames) (htakes : Frame.allTake frames (some next) = true) (ht : t.Grouped)
    (hleft : next.takesLeft t.root? = true) : Frame.settle next (t.spine ++ frames) t.tip = (frames, t) := by
  cases hroot : t.root? with
  | none =>
    have hspine : t.spine = [] ∧ t.tip = t := by
      cases t with
      | value item => exact ⟨rfl, rfl⟩
      | paren inner => exact ⟨rfl, rfl⟩
      | unary op operand => cases hroot
      | binary op left right => cases hroot
    rw [hspine.1, hspine.2, List.nil_append]
    exact Frame.settle_of_takes t hnext hframes htakes
  | some root =>
    obtain ⟨hassoc, hlevel⟩ : next.isLeftAssociative = true ∧ next.priority.level ≤ root.priority.level := by
      simpa [hroot, Operator.takesLeft] using hleft
    rw [Frame.settle_append, fillAll_spine]
    · exact Frame.settle_of_takes t hnext hframes htakes
    · intro frame hframe
      refine precedes_of_mem_spine hnext hassoc ht (fun other hother => ?_) hframe
      rw [hroot] at hother
      cases hother
      exact hlevel

theorem run?_written {t : OperatorTree} (ht : t.Grouped) (frames : List Frame) (hframes : Frame.AllProper frames)
    (htakes : Frame.allTake frames t.root? = true) (rest : List Element) :
    TreeReader.run? ⟨frames, none⟩ (t.written ++ rest) = TreeReader.run? ⟨t.spine ++ frames, some t.tip⟩ rest := by
  induction t generalizing frames rest with
  | value item => rfl
  | paren inner ih =>
    have hinner := ih ht (.paren :: frames) ⟨trivial, Frame.allTake_none frames, hframes⟩ rfl
    rw [written, List.cons_append, List.append_assoc]
    change TreeReader.run? ⟨.paren :: frames, none⟩ _ = _
    rw [hinner]
    have hclose : Frame.close? (inner.spine ++ .paren :: frames) inner.tip = some (frames, .paren inner) := by
      rw [Frame.close?_append inner.spine _ _ fun frame h => isSome_of_mem_spine h, fillAll_spine]
      rfl
    simp only [List.cons_append, List.nil_append, TreeReader.run?, TreeReader.step?, hclose]
    rfl
  | unary op operand ih =>
    obtain ⟨hop, hoperand, hgrouped⟩ := ht
    have hrest := ih hgrouped (.unary op :: frames) ⟨hop, htakes, hframes⟩ hoperand
    rw [written, List.cons_append, TreeReader.run?, TreeReader.step?, if_pos hop]
    change TreeReader.run? ⟨.unary op :: frames, none⟩ _ = _
    rw [hrest, spine, List.append_assoc]
    rfl
  | binary op left right ihl ihr =>
    obtain ⟨hop, hleft, hright, hgroupedLeft, hgroupedRight⟩ := ht
    -- the left operand is read under the frames around the whole tree, and settled when `op` comes
    have hl := ihl hgroupedLeft frames hframes (Frame.allTake_left hop hframes htakes hleft)
    have hr := ihr hgroupedRight (.binary op left :: frames)
      ⟨⟨hop, hleft, hgroupedLeft⟩, htakes, hframes⟩ hright
    rw [written, List.append_assoc, hl, List.cons_append, TreeReader.run?, TreeReader.step?, hop,
      settle_spine hop hframes htakes hgroupedLeft hleft]
    change TreeReader.run? ⟨.binary op left :: frames, none⟩ _ = _
    rw [hr, spine, List.append_assoc]
    rfl

/-- Every grouped tree is read from how it is written. -/
theorem read?_written {t : OperatorTree} (ht : t.Grouped) : read? t.written = some t := by
  have hrun := run?_written ht [] trivial rfl []
  rw [List.append_nil, List.append_nil] at hrun
  rw [read?, TreeReader.start, hrun]
  change Frame.finish? t.spine t.tip = some t
  have hfinish := Frame.finish?_append t.spine [] t.tip fun frame h => isSome_of_mem_spine h
  rw [List.append_nil, fillAll_spine] at hfinish
  exact hfinish

/-- Reading finds exactly the grouped tree that is written as the elements. -/
theorem read?_eq_some_iff {elements : List Element} {t : OperatorTree} :
    read? elements = some t ↔ t.Grouped ∧ t.written = elements := by
  constructor
  · exact grouped_of_read?
  · rintro ⟨ht, rfl⟩
    exact read?_written ht

end OperatorTree

end GradualScript
