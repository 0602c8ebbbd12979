import GradualScript.Proofs.OperatorTree.Reading

/-!
# Trees in postfix order

The stack of the converter is the stack of frames of the tree reader without their left sides, and what the
converter has put out is those left sides in postfix order. So the two walk over an expression in step.

* `Frame.emitted`, `TreeReader.emitted` : the instructions of what has been read;
* `step?_convert`, `run?_convert` : one element and a whole expression;
* `calculate_written` : an expression that is written as a grouped tree has the value of that tree.
-/

set_option autoImplicit false

namespace GradualScript

open Postfix (Pending precedes release enter convert)

/-! ## The converter, one element at a time -/

theorem convert_value (stack : List Pending) (item : Item) (rest : List Element) :
    convert stack (.value item :: rest) = (convert stack rest).map (.push item :: ·) := by
  rw [convert]
  cases convert stack rest <;> rfl

theorem convert_operator (stack : List Pending) (op : Operator) (rest : List Element) :
    convert stack (.operator op :: rest) = (convert (enter op stack).2 rest).map ((enter op stack).1 ++ ·) := by
  rw [convert]
  cases convert (enter op stack).2 rest <;> rfl

theorem convert_closeParen {stack below : List Pending} {out : List Instruction}
    (h : Postfix.close? stack = some (out, below)) (rest : List Element) :
    convert stack (.closeParen :: rest) = (convert below rest).map (out ++ ·) := by
  rw [convert, h]
  cases hrest : convert below rest with
  | error kind =>
    simp only [hrest]
    rfl
  | ok code =>
    simp only [hrest]
    rfl

namespace Frame

/-- The instructions of what has been read in the frame. -/
def emitted : Frame → List Instruction
  | paren | unary _ => []
  | binary _ left => left.postOrder

def allEmitted : List Frame → List Instruction
  | [] => []
  | frame :: frames => allEmitted frames ++ frame.emitted

theorem postOrder_fill {frame : Frame} {op : Operator} (h : frame.root? = some op) (t : OperatorTree) :
    (frame.fill t).postOrder = frame.emitted ++ (t.postOrder ++ [.apply op]) := by
  cases frame with
  | paren => cases h
  | unary unaryOp =>
    cases h
    rfl
  | binary binaryOp left =>
    cases h
    rfl

/-- The converter releases the operators of the frames that are filled. -/
theorem release_pending (next : Operator) (frames : List Frame) (t : OperatorTree) :
    (release next (frames.map pending)).2 = (settle next frames t).1.map pending ∧
      allEmitted (settle next frames t).1 ++ (settle next frames t).2.postOrder =
        allEmitted frames ++ t.postOrder ++ (release next (frames.map pending)).1 := by
  induction frames generalizing t with
  | nil => exact ⟨rfl, (List.append_nil _).symm⟩
  | cons frame frames ih =>
    cases hroot : frame.root? with
    | none =>
      rw [eq_paren hroot]
      exact ⟨rfl, (List.append_nil _).symm⟩
    | some op =>
      have hpending : frame.pending = .operator op := pending_eq_operator.2 hroot
      rw [List.map_cons, hpending, release, settle, hroot]
      by_cases hprecedes : precedes op next = true
      · obtain ⟨hbelow, hemitted⟩ := ih (frame.fill t)
        simp only [hprecedes, if_true, Prod.map, id_eq]
        refine ⟨hbelow, ?_⟩
        rw [hemitted, postOrder_fill hroot, allEmitted]
        simp only [List.append_assoc, List.cons_append, List.nil_append]
      · rw [if_neg hprecedes]
        simp only [if_neg hprecedes, List.map_cons, hpending, List.append_nil, and_self]

theorem close?_pending (frames : List Frame) (t : OperatorTree) :
    match close? frames t with
    | some (below, group) => ∃ out, Postfix.close? (frames.map pending) = some (out, below.map pending) ∧
        allEmitted below ++ group.postOrder = allEmitted frames ++ t.postOrder ++ out
    | none => Postfix.close? (frames.map pending) = none := by
  induction frames generalizing t with
  | nil => rfl
  | cons frame frames ih =>
    cases hroot : frame.root? with
    | none =>
      rw [eq_paren hroot]
      exact ⟨[], rfl, by simp [allEmitted, emitted, fill, OperatorTree.postOrder]⟩
    | some op =>
      have hpending : frame.pending = .operator op := pending_eq_operator.2 hroot
      have hfill := ih (frame.fill t)
      rw [close?, hroot]
      simp only [List.map_cons, hpending, Postfix.close?]
      split at hfill
      · obtain ⟨out, hstack, hemitted⟩ := hfill
        refine ⟨.apply op :: out, by rw [hstack]; rfl, ?_⟩
        rw [hemitted, postOrder_fill hroot, allEmitted]
        simp only [List.append_assoc, List.cons_append, List.nil_append]
      · simp only [hfill, Option.map_none]

theorem finish?_pending (frames : List Frame) (t : OperatorTree) :
    match finish? frames t with
    | some whole => ∃ out, Postfix.finish? (frames.map pending) = some out ∧
        whole.postOrder = allEmitted frames ++ t.postOrder ++ out
    | none => Postfix.finish? (frames.map pending) = none := by
  induction frames generalizing t with
  | nil => exact ⟨[], rfl, (List.append_nil _).symm⟩
  | cons frame frames ih =>
    cases hroot : frame.root? with
    | none =>
      rw [eq_paren hroot]
      rfl
    | some op =>
      have hpending : frame.pending = .operator op := pending_eq_operator.2 hroot
      have hfill := ih (frame.fill t)
      rw [finish?, hroot]
      simp only [List.map_cons, hpending, Postfix.finish?]
      split at hfill
      · obtain ⟨out, hstack, hemitted⟩ := hfill
        refine ⟨.apply op :: out, by rw [hstack]; rfl, ?_⟩
        rw [hemitted, postOrder_fill hroot, allEmitted]
        simp only [List.append_assoc, List.cons_append, List.nil_append]
      · simp only [hfill, Option.map_none]

end Frame

namespace TreeReader

/-- What waits in the converter. -/
def stack (reader : TreeReader) : List Pending :=
  reader.frames.map Frame.pending

/-- The instructions of what has been read. -/
def emitted (reader : TreeReader) : List Instruction :=
  Frame.allEmitted reader.frames ++ reader.operand?.elim [] OperatorTree.postOrder

/-- An element that the reader takes sends the converter from the stack of the one reader to that of the next. -/
theorem step?_convert {reader next : TreeReader} {element : Element} (hstep : reader.step? element = some next) :
    ∃ out, next.emitted = reader.emitted ++ out ∧
      ∀ rest, convert reader.stack (element :: rest) = (convert next.stack rest).map (out ++ ·) := by
  obtain ⟨frames, operand⟩ := reader
  cases operand with
  | none =>
    cases element with
    | value item =>
      cases hstep
      exact ⟨[.push item], by simp [emitted, OperatorTree.postOrder], fun rest => convert_value _ item rest⟩
    | openParen =>
      cases hstep
      refine ⟨[], by simp [emitted, Frame.allEmitted, Frame.emitted], fun rest => ?_⟩
      rw [convert]
      change convert (stack ⟨.paren :: frames, none⟩) rest = _
      cases convert (stack ⟨.paren :: frames, none⟩) rest <;> rfl
    | closeParen => cases hstep
    | operator op =>
      by_cases hop : op.isUnary = true
      · rw [step?, if_pos hop] at hstep
        cases hstep
        refine ⟨[], by simp [emitted, Frame.allEmitted, Frame.emitted], fun rest => ?_⟩
        rw [convert_operator, enter, if_pos hop]
        rfl
      · rw [step?, if_neg hop] at hstep
        cases hstep
  | some t =>
    cases element with
    | value item => cases hstep
    | openParen => cases hstep
    | closeParen =>
      obtain ⟨⟨below, group⟩, hclose, rfl⟩ := Option.map_eq_some_iff.1 hstep
      have hpending := Frame.close?_pending frames t
      rw [hclose] at hpending
      obtain ⟨out, hstack, hemitted⟩ := hpending
      exact ⟨out, hemitted, fun rest => convert_closeParen hstack rest⟩
    | operator op =>
      by_cases hop : op.isUnary = true
      · rw [step?, if_pos hop] at hstep
        cases hstep
      · rw [step?, if_neg hop] at hstep
        cases hstep
        obtain ⟨hstack, hemitted⟩ := Frame.release_pending op frames t
        refine ⟨(release op (frames.map Frame.pending)).1, ?_, fun rest => ?_⟩
        · simpa [emitted, Frame.allEmitted, Frame.emitted] using hemitted
        · rw [convert_operator, enter, if_neg hop]
          simp only [stack, List.map_cons, Frame.pending, ← hstack, Prod.map, id_eq]

/-- The converter finishes what the reader finishes. -/
theorem run?_convert {reader last : TreeReader} {elements : List Element} {t : OperatorTree}
    (hrun : reader.run? elements = some last) (hfinish : last.finish? = some t) :
    ∃ out, convert reader.stack elements = .ok out ∧ reader.emitted ++ out = t.postOrder := by
  induction elements generalizing reader with
  | nil =>
    obtain rfl : reader = last := Option.some.inj hrun
    obtain ⟨operand, hoperand, hwhole⟩ := Option.bind_eq_some_iff.1 hfinish
    have hpending := Frame.finish?_pending reader.frames operand
    rw [hwhole] at hpending
    obtain ⟨out, hstack, hemitted⟩ := hpending
    refine ⟨out, ?_, ?_⟩
    · rw [convert, stack, hstack]
    · rw [emitted, hoperand, hemitted]
      rfl
  | cons element rest ih =>
    obtain ⟨next, hstep, hrest⟩ := Option.bind_eq_some_iff.1 hrun
    obtain ⟨first, hemitted, hconvert⟩ := step?_convert hstep
    obtain ⟨out, hout, hall⟩ := ih hrest
    refine ⟨first ++ out, ?_, ?_⟩
    · rw [hconvert, hout]
      rfl
    · rw [← hall, hemitted, List.append_assoc]

end TreeReader

namespace OperatorTree

theorem toPostfix_of_read? {elements : List Element} {t : OperatorTree} (h : read? elements = some t) :
    Element.toPostfix elements = .ok t.postOrder := by
  obtain ⟨reader, hrun, hfinish⟩ := Option.bind_eq_some_iff.1 h
  obtain ⟨out, hout, hall⟩ := TreeReader.run?_convert hrun hfinish
  exact hout.trans (congrArg Except.ok hall)

theorem value_of_read? {elements : List Element} {t : OperatorTree} (h : read? elements = some t) :
    Expression.value elements = t.eval := by
  have hrun := run_postOrder t (grouped_of_read? h).1 [] []
  rw [List.append_nil] at hrun
  rw [Expression.value, toPostfix_of_read? h]
  change (Instruction.run [] t.postOrder >>= Instruction.result) = t.eval
  rw [hrun]
  cases t.eval <;> rfl

/-- A grouped tree comes out of the converter in postfix order, and the expression that it is written as has its
value, or fails with its first error at the line of the expression. -/
theorem calculate_written (t : OperatorTree) (ht : t.Grouped) :
    Element.toPostfix t.written = .ok t.postOrder ∧
      ∀ line, Expression.calculate ⟨t.written, line⟩ = t.eval.mapError (·.at line) := by
  have hread := read?_written ht
  refine ⟨toPostfix_of_read? hread, fun line => ?_⟩
  rw [Expression.calculate, value_of_read? hread]

/-- The expression `2 ** +3 ** 1 * 5`. -/
theorem calculate_power_sign_power :
    (binary .mul (binary .power (value (.int 2)) (unary .plus (binary .power (value (.int 3)) (value (.int 1)))))
      (value (.int 5))).Grouped ∧
    Element.toPostfix [.value (.int 2), .operator .power, .operator .plus, .value (.int 3), .operator .power,
      .value (.int 1), .operator .mul, .value (.int 5)] =
        .ok [.push (.int 2), .push (.int 3), .push (.int 1), .apply .power, .apply .plus, .apply .power,
          .push (.int 5), .apply .mul] ∧
    ∀ line, Expression.calculate ⟨[.value (.int 2), .operator .power, .operator .plus, .value (.int 3),
      .operator .power, .value (.int 1), .operator .mul, .value (.int 5)], line⟩ = .ok (.int 40) :=
  ⟨by decide, calculate_written (binary .mul (binary .power (value (.int 2)) (unary .plus (binary .power
    (value (.int 3)) (value (.int 1))))) (value (.int 5))) (by decide)⟩

end OperatorTree

end GradualScript
