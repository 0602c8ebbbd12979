import GradualScript.Proofs.OperatorTree.Counting

/-!
# Parentheses of an expression

The parentheses that wait on the stack of the converter are those that have been opened and not closed. So the
converter fails exactly where parentheses do not match.

* `Element.Fits`, `Element.Balanced` : parentheses that never close more than is open, and that also close all;
* `Postfix.depth` : the parentheses that wait (`depth_enter`, `depth_of_close?`, …);
* `convert_verdict` : how the converter ends, from any stack;
* `toPostfix_conserves` : it succeeds on balanced parentheses only, and then keeps values and operators.
-/

set_option autoImplicit false

namespace GradualScript

open Postfix (Pending release enter convert close? finish?)

namespace Element

def isOpenParen : Element → Bool
  | openParen => true
  | _ => false

def isCloseParen : Element → Bool
  | closeParen => true
  | _ => false

/-- The number of opening parentheses. -/
def opened (elements : List Element) : Nat :=
  elements.countP isOpenParen

/-- The number of closing parentheses. -/
def closed (elements : List Element) : Nat :=
  elements.countP isCloseParen

/-- When `n` parentheses are open before the elements, none of their prefixes closes more than is open. -/
def Fits (n : Nat) (elements : List Element) : Prop :=
  ∀ start, start <+: elements → closed start ≤ n + opened start

/-- No prefix closes more parentheses than it opens, and all that are opened are closed. -/
structure Balanced (elements : List Element) : Prop where
  fits : ∀ start, start <+: elements → closed start ≤ opened start
  total : opened elements = closed elements

variable {element : Element} {rest : List Element} {n : Nat}

theorem opened_cons (element : Element) (rest : List Element) :
    opened (element :: rest) = opened [element] + opened rest := by
  show ([element] ++ rest).countP isOpenParen = _
  exact List.countP_append

theorem closed_cons (element : Element) (rest : List Element) :
    closed (element :: rest) = closed [element] + closed rest := by
  show ([element] ++ rest).countP isCloseParen = _
  exact List.countP_append

theorem fits_nil (n : Nat) : Fits n [] := by
  intro start hstart
  rw [List.prefix_nil.1 hstart]
  exact Nat.zero_le _

/-- The first element takes its part of what is open, and the rest fits into what is open behind it. -/
theorem fits_cons {m : Nat} (h : m + closed [element] = n + opened [element]) :
    Fits n (element :: rest) ↔ Fits m rest := by
  constructor
  · intro hfits start hstart
    have hlonger := hfits (element :: start) (List.cons_prefix_cons.2 ⟨rfl, hstart⟩)
    rw [opened_cons, closed_cons] at hlonger
    omega
  · intro hfits start hstart
    rcases List.prefix_cons_iff.1 hstart with rfl | ⟨shorter, rfl, hshorter⟩
    · exact Nat.zero_le _
    · have hrest := hfits shorter hshorter
      rw [opened_cons, closed_cons]
      omega

/-- Nothing can be closed where nothing is open. -/
theorem not_fits_closeParen (rest : List Element) : ¬Fits 0 (closeParen :: rest) := by
  intro hfits
  have hone : (1 : Nat) ≤ 0 := hfits [closeParen] (List.cons_prefix_cons.2 ⟨rfl, List.nil_prefix⟩)
  omega

theorem balanced_iff (elements : List Element) :
    Balanced elements ↔ Fits 0 elements ∧ opened elements = closed elements := by
  constructor
  · intro h
    exact ⟨fun start hstart => by rw [Nat.zero_add]; exact h.fits start hstart, h.total⟩
  · rintro ⟨hfits, htotal⟩
    refine ⟨fun start hstart => ?_, htotal⟩
    have hle := hfits start hstart
    omega

end Element

/-! ## Parentheses on the stack -/

namespace Postfix

/-- How many parentheses wait. -/
def depth (stack : List Pending) : Nat :=
  stack.countP (· = .paren)

theorem depth_operator (op : Operator) (stack : List Pending) : depth (.operator op :: stack) = depth stack :=
  List.countP_cons_of_neg (by simp)

theorem depth_paren (stack : List Pending) : depth (.paren :: stack) = depth stack + 1 :=
  List.countP_cons_of_pos (by simp)

theorem depth_release (next : Operator) (stack : List Pending) : depth (release next stack).2 = depth stack := by
  induction stack with
  | nil => rfl
  | cons top stack ih =>
    cases top with
    | paren => rfl
    | operator op =>
      rw [release]
      split
      · rw [depth_operator, ← ih]
        rfl
      · rfl

/-- Operators come and go without a parenthesis being closed. -/
theorem depth_enter (op : Operator) (stack : List Pending) : depth (enter op stack).2 = depth stack := by
  unfold enter
  split
  · exact depth_operator op stack
  · exact (depth_operator op (release op stack).2).trans (depth_release op stack)

theorem depth_of_close? {stack below : List Pending} {out : List Instruction} (h : close? stack = some (out, below)) :
    depth stack = depth below + 1 := by
  induction stack generalizing out with
  | nil => cases h
  | cons top stack ih =>
    cases top with
    | paren =>
      cases h
      exact depth_paren below
    | operator op =>
      obtain ⟨⟨more, under⟩, hrest, heq⟩ := Option.map_eq_some_iff.1 h
      cases heq
      rw [depth_operator]
      exact ih hrest

theorem depth_of_close?_none {stack : List Pending} (h : close? stack = none) : depth stack = 0 := by
  induction stack with
  | nil => rfl
  | cons top stack ih =>
    cases top with
    | paren => cases h
    | operator op =>
      rw [depth_operator]
      exact ih (Option.map_eq_none_iff.1 h)

theorem depth_of_finish? {stack : List Pending} {out : List Instruction} (h : finish? stack = some out) :
    depth stack = 0 := by
  induction stack generalizing out with
  | nil => rfl
  | cons top stack ih =>
    cases top with
    | paren => cases h
    | operator op =>
      obtain ⟨more, hrest, -⟩ := Option.map_eq_some_iff.1 h
      rw [depth_operator]
      exact ih hrest

theorem depth_of_finish?_none {stack : List Pending} (h : finish? stack = none) : 0 < depth stack := by
  induction stack with
  | nil => cases h
  | cons top stack ih =>
    cases top with
    | paren =>
      rw [depth_paren]
      omega
    | operator op =>
      rw [depth_operator]
      exact ih (Option.map_eq_none_iff.1 h)

/-! ## How the converter ends -/

/-- How the converter ends on elements before which `n` parentheses are open: at a parenthesis that closes nothing, at
the end with some still open, or at the end with all closed. -/
inductive Verdict (n : Nat) (elements : List Element) : Except ErrorKind (List Instruction) → Prop where
  | overclosed : ¬Element.Fits n elements → Verdict n elements (.error (.unexpectedToken ")"))
  | unclosed : Element.Fits n elements → Element.closed elements < n + Element.opened elements →
      Verdict n elements (.error (.unexpectedToken "("))
  | matched {code : List Instruction} : Element.Fits n elements →
      n + Element.opened elements = Element.closed elements → Verdict n elements (.ok code)

/-- An element that leaves `m` parentheses open passes on how the rest ends. What is put out makes no difference. -/
theorem Verdict.cons {n m : Nat} {element : Element} {rest : List Element}
    {result : Except ErrorKind (List Instruction)} (h : Verdict m rest result)
    (hopen : m + Element.closed [element] = n + Element.opened [element]) (out : List Instruction → List Instruction) :
    Verdict n (element :: rest) (result.map out) := by
  have hopened := Element.opened_cons element rest
  have hclosed := Element.closed_cons element rest
  cases h with
  | overclosed hfits => exact .overclosed fun hall => hfits ((Element.fits_cons hopen).1 hall)
  | unclosed hfits hlt => exact .unclosed ((Element.fits_cons hopen).2 hfits) (by omega)
  | matched hfits htotal => exact .matched ((Element.fits_cons hopen).2 hfits) (by omega)

theorem convert_verdict (stack : List Pending) (elements : List Element) :
    Verdict (depth stack) elements (convert stack elements) := by
  induction elements generalizing stack with
  | nil =>
    rw [convert]
    split
    · rename_i hfinish
      exact .matched (Element.fits_nil _) (depth_of_finish? hfinish)
    · rename_i hfinish
      exact .unclosed (Element.fits_nil _) (depth_of_finish?_none hfinish)
  | cons element rest ih =>
    cases element with
    | value item =>
      rw [convert_value]
      exact (ih stack).cons rfl _
    | operator op =>
      rw [convert_operator]
      have hrest := ih (enter op stack).2
      rw [depth_enter] at hrest
      exact hrest.cons rfl _
    | openParen =>
      have hrest := ih (.paren :: stack)
      rw [depth_paren] at hrest
      have hall : Verdict (depth stack) (.openParen :: rest) ((convert (.paren :: stack) rest).map id) :=
        hrest.cons rfl id
      rw [Except.map_id] at hall
      rw [convert]
      exact hall
    | closeParen =>
      cases hclose : close? stack with
      | none =>
        have hresult : convert stack (.closeParen :: rest) = .error (.unexpectedToken ")") := by
          rw [convert, hclose]
        rw [hresult, depth_of_close?_none hclose]
        exact .overclosed (Element.not_fits_closeParen rest)
      | some pair =>
        obtain ⟨out, below⟩ := pair
        rw [convert_closeParen hclose, depth_of_close? hclose]
        exact (ih below).cons rfl _

end Postfix

/-! ## Whole expressions -/

/-- An instruction as an entry of an expression. -/
def Instruction.element : Instruction → Element
  | push item => .value item
  | apply op => .operator op

namespace Instruction

theorem items_map_element (code : List Instruction) : Element.items (code.map element) = items code := by
  unfold Element.items items
  rw [List.filterMap_map]
  congr 1
  funext instruction
  cases instruction <;> rfl

theorem operators_map_element (code : List Instruction) : Element.operators (code.map element) = operators code := by
  unfold Element.operators operators
  rw [List.filterMap_map]
  congr 1
  funext instruction
  cases instruction <;> rfl

theorem opened_map_element (code : List Instruction) : Element.opened (code.map element) = 0 := by
  unfold Element.opened
  rw [List.countP_eq_zero]
  intro entry hentry
  obtain ⟨instruction, -, rfl⟩ := List.mem_map.1 hentry
  cases instruction <;> exact Bool.false_ne_true

theorem closed_map_element (code : List Instruction) : Element.closed (code.map element) = 0 := by
  unfold Element.closed
  rw [List.countP_eq_zero]
  intro entry hentry
  obtain ⟨instruction, -, rfl⟩ := List.mem_map.1 hentry
  cases instruction <;> exact Bool.false_ne_true

end Instruction

theorem Element.toPostfix_verdict (elements : List Element) : Postfix.Verdict 0 elements (toPostfix elements) :=
  Postfix.convert_verdict [] elements

theorem Element.exists_toPostfix_iff (elements : List Element) :
    (∃ code, toPostfix elements = .ok code) ↔ Balanced elements := by
  have hverdict := toPostfix_verdict elements
  constructor
  · rintro ⟨code, hcode⟩
    rw [hcode] at hverdict
    cases hverdict with
    | matched hfits htotal => exact (balanced_iff elements).2 ⟨hfits, by omega⟩
  · intro hbalanced
    obtain ⟨hfits, htotal⟩ := (balanced_iff elements).1 hbalanced
    cases hresult : toPostfix elements with
    | ok code => exact ⟨code, rfl⟩
    | error kind =>
      rw [hresult] at hverdict
      cases hverdict with
      | overclosed hnot => exact absurd hfits hnot
      | unclosed _ hlt => omega

theorem Element.unexpected_of_toPostfix {elements : List Element} {kind : ErrorKind}
    (h : toPostfix elements = .error kind) :
    (∃ start, start <+: elements ∧ opened start < closed start) ∧ kind = .unexpectedToken ")" ∨
      (∀ start, start <+: elements → closed start ≤ opened start) ∧ kind = .unexpectedToken "(" := by
  have hverdict := toPostfix_verdict elements
  rw [h] at hverdict
  cases hverdict with
  | overclosed hnot =>
    left
    obtain ⟨start, hstart⟩ := Classical.not_forall.1 hnot
    obtain ⟨hle, hlt⟩ := Classical.not_imp.1 hstart
    exact ⟨⟨start, hle, by omega⟩, rfl⟩
  | unclosed hfits _ =>
    right
    refine ⟨fun start hstart => ?_, rfl⟩
    have hle := hfits start hstart
    omega

/-- The converter succeeds exactly on balanced parentheses. It reports a closing parenthesis if some prefix has too many
of them, and an opening one otherwise. It puts out no parenthesis, the values in order, and the operators in some order.
An expression has a value only if it has one value more than binary operators. -/
theorem toPostfix_conserves (elements : List Element) :
    ((∃ code, Element.toPostfix elements = .ok code) ↔ Element.Balanced elements) ∧
    (∀ kind, Element.toPostfix elements = .error kind →
      ((∃ start, start <+: elements ∧ Element.opened start < Element.closed start) ∧ kind = .unexpectedToken ")" ∨
        (∀ start, start <+: elements → Element.closed start ≤ Element.opened start) ∧ kind = .unexpectedToken "(")) ∧
    (∀ code, Element.toPostfix elements = .ok code →
      Element.opened (code.map Instruction.element) = 0 ∧ Element.closed (code.map Instruction.element) = 0 ∧
      Element.items (code.map Instruction.element) = Element.items elements ∧
      (Element.operators (code.map Instruction.element)).Perm (Element.operators elements)) ∧
    ∀ line item, Expression.calculate ⟨elements, line⟩ = .ok item →
      (Element.items elements).length = Operator.binaryCount (Element.operators elements) + 1 := by
  refine ⟨Element.exists_toPostfix_iff elements, fun kind h => Element.unexpected_of_toPostfix h, ?_, ?_⟩
  · intro code hcode
    obtain ⟨hitems, hoperators⟩ := Postfix.convert_conserves hcode
    rw [Instruction.items_map_element, Instruction.operators_map_element]
    exact ⟨Instruction.opened_map_element code, Instruction.closed_map_element code, hitems, hoperators⟩
  · intro line item hvalue
    exact items_length_of_value (Expression.value_of_calculate hvalue)

/-- A parenthesis that closes nothing is reported, though another one stays open behind it. -/
example : Element.toPostfix [.closeParen, .openParen, .value .unit] = .error (.unexpectedToken ")") := rfl

end GradualScript
