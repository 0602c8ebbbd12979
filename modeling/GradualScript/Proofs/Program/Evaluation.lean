import GradualScript.Proofs.Program.Forms
import GradualScript.Proofs.Program.Skipping

/-!
# Expressions have the values they mean

* `resolves_term`, `grouped_resolve` : a valid expression is resolved to a grouped tree;
* `reads_term`, `reads_phrase` : all expressions are read as they are resolved;
* `gives_evaluation` : reading an expression gives its value.
-/

set_option autoImplicit false

namespace GradualScript

open Cursor CursorM

variable {executor : Executor} {context : Context}

/-! ## All expressions -/

/-- An effect that is resolved to a grouped tree, with the given operator at its root. -/
def Resolves (meaning : Effect OperatorTree) (root? : Option Operator) : Prop :=
  ∀ scopes tree later, meaning scopes = .ok tree later → tree.Grouped ∧ tree.root? = root?

theorem resolves_value (M : Effect Item) : Resolves (do return .value (← M)) none := by
  intro scopes tree later h
  obtain ⟨item, middle, -, htree⟩ := bind_eq_ok.1 h
  cases htree
  exact ⟨trivial, rfl⟩

variable {registry : Registry}

mutual

/-- Values in place of names and calls do not change which parentheses are needed. -/
theorem resolves_term : ∀ (term : Term), term.Valid registry → Resolves (term.resolve registry) term.root?
  | .literal literal, _ => resolves_value _
  | .name name, _ => resolves_value _
  | .call function arguments, _ => by
    intro scopes tree later h
    obtain ⟨items, middle, -, h⟩ := bind_eq_ok.1 h
    exact resolves_value _ _ _ _ h
  | .paren inner, hvalid => by
    intro scopes tree later h
    obtain ⟨inside, middle, hinside, htree⟩ := bind_eq_ok.1 h
    cases htree
    have hgrouped := grouped_resolve inner hvalid _ _ _ hinside
    exact ⟨hgrouped, rfl⟩
  | .unary op operand, hvalid => by
    intro scopes tree later h
    obtain ⟨hop, htakes, hvalid⟩ := hvalid
    obtain ⟨inside, middle, hinside, htree⟩ := bind_eq_ok.1 h
    cases htree
    obtain ⟨hgrouped, hroot⟩ := resolves_term operand hvalid _ _ _ hinside
    exact ⟨⟨hop, by rw [hroot]; exact htakes, hgrouped⟩, rfl⟩
  | .binary op left right, hvalid => by
    intro scopes tree later h
    obtain ⟨hop, hleft, hright, hvalid, hvalid'⟩ := hvalid
    obtain ⟨x, middle, hx, h⟩ := bind_eq_ok.1 h
    obtain ⟨y, last, hy, htree⟩ := bind_eq_ok.1 h
    cases htree
    obtain ⟨hgrouped, hroot⟩ := resolves_term left hvalid _ _ _ hx
    obtain ⟨hgrouped', hroot'⟩ := resolves_term right hvalid' _ _ _ hy
    exact ⟨⟨hop, by rw [hroot]; exact hleft, by rw [hroot']; exact hright, hgrouped, hgrouped'⟩, rfl⟩

theorem grouped_resolve : ∀ (phrase : Phrase), phrase.Valid registry → ∀ scopes tree later,
    phrase.resolve registry scopes = .ok tree later → tree.Grouped
  | .term term, hvalid, _, _, _, h => (resolves_term term hvalid _ _ _ h).1
  | .assignment name value, _, _, _, _, h => (resolves_value _ _ _ _ h).1
  | .ternary condition positive negative, _, _, _, _, h => by
    obtain ⟨item, middle, -, h⟩ := bind_eq_ok.1 h
    exact (resolves_value _ _ _ _ h).1

end

/-- An expression that is read as it is resolved has its value. -/
theorem values_of_reads (phrase : Phrase) {tokens following : List Token} (hvalid : phrase.Valid registry)
    (h : tokens.map Token.face = phrase.faces) (hstops : Stops following)
    (hreads : Reads executor context (phrase.resolve registry) tokens following) :
    Values executor context (phrase.value registry) tokens following :=
  hreads.values (grouped_resolve phrase hvalid) (ended_phrase phrase h) (started_phrase phrase hvalid h) hstops

mutual

theorem reads_term (hsteady : executor.Steady) : ∀ (term : Term) {tokens following : List Token},
    term.Valid context.registry → tokens.map Token.face = term.faces → Clear following →
    Reads executor context (term.resolve context.registry) tokens following
  | .literal literal, _, _, _, h, hclear => by
    obtain ⟨token, rfl, htoken⟩ := List.map_eq_singleton_iff.1 h
    exact reads_literal literal (Token.kind_of_face htoken) (Token.text_of_face htoken literal.isSpelled) hclear
  | .name name, _, _, _, h, hclear => by
    obtain ⟨token, rfl, htoken⟩ := List.map_eq_singleton_iff.1 h
    obtain rfl : token.text = name := Token.text_of_face htoken rfl
    exact reads_name (Token.kind_of_face htoken) hclear
  | .call function arguments, _, _, hvalid, h, hclear => by
    obtain ⟨name, _, rfl, hname, h⟩ := List.map_eq_cons_iff.1 h
    obtain ⟨opening, _, rfl, hopening, h⟩ := List.map_eq_cons_iff.1 h
    obtain ⟨values, _, rfl, hvalues, h⟩ := List.map_eq_append_iff.1 h
    obtain ⟨closing, rfl, hclosing⟩ := List.map_eq_singleton_iff.1 h
    obtain rfl : name.text = function := Token.text_of_face hname rfl
    have hargues : values = [] ∧ argumentValues context.registry arguments = pure [] ∨
        Started values ∧ Argues executor context (argumentValues context.registry arguments) values := by
      by_cases hnil : arguments = []
      · rw [hnil] at hvalues ⊢
        exact .inl ⟨List.map_eq_nil_iff.1 hvalues, rfl⟩
      · exact .inr (argues_arguments hsteady arguments hvalid.2 hvalues hnil)
    have hcall := reads_call (Token.kind_of_face hname) (Token.kind_of_face hopening) (Token.kind_of_face hclosing)
      hclear.ne_nil hvalid.1 hargues
    rw [bind_assoc] at hcall
    exact hcall
  | .paren inner, _, _, hvalid, h, hclear => by
    obtain ⟨opening, _, rfl, hopening, h⟩ := List.map_eq_cons_iff.1 h
    obtain ⟨values, _, rfl, hvalues, h⟩ := List.map_eq_append_iff.1 h
    obtain ⟨closing, rfl, hclosing⟩ := List.map_eq_singleton_iff.1 h
    have hclosing : closing.kind = .closing .round := Token.kind_of_face hclosing
    refine reads_paren (Token.kind_of_face hopening) hclosing hclear.ne_nil ?_
    exact reads_phrase hsteady inner hvalid hvalues (.mark (by rw [hclosing]; rfl) (by simp [hclosing]))
  | .unary op operand, _, _, hvalid, h, hclear => by
    obtain ⟨operator, _, rfl, hoperator, h⟩ := List.map_eq_cons_iff.1 h
    exact reads_unary (Token.kind_of_face hoperator) (Token.text_of_face hoperator rfl) hclear.ne_nil
      (reads_term hsteady operand hvalid.2.2 h hclear)
  | .binary op left right, _, _, hvalid, h, hclear => by
    obtain ⟨lefts, _, rfl, hleft, h⟩ := List.map_eq_append_iff.1 h
    obtain ⟨operator, _, rfl, hoperator, h⟩ := List.map_eq_cons_iff.1 h
    have hkind : operator.kind = .operator := Token.kind_of_face hoperator
    -- behind the left operand stands the operator, which leaves it alone but does not end the expression
    refine reads_binary hkind (Token.text_of_face hoperator rfl) hvalid.1 hclear.ne_nil ?_
      (reads_term hsteady right hvalid.2.2.2.2 h hclear)
    exact reads_term hsteady left hvalid.2.2.2.1 hleft (clear_cons (by simp [hkind]))

theorem reads_phrase (hsteady : executor.Steady) : ∀ (phrase : Phrase) {tokens following : List Token},
    phrase.Valid context.registry → tokens.map Token.face = phrase.faces → Stops following →
    Reads executor context (phrase.resolve context.registry) tokens following
  | .term term, _, _, hvalid, h, hstops => reads_term hsteady term hvalid h hstops.clear
  | .assignment name value, _, following, hvalid, h, hstops => by
    obtain ⟨target, _, rfl, htarget, hrest⟩ := List.map_eq_cons_iff.1 h
    obtain ⟨sign, values, rfl, hsign, hvalue⟩ := List.map_eq_cons_iff.1 hrest
    obtain rfl : target.text = name := Token.text_of_face htarget rfl
    exact reads_assignment hsteady (Token.kind_of_face htarget) (Token.kind_of_face hsign) hstops.clear.ne_nil
      (values_of_reads value hvalid hvalue hstops (reads_phrase hsteady value hvalid hvalue hstops))
  | .ternary condition positive negative, _, following, hvalid, h, hstops => by
    obtain ⟨keyword, _, rfl, hkeyword, h⟩ := List.map_eq_cons_iff.1 h
    obtain ⟨opening, _, rfl, hopening, h⟩ := List.map_eq_cons_iff.1 h
    obtain ⟨conditions, _, rfl, hcondition, h⟩ := List.map_eq_append_iff.1 h
    obtain ⟨closing, _, rfl, hclosing, h⟩ := List.map_eq_cons_iff.1 h
    obtain ⟨positives, _, rfl, hpositive, h⟩ := List.map_eq_append_iff.1 h
    obtain ⟨alternative, negatives, rfl, halternative, h⟩ := List.map_eq_cons_iff.1 h
    obtain ⟨hvalid, hvalid', hvalid''⟩ := hvalid
    have hclosing : closing.kind = .closing .round := Token.kind_of_face hclosing
    have helse := Token.isKeywordOf_of_face halternative
    have hmark : Stops (closing :: (positives ++ alternative :: (negatives ++ following))) :=
      .mark (by rw [hclosing]; rfl) (by simp [hclosing])
    have helse' : Stops (alternative :: (negatives ++ following)) := .alternative helse
    have hternary := reads_ternary (Token.isKeywordOf_of_face hkeyword) (Token.kind_of_face hopening) hclosing helse
      (List.append_ne_nil_of_right_ne_nil negatives hstops.clear.ne_nil)
      (values_of_reads condition hvalid hcondition hmark (reads_phrase hsteady condition hvalid hcondition hmark))
      (values_of_reads positive hvalid' hpositive helse' (reads_phrase hsteady positive hvalid' hpositive helse'))
      (skipExpression_phrase positive hvalid' hpositive helse')
      (values_of_reads negative hvalid'' h hstops (reads_phrase hsteady negative hvalid'' h hstops))
      (skipExpression_phrase negative hvalid'' h hstops)
    rw [bind_assoc] at hternary
    exact hternary

theorem argues_arguments (hsteady : executor.Steady) : ∀ (arguments : List Phrase) {tokens : List Token},
    argumentsValid context.registry arguments → tokens.map Token.face = argumentFaces arguments →
    arguments ≠ [] → Started tokens ∧ Argues executor context (argumentValues context.registry arguments) tokens
  | [], _, _, _, hne => absurd rfl hne
  | [last], _, hvalid, h, _ => by
    refine ⟨started_phrase last hvalid.1 h, argues_last (ended_phrase last h).length_pos fun _ hstops => ?_⟩
    exact values_of_reads last hvalid.1 h hstops (reads_phrase hsteady last hvalid.1 h hstops)
  | first :: second :: rest, _, hvalid, h, _ => by
    obtain ⟨values, _, rfl, hfirst, h⟩ := List.map_eq_append_iff.1 h
    obtain ⟨comma, others, rfl, hcomma, h⟩ := List.map_eq_cons_iff.1 h
    obtain ⟨-, hothers⟩ := argues_arguments hsteady (second :: rest) hvalid.2 h (List.cons_ne_nil _ _)
    refine ⟨(started_phrase first hvalid.1 hfirst).append _, argues_cons (Token.kind_of_face hcomma) ?_ hothers⟩
    intro _ hstops
    exact values_of_reads first hvalid.1 hfirst hstops (reads_phrase hsteady first hvalid.1 hfirst hstops)

end

/-- The value of an expression, read from tokens. -/
theorem gives_evaluation (hsteady : executor.Steady) (phrase : Phrase) {tokens following : List Token}
    (hvalid : phrase.Valid context.registry) (h : tokens.map Token.face = phrase.faces) (hstops : Stops following)
    (before : List Token) (scopes : ScopeStack) :
    Gives context (phrase.value context.registry scopes) (onto (tokens.reverse ++ before) following)
      (WalkM.evaluation executor ⟨onto before (tokens ++ following), context.withScopes scopes⟩) := by
  have hvalues := values_of_reads phrase hvalid h hstops (reads_phrase hsteady phrase hvalid h hstops)
  have hvalue := hvalues (tokens ++ following).length before scopes (Nat.le_refl _)
  obtain ⟨token, rest, rfl, hstarts, -⟩ := started_phrase phrase hvalid h
  rw [List.cons_append, onto_cons (ne_of_startsOperand hstarts).1] at hvalue ⊢
  exact hvalue

end GradualScript
