import GradualScript.Proofs.Tandem.Statement

/-!
# Bodies and programs that are run twice

* `terminated_of_tokenize` : the tokens of a text end with the end of input;
* `Executor.within` : the executor of the language, with a number of steps for each body (`block_eq_within`);
* `paired_within` : bodies go alike with any numbers of steps and levels that are large enough;
* `goes_evaluateWith` : programs.
-/

set_option autoImplicit false

namespace GradualScript

open Context (Abreast)

variable {S : Nat → ScopeStack → ScopeStack → Prop} {p : List Token → Prop} {k r n : Nat} {context other : Context}
  {α : Type} {V : α → Prop}

/-! ## Tokens of a body -/

/-- The tokens of a source end with the end of input. -/
theorem terminated_of_tokenize {source : Source} {tokens : List Token} (h : source.tokenize = .ok tokens) :
    Token.Terminated tokens := by
  unfold Source.tokenize at h
  split at h
  · cases h
    simp [Token.Terminated, Lexing.finish]
  · cases h

theorem Cursor.ofTokens?_of_terminated {token : Token} {rest : List Token} (h : Token.Terminated (token :: rest)) :
    ofTokens? (token :: rest) = some ⟨[], token, rest⟩ := by
  rw [ofTokens?, if_pos]
  simpa [Token.Terminated, List.getLast?_cons] using h

/-- Tokens can be walked over if they end with the end of input. -/
theorem Cursor.not_terminated_of_ofTokens? {tokens : List Token} (h : Cursor.ofTokens? tokens = none) :
    ¬Token.Terminated tokens := by
  cases tokens with
  | nil => simp [Token.Terminated]
  | cons token rest =>
    rw [Cursor.ofTokens?] at h
    split at h
    · cases h
    · rename_i hkind
      simpa [Token.Terminated, List.getLast?_cons] using hkind

theorem Cursor.length_of_ofTokens? {tokens : List Token} {cursor : Cursor} (h : Cursor.ofTokens? tokens = some cursor) :
    cursor.rest.length + 1 = tokens.length := by
  cases tokens with
  | nil => cases h
  | cons token rest =>
    rw [Cursor.ofTokens?] at h
    split at h
    · cases h
      rfl
    · cases h

/-! ## Executors -/

/-- The executor of the language, when the statements of each body are given a number of steps of its own. -/
def Executor.within (steps : List Token → Nat) : Nat → Executor
  | 0, _, _ => ContextM.fault .outOfSteps
  | levels + 1, body, bindings => ContextM.inScope do
    ContextM.declareAll 0 bindings
    match Cursor.ofTokens? body with
    | some cursor => ContextM.walk cursor (WalkM.statementsFrom (within steps levels) (steps body) .eof .unit)
    | none => ContextM.fault .unterminatedTokens

/-- The language gives a body as many steps as it has tokens. -/
theorem Executor.block_eq_within (levels : Nat) : Executor.block levels = Executor.within List.length levels := by
  induction levels with
  | zero => rfl
  | succ levels ih =>
    funext body bindings
    rw [Executor.block, Executor.within, ih]
    cases hcursor : Cursor.ofTokens? body with
    | none => rfl
    | some cursor =>
      rw [← Cursor.length_of_ofTokens? hcursor]
      rfl

theorem Executor.steady_within (steps : List Token → Nat) (levels : Nat) : (Executor.within steps levels).Steady := by
  induction levels with
  | zero => exact fun body bindings => Keeps.throw _
  | succ levels ih =>
    intro body bindings
    refine ContextM.keeps_inScope (Keeps.bind (ContextM.keeps_declareAll 0 bindings) fun _ => ?_)
    split
    · exact ContextM.keeps_walk _ (WalkM.growing_statementsFrom ih _ _)
    · exact Keeps.throw _

theorem ContextM.goes_walk {cursor : Cursor} {body body' : WalkM α}
    (h : WalkM.Goes (Abreast S p k r) p n V (body ⟨cursor, context⟩) (body' ⟨cursor, other⟩)) :
    Goes S p k r V (walk cursor body context) (walk cursor body' other) := by
  rw [walk, walk]
  generalize body ⟨cursor, context⟩ = result, body' ⟨cursor, other⟩ = result' at h
  cases h with
  | ok hv hr => exact .ok hv hr.2.2
  | error hf he => exact .error hf he.2

/-- Bodies go alike with as many steps as they have tokens or more, at all levels that are more than the calls that may
be nested. -/
theorem Executor.paired_within (hS : Tandem S p) {steps steps' : List Token → Nat}
    (hsteps : ∀ body, body.length ≤ steps body) (hsteps' : ∀ body, body.length ≤ steps' body) {levels levels' : Nat}
    (hlevels : r < levels) (hlevels' : r < levels') :
    (Executor.within steps levels).Paired S p r (Executor.within steps' levels') := by
  induction levels generalizing r levels' with
  | zero => exact absurd hlevels (Nat.not_lt_zero r)
  | succ levels ih =>
    obtain ⟨levels', rfl⟩ : ∃ m, levels' = m + 1 := ⟨levels' - 1, by omega⟩
    intro k context other body bindings hc hbody hbindings
    rw [Executor.within, Executor.within]
    refine ContextM.goes_inScope hS (fun {context other} hc => ?_) hc
    refine (ContextM.goes_declareAll (hS.declare k) 0 hbindings hc).bind fun _ context other _ hc => ?_
    cases hcursor : Cursor.ofTokens? body with
    | none => exact .error ⟨rfl, body, hbody, Cursor.not_terminated_of_ofTokens? hcursor⟩ hc
    | some cursor =>
      -- a call in the body leaves room for one call less, and so it may have one level less
      have hcouples : ∀ k, (Executor.within steps levels).Couples (Executor.within steps' levels')
          (Abreast S p k r) p :=
        fun k => couples_of_paired hS (Executor.steady_within steps levels) fun s hs => ih (by omega) (by omega)
      have hwithin : cursor.Within body.length :=
        ⟨Cursor.terminated_of_ofTokens? hcursor, Nat.lt_of_succ_le (Cursor.length_of_ofTokens? hcursor).le⟩
      exact ContextM.goes_walk (WalkM.coupled_statementsFrom hS hcouples (hS.declare k) (hsteps body) (hsteps' body)
        .eof Item.bare_unit.bodiesIn _ (Nat.le_refl _) cursor context other hwithin hc)

/-- A program, when the tokens of its text end as they should. -/
theorem goes_evaluateWith {executor executor' : Executor} (hpaired : executor.Paired S p r executor')
    (hcaptures : ∀ tokens, Token.Terminated tokens → p tokens) (text : String) (hc : Abreast S p k r context other) :
    ContextM.Goes S p k r (·.BodiesIn p) (evaluateWith executor text context) (evaluateWith executor' text other) := by
  rw [evaluateWith, evaluateWith]
  cases htokens : (Source.ofText text).tokenize with
  | error error => exact .error trivial hc
  | ok tokens =>
    refine (hpaired tokens [] hc (hcaptures _ (terminated_of_tokenize htokens)) (by simp)).bind
      fun outcome context other houtcome hc => ?_
    exact .ok houtcome hc

end GradualScript
