import GradualScript.Proofs.Cursor.Placing

/-!
# The grammar of lambdas

The head of a lambda is read token by token, and each of them is read with the line breaks behind it. So the head is
read as if there were no line breaks.

* `Annotates`, `ListsParameters`, `NamesTypes`, `NamesReturns`, `HeadsLambda` : the tokens of a head without line
  breaks, with what they declare;
* `HeadsLambda.inHead`, `HeadsLambda.plain` : the kinds of these tokens, among which is no line break;
* `Cursor.Fronts` : the tokens from the cursor on, without line breaks; they tell its place (`Fronts.eq`);
* `Cursor.Faces` : the same, up to the end of input;
* `CursorM.Takes` : a reading takes tokens that spell its value off the front, or finds a token out of place
  (`takes_parameters`, `takes_returnTypes`, …);
* `CursorM.Gives` : a reading gives a value (`gives_parameters`, `gives_returnTypes`, …);
* `CursorM.lambdaHead` : the reading of a head (`lambda_eq`, `takes_lambdaHead`, `gives_lambdaHead`).
-/

set_option autoImplicit false

namespace GradualScript

/-- The tokens without line breaks. -/
def Token.plain (tokens : List Token) : List Token :=
  tokens.filter (·.kind ≠ .newline)

theorem Token.plain_append (tokens more : List Token) : plain (tokens ++ more) = plain tokens ++ plain more :=
  List.filter_append tokens more

theorem Token.plain_cons {token : Token} (h : token.kind ≠ .newline) (tokens : List Token) :
    plain (token :: tokens) = token :: plain tokens :=
  List.filter_cons_of_pos (by simpa using h)

/-- The set of the types with these names. `Any` names no type. -/
def TypeSet.ofNames (names : List String) : TypeSet :=
  names.foldl (fun types name => types.declare (.ofName name)) .any

/-! ## Heads -/

/-- A colon and the name of a type, or nothing. -/
inductive Annotates : List Token → DeclaredType → Prop where
  | absent : Annotates [] .any
  | typed {colon type : Token} : colon.kind = .colon → type.kind = .name →
      Annotates [colon, type] (.ofName type.text)

/-- Parameters with commas between them, and possibly one behind the last. -/
inductive ListsParameters : List Token → List Parameter → Prop where
  | none : ListsParameters [] []
  | last {name : Token} {typing : List Token} {type : DeclaredType} : name.kind = .name → Annotates typing type →
      ListsParameters (name :: typing) [⟨name.text, type⟩]
  | more {name comma : Token} {typing rest : List Token} {type : DeclaredType} {parameters : List Parameter} :
      name.kind = .name → Annotates typing type → comma.kind = .comma → ListsParameters rest parameters →
      ListsParameters (name :: (typing ++ comma :: rest)) (⟨name.text, type⟩ :: parameters)

/-- One or more names of types with commas between them. -/
inductive NamesTypes : List Token → List String → Prop where
  | last {name : Token} : name.kind = .name → NamesTypes [name] [name.text]
  | more {name comma : Token} {rest : List Token} {names : List String} : name.kind = .name → comma.kind = .comma →
      NamesTypes rest names → NamesTypes (name :: comma :: rest) (name.text :: names)

/-- An arrow with a type or with types in parentheses, or nothing. -/
inductive NamesReturns : List Token → List String → Prop where
  | absent : NamesReturns [] []
  | one {arrow type : Token} : arrow.kind = .arrow → type.kind = .name → NamesReturns [arrow, type] [type.text]
  | several {arrow opening closing : Token} {types : List Token} {names : List String} : arrow.kind = .arrow →
      opening.kind = .opening .round → NamesTypes types names → closing.kind = .closing .round →
      NamesReturns (arrow :: opening :: (types ++ [closing])) names

/-- The head of a lambda, up to the brace that opens its body. -/
inductive HeadsLambda : List Token → List Parameter → List String → Prop where
  | mk {keyword opening closing : Token} {listed returned : List Token} {parameters : List Parameter}
      {names : List String} : keyword.isKeywordOf "lambda" = true → opening.kind = .opening .round →
      ListsParameters listed parameters → closing.kind = .closing .round → NamesReturns returned names →
      HeadsLambda (keyword :: opening :: (listed ++ closing :: returned)) parameters names

/-! ## Kinds of tokens in a head -/

/-- The kinds of tokens in lists of parameters and of types. -/
def TokenKind.isListed : TokenKind → Bool
  | name | colon | comma => true
  | _ => false

/-- The kinds of tokens in the head of a lambda. -/
def TokenKind.inHead (kind : TokenKind) : Bool :=
  kind.isListed || kind = keyword || kind = arrow || kind = opening .round || kind = closing .round

theorem TokenKind.inHead_of_isListed {kind : TokenKind} (h : kind.isListed = true) : kind.inHead = true := by
  rw [inHead, h]
  rfl

theorem Annotates.isListed {tokens : List Token} {type : DeclaredType} (h : Annotates tokens type) :
    ∀ token ∈ tokens, token.kind.isListed = true := by
  cases h with
  | absent => nofun
  | typed hcolon hname => simp [hcolon, hname, TokenKind.isListed]

theorem ListsParameters.isListed {tokens : List Token} {parameters : List Parameter}
    (h : ListsParameters tokens parameters) : ∀ token ∈ tokens, token.kind.isListed = true := by
  induction h with
  | none => nofun
  | last hname htyping => exact List.forall_mem_cons.2 ⟨by rw [hname]; rfl, htyping.isListed⟩
  | more hname htyping hcomma _ ih =>
    refine List.forall_mem_cons.2 ⟨by rw [hname]; rfl, List.forall_mem_append.2 ⟨htyping.isListed, ?_⟩⟩
    exact List.forall_mem_cons.2 ⟨by rw [hcomma]; rfl, ih⟩

theorem NamesTypes.isListed {tokens : List Token} {names : List String} (h : NamesTypes tokens names) :
    ∀ token ∈ tokens, token.kind.isListed = true := by
  induction h with
  | last hname => simp [hname, TokenKind.isListed]
  | more hname hcomma _ ih =>
    exact List.forall_mem_cons.2 ⟨by rw [hname]; rfl, List.forall_mem_cons.2 ⟨by rw [hcomma]; rfl, ih⟩⟩

theorem NamesReturns.inHead {tokens : List Token} {names : List String} (h : NamesReturns tokens names) :
    ∀ token ∈ tokens, token.kind.inHead = true := by
  cases h with
  | absent => nofun
  | one harrow hname => simp [harrow, hname, TokenKind.inHead, TokenKind.isListed]
  | several harrow hopening hnames hclosing =>
    have hlisted := fun token htoken => TokenKind.inHead_of_isListed (hnames.isListed token htoken)
    refine List.forall_mem_cons.2 ⟨by rw [harrow]; rfl, List.forall_mem_cons.2 ⟨by rw [hopening]; rfl, ?_⟩⟩
    exact List.forall_mem_append.2 ⟨hlisted, by simp [hclosing, TokenKind.inHead]⟩

theorem HeadsLambda.inHead {head : List Token} {parameters : List Parameter} {names : List String}
    (h : HeadsLambda head parameters names) : ∀ token ∈ head, token.kind.inHead = true := by
  obtain ⟨hkeyword, hopening, hparameters, hclosing, hreturned⟩ := h
  have hlisted := fun token htoken => TokenKind.inHead_of_isListed (hparameters.isListed token htoken)
  refine List.forall_mem_cons.2 ⟨by rw [Cursor.kind_of_isKeywordOf hkeyword]; rfl, ?_⟩
  refine List.forall_mem_cons.2 ⟨by rw [hopening]; rfl, List.forall_mem_append.2 ⟨hlisted, ?_⟩⟩
  exact List.forall_mem_cons.2 ⟨by rw [hclosing]; rfl, hreturned.inHead⟩

/-- The head of a lambda has no line breaks. -/
theorem HeadsLambda.plain {head : List Token} {parameters : List Parameter} {names : List String}
    (h : HeadsLambda head parameters names) : Token.plain head = head := by
  refine List.filter_eq_self.2 fun token htoken => decide_eq_true fun hnewline => ?_
  have hkind := h.inHead token htoken
  rw [hnewline] at hkind
  cases hkind

/-! ## Tokens without line breaks -/

namespace Cursor

variable {cursor later : Cursor} {tokens rest : List Token} {token : Token}

/-- The cursor is on the first of the tokens, and all tokens from there on are these and line breaks. -/
structure Fronts (cursor : Cursor) (tokens : List Token) : Prop where
  plain : Token.plain (cursor.current :: cursor.rest) = tokens
  settled : cursor.current.kind ≠ .newline

/-- The tokens from the cursor on are these and line breaks, and the last of them is the end of input. -/
structure Faces (cursor : Cursor) (tokens : List Token) : Prop extends Fronts cursor tokens where
  terminated : cursor.Terminated

theorem Fronts.eq_cons (h : cursor.Fronts tokens) : tokens = cursor.current :: Token.plain cursor.rest := by
  rw [← h.plain, Token.plain_cons h.settled]

theorem Fronts.current (h : cursor.Fronts (token :: rest)) : cursor.current = token :=
  (List.cons.inj h.eq_cons).1.symm

/-- There are at least as many tokens to come as the cursor fronts. -/
theorem Fronts.length_le (h : cursor.Fronts tokens) : tokens.length ≤ cursor.rest.length + 1 := by
  have hle := List.length_filter_le (fun token : Token => decide (token.kind ≠ .newline)) cursor.rest
  rw [h.eq_cons, List.length_cons]
  exact Nat.succ_le_succ hle

theorem Fronts.eq_of_ahead (h : cursor.Fronts tokens) (h' : later.Fronts tokens) (hahead : cursor.Ahead later) :
    later = cursor := by
  obtain ⟨passed, hposition⟩ := Nat.exists_eq_add_of_le hahead.position
  cases passed with
  | zero => exact eq_of_position hahead.tokens hposition
  | succ passed =>
    -- A cursor that has passed the current token fronts fewer tokens.
    have hcoming : later.current :: later.rest = cursor.rest.drop passed := by
      rw [← drop_position, hahead.tokens, hposition, ← List.drop_drop, drop_position]
      rfl
    have hle : (Token.plain (cursor.rest.drop passed)).length ≤ (Token.plain cursor.rest).length :=
      ((List.drop_sublist passed cursor.rest).filter _).length_le
    rw [← hcoming, h'.plain, h.eq_cons, List.length_cons] at hle
    exact absurd hle (Nat.not_succ_le_self _)

/-- What comes, up to line breaks, tells where the cursor is among its tokens. -/
theorem Fronts.eq (h : cursor.Fronts tokens) (h' : later.Fronts tokens) (htokens : later.tokens = cursor.tokens) :
    later = cursor := by
  rcases Nat.le_total cursor.position later.position with hle | hle
  · exact h.eq_of_ahead h' ⟨htokens, hle⟩
  · exact (h'.eq_of_ahead h ⟨htokens.symm, hle⟩).symm

theorem fronts_onto {before : List Token} (hne : Token.plain tokens ≠ []) :
    (onto before tokens).Fronts (Token.plain tokens) := by
  induction tokens generalizing before with
  | nil => exact absurd rfl hne
  | cons token rest ih =>
    by_cases hnewline : token.kind = .newline
    · have hplain : Token.plain (token :: rest) = Token.plain rest := List.filter_cons_of_neg (by simpa using hnewline)
      rw [hplain] at hne ⊢
      rw [onto_newline hnewline fun hrest => hne (by rw [hrest]; rfl)]
      exact ih hne
    · rw [onto_cons hnewline]
      exact ⟨rfl, hnewline⟩

/-- Reading a token leaves the cursor before the next one, if there is one. -/
theorem Fronts.advance (h : cursor.Fronts (token :: rest)) (heof : token.kind ≠ .eof) (hne : rest ≠ []) :
    cursor.advance.Fronts rest := by
  have hcurrent := h.current
  have hrest : Token.plain cursor.rest = rest := (List.cons.inj h.eq_cons).2.symm
  have hnil : cursor.rest ≠ [] := fun hnil => hne (by rw [← hrest, hnil]; rfl)
  have hcursor : cursor = onto cursor.before (cursor.current :: cursor.rest) := (onto_cons h.settled).symm
  have hadvance : cursor.advance = onto (cursor.current :: cursor.before) cursor.rest := by
    conv => lhs; rw [hcursor]
    exact advance_onto h.settled (hcurrent ▸ heof) hnil
  rw [hadvance, ← hrest]
  exact fronts_onto (by rw [hrest]; exact hne)

/-- There is always a token to come before the end of input. -/
theorem Faces.advance (h : cursor.Faces (token :: rest)) (heof : token.kind ≠ .eof) : cursor.advance.Faces rest := by
  refine ⟨h.toFronts.advance heof ?_, h.terminated.ahead (ahead_advance cursor)⟩
  have hrest : rest = Token.plain cursor.rest := (List.cons.inj h.eq_cons).2
  obtain ⟨next, more, hmore⟩ := h.terminated.exists_rest (by rw [h.current]; exact heof)
  have hlast : cursor.rest.getLast?.map Token.kind = some .eof := by
    simpa [Terminated, tokens, hmore] using h.terminated
  obtain ⟨last, hlast, hkind⟩ := Option.map_eq_some_iff.1 hlast
  rw [hrest]
  exact List.ne_nil_of_mem (List.mem_filter.2 ⟨List.mem_of_getLast? hlast, by simp [hkind]⟩)

end Cursor

/-! ## What is taken -/

namespace CursorM

open Cursor (Faces)

variable {α β : Type} {R : List Token → α → Prop} {cursor : Cursor} {tokens : List Token}

/-- The reading takes tokens off the front that spell its value, or it stops at a token that is out of place. -/
inductive Takes (R : List Token → α → Prop) (tokens : List Token) : EStateM.Result Failure Cursor α → Prop where
  | ok {spelling rest : List Token} {a : α} {later : Cursor} : tokens = spelling ++ rest → R spelling a →
      later.Faces rest → Takes R tokens (.ok a later)
  | error {later : Cursor} :
      Takes R tokens (.error (.error ⟨.unexpectedToken later.current.text, later.line⟩) later)

theorem Takes.success {a : α} {later : Cursor} (h : Takes R tokens (.ok a later)) :
    ∃ spelling rest, tokens = spelling ++ rest ∧ R spelling a ∧ later.Faces rest := by
  obtain ⟨htokens, hR, hfaces⟩ | _ := h
  exact ⟨_, _, htokens, hR, hfaces⟩

theorem Takes.failure {failure : Failure} {later : Cursor} (h : Takes R tokens (.error failure later)) :
    failure = .error ⟨.unexpectedToken later.current.text, later.line⟩ := by
  cases h
  rfl

/-- What two readings take is put together. -/
theorem Takes.bind {S : List Token → β → Prop} {m : CursorM α} {f : α → CursorM β} (h : Takes R tokens (m cursor))
    (hf : ∀ spelling rest a later, tokens = spelling ++ rest → R spelling a → later.Faces rest →
      Takes (fun more b => S (spelling ++ more) b) rest (f a later)) :
    Takes S tokens ((m >>= f) cursor) := by
  generalize hrun : m cursor = result at h
  cases h with
  | @ok spelling rest a later htokens ha hfaces =>
    rw [bind_of_ok hrun]
    have hnext := hf spelling rest a later htokens ha hfaces
    generalize f a later = last at hnext
    cases hnext with
    | ok hrest hb hlast => exact .ok (by rw [htokens, hrest, List.append_assoc]) hb hlast
    | error => exact .error
  | error =>
    rw [bind_of_error hrun]
    exact .error

theorem Takes.pure {a : α} (h : cursor.Faces tokens) (hR : R [] a) :
    Takes R tokens ((Pure.pure a : CursorM α) cursor) :=
  .ok (List.nil_append tokens).symm hR h

theorem takes_unexpectedCurrent : Takes R tokens (unexpectedCurrent cursor) :=
  .error

theorem takes_currentKind {f : TokenKind → CursorM α}
    (hf : ∀ kind, cursor.current.kind = kind → Takes R tokens (f kind cursor)) :
    Takes R tokens ((currentKind >>= f) cursor) :=
  hf _ rfl

theorem takes_advance (h : cursor.Faces tokens) (heof : cursor.current.kind ≠ .eof) :
    Takes (fun spelling token => spelling = [token] ∧ token.kind = cursor.current.kind) tokens (advance cursor) := by
  have heq := h.eq_cons
  rw [heq] at h
  exact .ok heq ⟨rfl, rfl⟩ (h.advance heof)

theorem takes_expect {kind : TokenKind} (h : cursor.Faces tokens) (heof : kind ≠ .eof) :
    Takes (fun spelling token => spelling = [token] ∧ token.kind = kind) tokens (expect kind cursor) := by
  unfold expect
  rw [bind_get]
  split
  · rename_i hkind
    subst hkind
    exact takes_advance h heof
  · exact takes_unexpectedCurrent

theorem takes_expectKeyword {word : String} (h : cursor.Faces tokens) :
    Takes (fun spelling token => spelling = [token] ∧ token.isKeywordOf word = true) tokens
      (expectKeyword word cursor) := by
  unfold expectKeyword
  rw [bind_get]
  split
  · rename_i hkeyword
    have heq := h.eq_cons
    rw [heq] at h
    exact .ok heq ⟨rfl, hkeyword⟩ (h.advance (by simp [Cursor.kind_of_isKeywordOf hkeyword]))
  · exact takes_unexpectedCurrent

theorem takes_declaredType (h : cursor.Faces tokens) : Takes Annotates tokens (declaredType cursor) := by
  unfold declaredType
  refine takes_currentKind fun kind hcurrent => ?_
  split
  · rename_i hcolon
    rw [hcolon] at hcurrent
    refine (takes_advance h (by simp [hcurrent])).bind ?_
    rintro _ rest colon later - ⟨rfl, hkind⟩ h
    refine (takes_expect h (by simp)).bind ?_
    rintro _ rest name later - ⟨rfl, hname⟩ h
    exact Takes.pure h (.typed (hkind.trans hcurrent) hname)
  · exact Takes.pure h .absent

/-- Parameters are over at a closing parenthesis. -/
theorem parameters_closing (steps : Nat) (h : cursor.current.kind = .closing .round) :
    parameters (steps + 1) cursor = .ok [] cursor := by
  rw [parameters]
  show (if cursor.current.kind = .closing .round then _ else _ : CursorM (List Parameter)) cursor = _
  rw [if_pos h]
  rfl

theorem takes_parameters {steps : Nat} (hsteps : tokens.length ≤ steps) (h : cursor.Faces tokens) :
    Takes ListsParameters tokens (parameters steps cursor) := by
  induction steps generalizing tokens cursor with
  | zero =>
    rw [h.eq_cons] at hsteps
    simp at hsteps
  | succ steps ih =>
    rw [parameters]
    refine takes_currentKind fun kind _ => ?_
    split
    · exact Takes.pure h .none
    · refine (takes_expect h (by simp)).bind ?_
      rintro _ rest name later rfl ⟨rfl, hname⟩ h
      refine (takes_declaredType h).bind ?_
      rintro typing rest type later rfl htyping h
      have hrest : rest.length ≤ steps := by
        simp only [List.length_append, List.length_singleton] at hsteps
        omega
      refine takes_currentKind fun kind hcurrent => ?_
      split
      · refine (takes_advance h (by simp [hcurrent])).bind ?_
        rintro _ rest comma later rfl ⟨rfl, hkind⟩ h
        refine (ih (by simp at hrest; omega) h).bind ?_
        rintro more rest others later - hmore h
        refine Takes.pure h ?_
        have hall := ListsParameters.more hname htyping (hkind.trans hcurrent) hmore
        simpa using hall
      · -- The loop stops in its next round, for which a step is left since the parenthesis is still to come.
        obtain ⟨left, rfl⟩ : ∃ left, steps = left + 1 := by
          rw [h.eq_cons] at hrest
          exact ⟨steps - 1, by simp at hrest; omega⟩
        rw [bind_of_ok (parameters_closing left hcurrent)]
        refine Takes.pure h ?_
        have hall := ListsParameters.last hname htyping
        simpa using hall
      · exact takes_unexpectedCurrent

theorem takes_typeNames {steps : Nat} (types : TypeSet) (hsteps : tokens.length ≤ steps) (h : cursor.Faces tokens) :
    Takes (fun spelling read => ∃ names, NamesTypes spelling names ∧
      read = names.foldl (fun types name => types.declare (.ofName name)) types) tokens
      (typeNames steps types cursor) := by
  induction steps generalizing tokens cursor types with
  | zero =>
    rw [h.eq_cons] at hsteps
    simp at hsteps
  | succ steps ih =>
    rw [typeNames]
    refine (takes_expect h (by simp)).bind ?_
    rintro _ rest name later rfl ⟨rfl, hname⟩ h
    have hrest : rest.length ≤ steps := by
      simp only [List.length_append, List.length_singleton] at hsteps
      omega
    refine takes_currentKind fun kind hcurrent => ?_
    split
    · refine (takes_advance h (by simp [hcurrent])).bind ?_
      rintro _ rest comma later rfl ⟨rfl, hkind⟩ h
      have hmore := ih (types.declare (.ofName name.text)) (by simp at hrest; omega) h
      generalize typeNames steps (types.declare (.ofName name.text)) later = result at hmore
      cases hmore with
      | ok hrest hread hlast =>
        obtain ⟨names, hnames, rfl⟩ := hread
        exact .ok hrest ⟨name.text :: names, .more hname (hkind.trans hcurrent) hnames, rfl⟩ hlast
      | error => exact .error
    · exact Takes.pure h ⟨[name.text], .last hname, rfl⟩
    · exact takes_unexpectedCurrent

theorem takes_returnTypes (h : cursor.Faces tokens) :
    Takes (fun spelling read => ∃ names, NamesReturns spelling names ∧ read = TypeSet.ofNames names) tokens
      (returnTypes cursor) := by
  unfold returnTypes
  refine takes_currentKind fun kind hcurrent => ?_
  split
  · rename_i harrow
    rw [harrow] at hcurrent
    refine (takes_advance h (by simp [hcurrent])).bind ?_
    rintro _ rest arrow later - ⟨rfl, hkind⟩ h
    have harrow' := hkind.trans hcurrent
    refine takes_currentKind fun kind hcurrent => ?_
    split
    · rename_i hopening
      rw [hopening] at hcurrent
      refine (takes_advance h (by simp [hcurrent])).bind ?_
      rintro _ rest opening later - ⟨rfl, hkind⟩ h
      refine (takes_typeNames .any h.length_le h).bind ?_
      rintro types rest read later - ⟨names, hnames, rfl⟩ h
      refine (takes_expect h (by simp)).bind ?_
      rintro _ rest closing later - ⟨rfl, hclosing⟩ h
      refine Takes.pure h ⟨names, ?_, rfl⟩
      have hall := NamesReturns.several harrow' (hkind.trans hcurrent) hnames hclosing
      simpa using hall
    · refine (takes_expect h (by simp)).bind ?_
      rintro _ rest name later - ⟨rfl, hname⟩ h
      exact Takes.pure h ⟨[name.text], .one harrow' hname, rfl⟩
  · exact Takes.pure h ⟨[], .absent, rfl⟩

/-- The head of a lambda, up to the brace that opens its body. -/
def lambdaHead : CursorM (List Parameter × TypeSet) := do
  let _ ← expectKeyword "lambda"
  let _ ← expect (.opening .round)
  let parameters ← bounded parameters
  let _ ← expect (.closing .round)
  return (parameters, ← returnTypes)

theorem lambda_eq : lambda = (do
    let (parameters, returnTypes) ← lambdaHead
    let startLine := (← get).line
    let body ← body
    return { parameters, body, returnTypes, startLine, mark := none }) := by
  simp only [lambda, lambdaHead, bind_assoc, pure_bind]

theorem advances_lambdaHead : Advances lambdaHead :=
  (advances_expectKeyword _).bind fun _ => (advances_expect _).bind fun _ =>
    (advances_bounded advances_parameters).bind fun _ => (advances_expect _).bind fun _ =>
      advances_returnTypes.bind fun _ => Keeps.pure _

theorem takes_lambdaHead (h : cursor.Faces tokens) :
    Takes (fun spelling read => ∃ names, HeadsLambda spelling read.1 names ∧ read.2 = TypeSet.ofNames names) tokens
      (lambdaHead cursor) := by
  refine (takes_expectKeyword h).bind ?_
  rintro _ rest keyword later - ⟨rfl, hkeyword⟩ h
  refine (takes_expect h (by simp)).bind ?_
  rintro _ rest opening later - ⟨rfl, hopening⟩ h
  refine (takes_parameters h.length_le h).bind ?_
  rintro listed rest parameters later - hlisted h
  refine (takes_expect h (by simp)).bind ?_
  rintro _ rest closing later - ⟨rfl, hclosing⟩ h
  refine (takes_returnTypes h).bind ?_
  rintro returned rest types later - ⟨names, hreturned, rfl⟩ h
  refine Takes.pure h ⟨names, ?_, rfl⟩
  have hall := HeadsLambda.mk hkeyword hopening hlisted hclosing hreturned
  simpa using hall

/-! ## What is read -/

section

variable {b : β} {rest rest' : List Token} {a : α} {token next closing : Token}

/-- The reading gives the value, with these tokens still to come. -/
def Gives (a : α) (rest : List Token) (result : EStateM.Result Failure Cursor α) : Prop :=
  ∃ later : Cursor, result = .ok a later ∧ later.Fronts rest

theorem Gives.bind {m : CursorM α} {f : α → CursorM β} (h : Gives a rest (m cursor))
    (hf : ∀ later : Cursor, later.Fronts rest → Gives b rest' (f a later)) : Gives b rest' ((m >>= f) cursor) := by
  obtain ⟨later, hrun, hfronts⟩ := h
  rw [bind_of_ok hrun]
  exact hf later hfronts

theorem gives_pure (h : cursor.Fronts rest) : Gives a rest ((pure a : CursorM α) cursor) :=
  ⟨cursor, rfl, h⟩

theorem gives_currentKind {f : TokenKind → CursorM α} (h : cursor.Fronts (token :: rest))
    (hf : Gives a rest' (f token.kind cursor)) : Gives a rest' ((currentKind >>= f) cursor) := by
  rw [← h.current] at hf
  exact hf

theorem gives_advance (h : cursor.Fronts (token :: rest)) (heof : token.kind ≠ .eof) (hne : rest ≠ []) :
    Gives token rest (advance cursor) :=
  ⟨cursor.advance, by rw [advance, h.current], h.advance heof hne⟩

theorem gives_expect {kind : TokenKind} (h : cursor.Fronts (token :: rest)) (hkind : token.kind = kind)
    (heof : kind ≠ .eof) (hne : rest ≠ []) : Gives token rest (expect kind cursor) := by
  subst hkind
  refine ⟨cursor.advance, expect_eq_ok.2 ⟨?_, h.current.symm, rfl⟩, h.advance heof hne⟩
  rw [h.current]

theorem gives_expectKeyword {word : String} (h : cursor.Fronts (token :: rest))
    (hkeyword : token.isKeywordOf word = true) (hne : rest ≠ []) : Gives token rest (expectKeyword word cursor) := by
  refine ⟨cursor.advance, expectKeyword_eq_ok.2 ⟨?_, h.current.symm, rfl⟩, h.advance ?_ hne⟩
  · rw [h.current]
    exact hkeyword
  · simp [Cursor.kind_of_isKeywordOf hkeyword]

theorem gives_declaredType {typing : List Token} {type : DeclaredType} (htyping : Annotates typing type)
    (hnext : next.kind ≠ .colon) (h : cursor.Fronts (typing ++ next :: rest)) :
    Gives type (next :: rest) (declaredType cursor) := by
  unfold declaredType
  cases htyping with
  | absent =>
    refine gives_currentKind h ?_
    rw [if_neg hnext]
    exact gives_pure h
  | typed hcolon hname =>
    refine gives_currentKind h ?_
    rw [if_pos hcolon]
    refine (gives_advance h (by simp [hcolon]) (by simp)).bind fun later h => ?_
    exact (gives_expect h hname (by simp) (by simp)).bind fun later h => gives_pure h

/-- A parameter is read up to the token behind it. -/
theorem gives_parameter {steps : Nat} {name : Token} {typing : List Token} {type : DeclaredType}
    {parameters' : List Parameter} (hname : name.kind = .name) (htyping : Annotates typing type)
    (hnext : next.kind ≠ .colon) (h : cursor.Fronts (name :: (typing ++ next :: rest)))
    (hthen : ∀ later : Cursor, later.Fronts (next :: rest) → Gives parameters' rest'
      ((match next.kind with
        | .comma => do
          let _ ← advance
          return ⟨name.text, type⟩ :: (← parameters steps)
        | .closing .round => return ⟨name.text, type⟩ :: (← parameters steps)
        | _ => unexpectedCurrent : CursorM (List Parameter)) later)) :
    Gives parameters' rest' (parameters (steps + 1) cursor) := by
  rw [parameters]
  refine gives_currentKind h ?_
  rw [if_neg (by simp [hname])]
  refine (gives_expect h hname (by simp) (by simp)).bind fun later h => ?_
  refine (gives_declaredType htyping hnext h).bind fun later h => ?_
  exact gives_currentKind h (hthen later h)

theorem gives_parameters {listed : List Token} {read : List Parameter} (hlisted : ListsParameters listed read)
    (hclosing : closing.kind = .closing .round) {steps : Nat} (hsteps : listed.length < steps)
    (h : cursor.Fronts (listed ++ closing :: rest)) : Gives read (closing :: rest) (parameters steps cursor) := by
  induction hlisted generalizing cursor steps with
  | none =>
    obtain ⟨left, rfl⟩ : ∃ left, steps = left + 1 := ⟨steps - 1, by omega⟩
    exact ⟨cursor, parameters_closing left (by rw [h.current]; exact hclosing), h⟩
  | @last name typing type hname htyping =>
    obtain ⟨left, rfl⟩ : ∃ left, steps = left + 1 + 1 := ⟨steps - 2, by simp at hsteps; omega⟩
    refine gives_parameter hname htyping (by simp [hclosing]) h fun later h => ?_
    rw [hclosing]
    have hstop := parameters_closing left (by rw [h.current]; exact hclosing)
    exact ⟨later, bind_of_ok hstop, h⟩
  | @more name comma typing more type read hname htyping hcomma _ ih =>
    obtain ⟨left, rfl⟩ : ∃ left, steps = left + 1 := ⟨steps - 1, by omega⟩
    have hfronts : cursor.Fronts (name :: (typing ++ comma :: (more ++ closing :: rest))) := by
      simpa using h
    refine gives_parameter hname htyping (by simp [hcomma]) hfronts fun later h => ?_
    rw [hcomma]
    refine (gives_advance h (by simp [hcomma]) (by simp)).bind fun later h => ?_
    exact (ih (by simp at hsteps; omega) h).bind fun later h => gives_pure h

theorem gives_typeNames {named : List Token} {names : List String} (hnamed : NamesTypes named names)
    (hclosing : closing.kind = .closing .round) {steps : Nat} (types : TypeSet) (hsteps : named.length ≤ steps)
    (h : cursor.Fronts (named ++ closing :: rest)) :
    Gives (names.foldl (fun types name => types.declare (.ofName name)) types) (closing :: rest)
      (typeNames steps types cursor) := by
  induction hnamed generalizing cursor steps types with
  | last hname =>
    obtain ⟨left, rfl⟩ : ∃ left, steps = left + 1 := ⟨steps - 1, by simp at hsteps; omega⟩
    rw [typeNames]
    refine (gives_expect h hname (by simp) (by simp)).bind fun later h => ?_
    refine gives_currentKind h ?_
    rw [hclosing]
    exact gives_pure h
  | @more name comma named names hname hcomma _ ih =>
    obtain ⟨left, rfl⟩ : ∃ left, steps = left + 1 := ⟨steps - 1, by simp at hsteps; omega⟩
    rw [typeNames]
    refine (gives_expect h hname (by simp) (by simp)).bind fun later h => ?_
    refine gives_currentKind h ?_
    rw [hcomma]
    refine (gives_advance h (by simp [hcomma]) (by simp)).bind fun later h => ?_
    exact ih _ (by simp at hsteps; omega) h

theorem gives_returnTypes {returned : List Token} {names : List String} (hreturned : NamesReturns returned names)
    (hnext : next.kind ≠ .arrow) (h : cursor.Fronts (returned ++ next :: rest)) :
    Gives (TypeSet.ofNames names) (next :: rest) (returnTypes cursor) := by
  unfold returnTypes
  cases hreturned with
  | absent =>
    refine gives_currentKind h ?_
    rw [if_neg hnext]
    exact gives_pure h
  | one harrow hname =>
    refine gives_currentKind h ?_
    rw [if_pos harrow]
    refine (gives_advance h (by simp [harrow]) (by simp)).bind fun later h => ?_
    refine gives_currentKind h ?_
    rw [if_neg (by simp [hname])]
    exact (gives_expect h hname (by simp) (by simp)).bind fun later h => gives_pure h
  | @several arrow opening closing types names harrow hopening hnamed hclosing =>
    have hfronts : cursor.Fronts (arrow :: opening :: (types ++ closing :: (next :: rest))) := by
      simpa using h
    refine gives_currentKind hfronts ?_
    rw [if_pos harrow]
    refine (gives_advance hfronts (by simp [harrow]) (by simp)).bind fun later h => ?_
    refine gives_currentKind h ?_
    rw [if_pos hopening]
    refine (gives_advance h (by simp [hopening]) (by simp)).bind fun later h => ?_
    have hsteps : types.length ≤ later.rest.length + 1 := by
      have hle := h.length_le
      simp only [List.length_append] at hle
      omega
    refine Gives.bind (gives_typeNames hnamed hclosing .any hsteps h) fun later h => ?_
    exact (gives_expect h hclosing (by simp) (by simp)).bind fun later h => gives_pure h

theorem gives_lambdaHead {head : List Token} {read : List Parameter} {names : List String}
    (hhead : HeadsLambda head read names) (hnext : next.kind ≠ .arrow) (h : cursor.Fronts (head ++ next :: rest)) :
    Gives (read, TypeSet.ofNames names) (next :: rest) (lambdaHead cursor) := by
  obtain ⟨hkeyword, hopening, hlisted, hclosing, hreturned⟩ := hhead
  rename_i keyword opening closing listed returned
  have hfronts : cursor.Fronts (keyword :: opening :: (listed ++ closing :: (returned ++ next :: rest))) := by
    simpa using h
  refine (gives_expectKeyword hfronts hkeyword (by simp)).bind fun later h => ?_
  refine (gives_expect h hopening (by simp) (by simp)).bind fun later h => ?_
  have hsteps : listed.length < later.rest.length + 1 := by
    have hle := h.length_le
    simp only [List.length_append, List.length_cons] at hle
    omega
  refine Gives.bind (gives_parameters hlisted hclosing hsteps h) fun later h => ?_
  refine (gives_expect h hclosing (by simp) (by simp)).bind fun later h => ?_
  exact (gives_returnTypes hreturned hnext h).bind fun later h => gives_pure h

end

end CursorM

end GradualScript
