import GradualScript.Proofs.Tandem.Cursor
import GradualScript.Proofs.Token.Lines

/-!
# Further line breaks among tokens

Line breaks can be put among tokens that are read. A reading that succeeds without them succeeds with them too, and
stops at the same token.

* `Mirrors` : if one run succeeds, then so does another, with related values and in related states (`Mirrors.bind`);
* `Token.Loose`, `Token.Spread` : tokens with further line breaks among them, anywhere or only where they do not cut off
  the parenthesis of a call;
* `Cursor.Slack` : two cursors on the same token, in tokens without and with the line breaks;
* `Slack.advance`, `Slack.peek`, `Slack.boundary`, … : moves and looks from both of them;
* `CursorM.mirror_skipExpression` : skipping from both of them.
-/

set_option autoImplicit false

namespace GradualScript

/-! ## One run after another -/

section Mirrors

variable {ε σ α α' β β' : Type}

/-- If the first run succeeds, then so does the second, with values related by `V` and in states related by `S`. -/
def Mirrors (S : σ → σ → Prop) (V : α → α' → Prop) (result : EStateM.Result ε σ α) (other : EStateM.Result ε σ α') :
    Prop :=
  ∀ a s, result = .ok a s → ∃ a' s', other = .ok a' s' ∧ V a a' ∧ S s s'

namespace Mirrors

variable {S : σ → σ → Prop} {V : α → α' → Prop} {W : β → β' → Prop} {s s' : σ}

theorem ok {a : α} {a' : α'} (hV : V a a') (hS : S s s') :
    Mirrors S V (.ok a s : EStateM.Result ε σ α) (.ok a' s') := by
  rintro _ _ ⟨⟩
  exact ⟨a', s', rfl, hV, hS⟩

/-- Nothing is asked of the second run where the first fails. -/
theorem error {failure : ε} {other : EStateM.Result ε σ α'} : Mirrors S V (.error failure s) other := by
  rintro _ _ ⟨⟩

/-- One computation after another, where the second may build on how the first one ran. -/
theorem bindRun {m : EStateM ε σ α} {m' : EStateM ε σ α'} {f : α → EStateM ε σ β} {f' : α' → EStateM ε σ β'}
    (h : Mirrors S V (m s) (m' s'))
    (hf : ∀ a a' t t', m s = .ok a t → m' s' = .ok a' t' → V a a' → S t t' → Mirrors S W (f a t) (f' a' t')) :
    Mirrors S W ((m >>= f) s) ((m' >>= f') s') := by
  intro b u hrun
  obtain ⟨a, t, hm, hrest⟩ := bind_eq_ok.1 hrun
  obtain ⟨a', t', hm', hv, ht⟩ := h a t hm
  obtain ⟨b', u', hrest', hw, hu⟩ := hf a a' t t' hm hm' hv ht b u hrest
  exact ⟨b', u', (bind_of_ok hm').trans hrest', hw, hu⟩

theorem bind {m : EStateM ε σ α} {m' : EStateM ε σ α'} {f : α → EStateM ε σ β} {f' : α' → EStateM ε σ β'}
    (h : Mirrors S V (m s) (m' s')) (hf : ∀ a a' t t', V a a' → S t t' → Mirrors S W (f a t) (f' a' t')) :
    Mirrors S W ((m >>= f) s) ((m' >>= f') s') :=
  h.bindRun fun a a' t t' _ _ => hf a a' t t'

/-- Both runs take the same branch. -/
theorem ite {c : Prop} [Decidable c] {m n : EStateM ε σ α} {m' n' : EStateM ε σ α'}
    (hpos : c → Mirrors S V (m s) (m' s')) (hneg : ¬c → Mirrors S V (n s) (n' s')) :
    Mirrors S V ((if c then m else n) s) ((if c then m' else n') s') := by
  by_cases hc : c
  · rw [if_pos hc, if_pos hc]
    exact hpos hc
  · rw [if_neg hc, if_neg hc]
    exact hneg hc

end Mirrors

end Mirrors

/-! ## Tokens with further line breaks -/

namespace Token

variable {token token' : Token}

theorem kind_of_content (h : token'.content = token.content) : token'.kind = token.kind :=
  congrArg Prod.fst h

theorem text_of_content (h : token'.content = token.content) : token'.text = token.text :=
  congrArg Prod.snd h

theorem isKeywordOf_of_content (h : token'.content = token.content) (word : String) :
    token'.isKeywordOf word = token.isKeywordOf word := by
  rw [isKeywordOf, isKeywordOf, kind_of_content h, text_of_content h]

theorem endsOperand_of_content (h : token'.content = token.content) :
    Cursor.endsOperand token' = Cursor.endsOperand token := by
  rw [Cursor.endsOperand, Cursor.endsOperand, isKeyword, isKeyword, kind_of_content h]

theorem startsOperand_of_content (h : token'.content = token.content) :
    Cursor.startsOperand token' = Cursor.startsOperand token := by
  rw [Cursor.startsOperand, Cursor.startsOperand, isKeyword, isKeyword, isUnaryOperator, isUnaryOperator, isOperator,
    isOperator, kind_of_content h, text_of_content h]

/-- The second tokens say the same as the first, with further line breaks among them. -/
inductive Loose : List Token → List Token → Prop where
  | nil : Loose [] []
  | cons {token token' : Token} {tokens tokens' : List Token} : token'.content = token.content → Loose tokens tokens' →
      Loose (token :: tokens) (token' :: tokens')
  | lineBreak {lineBreak : Token} {tokens tokens' : List Token} : lineBreak.kind = .newline → Loose tokens tokens' →
      Loose tokens (lineBreak :: tokens')

/-- Tokens that come right behind `previous`, without and with further line breaks. If that is a name or a literal, then
there is none before a parenthesis. -/
inductive Spread : Token → List Token → List Token → Prop where
  | nil {previous : Token} : Spread previous [] []
  | cons {previous token token' : Token} {tokens tokens' : List Token} : token'.content = token.content →
      Spread token tokens tokens' → Spread previous (token :: tokens) (token' :: tokens')
  | lineBreak {previous lineBreak token : Token} {tokens tokens' : List Token} : lineBreak.kind = .newline →
      (previous.kind.isObject = true → token.kind ≠ .opening .round) → Spread previous (token :: tokens) tokens' →
      Spread previous (token :: tokens) (lineBreak :: tokens')

theorem Loose.lineBreaks {breaks tokens tokens' : List Token} (h : Loose tokens tokens')
    (hbreaks : ∀ token ∈ breaks, token.kind = .newline) : Loose tokens (breaks ++ tokens') := by
  induction breaks with
  | nil => exact h
  | cons lineBreak breaks ih =>
    obtain ⟨hfirst, hrest⟩ := List.forall_mem_cons.1 hbreaks
    exact .lineBreak hfirst (ih hrest)

/-- The nearest token that is no line break says the same. -/
theorem Loose.find? {tokens tokens' : List Token} (h : Loose tokens tokens') :
    (tokens'.find? (·.kind ≠ .newline)).map content = (tokens.find? (·.kind ≠ .newline)).map content := by
  induction h with
  | nil => rfl
  | @cons token token' tokens tokens' hcontent _ ih =>
    have hkind := kind_of_content hcontent
    by_cases hnewline : token.kind = .newline
    · rw [List.find?_cons_of_neg (by simp [hkind, hnewline]), List.find?_cons_of_neg (by simp [hnewline]), ih]
    · rw [List.find?_cons_of_pos (by simp [hkind, hnewline]), List.find?_cons_of_pos (by simp [hnewline]),
        Option.map_some, Option.map_some, hcontent]
  | lineBreak hbreak _ ih => rw [List.find?_cons_of_neg (by simp [hbreak]), ih]

namespace Spread

variable {previous : Token} {tokens tokens' : List Token}

theorem loose (h : Spread previous tokens tokens') : Loose tokens tokens' := by
  induction h with
  | nil => exact .nil
  | cons hcontent _ ih => exact .cons hcontent ih
  | lineBreak hbreak _ _ ih => exact .lineBreak hbreak ih

theorem length_le (h : Spread previous tokens tokens') : tokens.length ≤ tokens'.length := by
  induction h with
  | nil => exact Nat.le_refl _
  | cons _ _ ih => exact Nat.succ_le_succ ih
  | lineBreak _ _ _ ih => exact Nat.le_succ_of_le ih

/-- Only line breaks are before what the next token has become. -/
theorem uncons {next : Token} (h : Spread previous (next :: tokens) tokens') :
    ∃ breaks next' rest, tokens' = breaks ++ next' :: rest ∧ (∀ token ∈ breaks, token.kind = .newline) ∧
      next'.content = next.content ∧ Spread next tokens rest := by
  generalize hall : next :: tokens = all at h
  induction h with
  | nil => cases hall
  | @cons _ token token' _ tokens' hcontent hrest _ =>
    cases hall
    exact ⟨[], token', tokens', rfl, nofun, hcontent, hrest⟩
  | @lineBreak _ lineBreak _ _ _ hbreak _ _ ih =>
    obtain ⟨breaks, next', rest, rfl, hbreaks, hcontent, hrest⟩ := ih hall
    exact ⟨lineBreak :: breaks, next', rest, rfl, List.forall_mem_cons.2 ⟨hbreak, hbreaks⟩, hcontent, hrest⟩

end Spread

end Token

/-! ## Cursors on the same token -/

namespace Cursor

open Token (Loose Spread kind_of_content isKeywordOf_of_content endsOperand_of_content startsOperand_of_content)

/-- Two cursors on the same token, in tokens without and with further line breaks. No function is written there. -/
structure Slack (cursor other : Cursor) : Prop where
  current : other.current.content = cursor.current.content
  before : Loose cursor.before other.before
  rest : Spread cursor.current cursor.rest other.rest
  terminated : cursor.Terminated
  terminated' : other.Terminated
  plain : ∀ token ∈ cursor.tokens, token.isKeywordOf "lambda" = false

variable {cursor other : Cursor}

/-- Tokens of a class are passed over, up to the last of those given. -/
theorem skipFrom_append {skipped : TokenKind → Bool} {before passed rest : List Token} {current token : Token}
    (hcurrent : skipped current.kind = true) (hpassed : ∀ token ∈ passed, skipped token.kind = true) :
    skipFrom skipped before current (passed ++ token :: rest) =
      skipFrom skipped (passed.reverse ++ current :: before) token rest := by
  induction passed generalizing before current with
  | nil => rw [List.nil_append, skipFrom, if_pos hcurrent, List.reverse_nil, List.nil_append]
  | cons next passed ih =>
    obtain ⟨hnext, hrest⟩ := List.forall_mem_cons.1 hpassed
    rw [List.cons_append, skipFrom, if_pos hcurrent, ih hnext hrest, List.reverse_cons, List.append_assoc,
      List.singleton_append]

/-- Skipping a class of tokens with line breaks in it leads to the same token. -/
theorem slack_skipFrom (skipped : TokenKind → Bool) (hskipped : skipped .newline = true)
    {before before' rest rest' : List Token} {current current' : Token} (hcurrent : current'.content = current.content)
    (hbefore : Loose before before') (hrest : Spread current rest rest') :
    (skipFrom skipped before' current' rest').current.content = (skipFrom skipped before current rest).current.content ∧
      Loose (skipFrom skipped before current rest).before (skipFrom skipped before' current' rest').before ∧
      Spread (skipFrom skipped before current rest).current (skipFrom skipped before current rest).rest
        (skipFrom skipped before' current' rest').rest := by
  induction rest generalizing before before' rest' current current' with
  | nil =>
    cases hrest
    exact ⟨hcurrent, hbefore, .nil⟩
  | cons next rest ih =>
    cases hskip : skipped current.kind with
    | false =>
      rw [skipFrom_of_not hskip, skipFrom_of_not (by rw [kind_of_content hcurrent]; exact hskip)]
      exact ⟨hcurrent, hbefore, hrest⟩
    | true =>
      obtain ⟨breaks, next', rest', rfl, hbreaks, hnext, hrest⟩ := hrest.uncons
      rw [skipFrom, if_pos hskip, skipFrom_append (by rw [kind_of_content hcurrent]; exact hskip)
        fun token hmem => by rw [hbreaks token hmem]; exact hskipped]
      refine ih hnext ?_ hrest
      exact (Loose.cons hcurrent hbefore).lineBreaks fun token hmem => hbreaks token (List.mem_reverse.1 hmem)

namespace Slack

theorem skipWhile (h : cursor.Slack other) {skipped : TokenKind → Bool} (hskipped : skipped .newline = true) :
    (cursor.skipWhile skipped).Slack (other.skipWhile skipped) := by
  obtain ⟨hcurrent, hbefore, hrest⟩ := slack_skipFrom skipped hskipped h.current h.before h.rest
  refine ⟨hcurrent, hbefore, hrest, h.terminated.ahead (ahead_skipWhile _ _),
    h.terminated'.ahead (ahead_skipWhile _ _), ?_⟩
  rw [tokens_skipWhile]
  exact h.plain

theorem kind (h : cursor.Slack other) : other.current.kind = cursor.current.kind :=
  kind_of_content h.current

theorem isKeywordOf (h : cursor.Slack other) (word : String) :
    other.current.isKeywordOf word = cursor.current.isKeywordOf word :=
  isKeywordOf_of_content h.current word

/-- No function is written at the cursor. -/
theorem not_lambda (h : cursor.Slack other) : cursor.current.isKeywordOf "lambda" = false :=
  h.plain _ (List.mem_append_right _ List.mem_cons_self)

theorem length_le (h : cursor.Slack other) : cursor.rest.length ≤ other.rest.length :=
  h.rest.length_le

theorem advance (h : cursor.Slack other) : cursor.advance.Slack other.advance := by
  by_cases heof : cursor.current.kind = .eof
  · rw [Cursor.advance, Cursor.advance, if_pos heof, if_pos (h.kind.trans heof)]
    exact h
  · have hrest := h.rest
    obtain ⟨next, rest, hnext⟩ := h.terminated.exists_rest heof
    rw [hnext] at hrest
    obtain ⟨breaks, next', rest', hnext', hbreaks, hcontent, hrest⟩ := hrest.uncons
    have hadvance : cursor.advance = skipFrom (· = .newline) (cursor.current :: cursor.before) next rest := by
      rw [Cursor.advance, if_neg heof, step, hnext]
      rfl
    have hadvance' : other.advance =
        skipFrom (· = .newline) (breaks.reverse ++ other.current :: other.before) next' rest' := by
      rw [Cursor.advance, if_neg (by rw [h.kind]; exact heof), step, hnext']
      cases breaks with
      | nil => rfl
      | cons lineBreak breaks =>
        obtain ⟨hbreak, hbreaks⟩ := List.forall_mem_cons.1 hbreaks
        change skipFrom _ (other.current :: other.before) lineBreak (breaks ++ next' :: rest') = _
        rw [skipFrom_append (decide_eq_true hbreak) fun token hmem => decide_eq_true (hbreaks token hmem),
          List.reverse_cons, List.append_assoc, List.singleton_append]
    have hbefore : Loose (cursor.current :: cursor.before) (breaks.reverse ++ other.current :: other.before) :=
      (Loose.cons h.current h.before).lineBreaks fun token hmem => hbreaks token (List.mem_reverse.1 hmem)
    obtain ⟨hcurrent, hbefore, hrest⟩ := slack_skipFrom (· = .newline) rfl hcontent hbefore hrest
    rw [← hadvance, ← hadvance'] at hcurrent hbefore hrest
    refine ⟨hcurrent, hbefore, hrest, h.terminated.ahead (ahead_advance _), h.terminated'.ahead (ahead_advance _), ?_⟩
    rw [tokens_advance]
    exact h.plain

/-! ## Tokens nearby -/

theorem previous? (h : cursor.Slack other) :
    other.previous?.map Token.content = cursor.previous?.map Token.content :=
  h.before.find?

theorem peek (h : cursor.Slack other) : other.peek.content = cursor.peek.content := by
  have hfind := h.rest.loose.find?
  rw [Cursor.peek, Cursor.peek]
  generalize other.rest.find? (·.kind ≠ .newline) = next', cursor.rest.find? (·.kind ≠ .newline) = next at hfind
  cases next with
  | none =>
    cases next' with
    | none => exact h.current
    | some next' => cases hfind
  | some next =>
    cases next' with
    | none => cases hfind
    | some next' => exact Option.some.inj hfind

/-- No call is cut in two, and none is made. -/
theorem call (h : cursor.Slack other) :
    (other.current.kind.isObject && other.peekRaw.kind = .opening .round) =
      (cursor.current.kind.isObject && cursor.peekRaw.kind = .opening .round) := by
  rw [h.kind, peekRaw, peekRaw]
  have hrest := h.rest
  generalize cursor.rest = rest, other.rest = rest' at hrest
  cases hrest with
  | nil => rw [List.headD_nil, List.headD_nil, h.kind]
  | cons hcontent _ => rw [List.headD_cons, List.headD_cons, kind_of_content hcontent]
  | lineBreak hbreak hobject _ =>
    rw [List.headD_cons, List.headD_cons, hbreak]
    cases hkind : cursor.current.kind.isObject with
    | false => rfl
    | true => simp [hobject hkind]

theorem followsBreak (h : cursor.Slack other) (hbreak : cursor.followsBreak = true) : other.followsBreak = true := by
  have hbefore := h.before
  unfold Cursor.followsBreak at hbreak ⊢
  generalize cursor.before = before, other.before = before' at hbefore hbreak
  cases hbefore with
  | nil => cases hbreak
  | cons hcontent _ =>
    dsimp only at hbreak ⊢
    rw [kind_of_content hcontent]
    exact hbreak
  | lineBreak hnewline _ =>
    dsimp only
    rw [hnewline]
    rfl

end Slack

/-- Both cursors are where their expressions began, or both are further on. -/
def Paced (first first' : Nat) (cursor other : Cursor) : Prop :=
  (cursor.position = first ∧ other.position = first') ∨ (first < cursor.position ∧ first' < other.position)

theorem Paced.past {first first' : Nat} {later later' : Cursor} (h : Paced first first' cursor other)
    (hlater : cursor.position < later.position) (hlater' : other.position < later'.position) :
    Paced first first' later later' := by
  unfold Paced at h ⊢
  omega

/-- Both expressions end at the cursor, or both go on, unless the first of them is malformed. -/
theorem Slack.boundary (h : cursor.Slack other) {first first' : Nat} (hpaced : Paced first first' cursor other)
    {balanced : Bool} (hclash : cursor.boundary first balanced ≠ .clash) :
    other.boundary first' balanced = cursor.boundary first balanced := by
  have hposition : other.position = first' ↔ cursor.position = first := by
    unfold Paced at hpaced
    omega
  rw [Cursor.boundary] at hclash ⊢
  rw [Cursor.boundary]
  simp only [h.kind, hposition, h.isKeywordOf, startsOperand_of_content h.current] at hclash ⊢
  split
  · rfl
  rename_i heof
  rw [if_neg heof] at hclash
  split
  · rfl
  rename_i hfirst
  rw [if_neg hfirst] at hclash
  split
  · rfl
  rename_i hends
  rw [if_neg hends] at hclash
  have hprevious := h.previous?
  generalize other.previous? = previous', cursor.previous? = previous at hprevious hclash
  cases previous with
  | none =>
    cases previous' with
    | none => rfl
    | some previous' => cases hprevious
  | some previous =>
    cases previous' with
    | none => cases hprevious
    | some previous' =>
      dsimp only at hclash ⊢
      rw [endsOperand_of_content (Option.some.inj hprevious)]
      split
      · rename_i hadjacent
        rw [if_pos hadjacent] at hclash
        -- the first expression is not malformed, so a break or `else` ends it
        have hbreak : (cursor.followsBreak || cursor.current.isKeywordOf "else") = true := by
          by_contra hnot
          exact hclash (if_neg hnot)
        have hbreak' : (other.followsBreak || cursor.current.isKeywordOf "else") = true := by
          rw [Bool.or_eq_true] at hbreak ⊢
          exact hbreak.imp_left h.followsBreak
        rw [if_pos hbreak, if_pos hbreak']
      · rfl

end Cursor

namespace CursorM

open Cursor (Slack Paced)

variable {α : Type} {cursor other : Cursor}

/-- Two readings from cursors on the same token. -/
abbrev Mirror {α α' : Type} (V : α → α' → Prop) (result : EStateM.Result Failure Cursor α)
    (other : EStateM.Result Failure Cursor α') : Prop :=
  Mirrors Slack V result other

/-- The tokens say the same. -/
def SameContent (token token' : Token) : Prop :=
  token'.content = token.content

theorem mirror_unit (h : cursor.Slack other) :
    Mirror Eq ((pure () : CursorM Unit) cursor) ((pure () : CursorM Unit) other) :=
  .ok rfl h

theorem mirror_advance (h : cursor.Slack other) : Mirror SameContent (advance cursor) (advance other) :=
  .ok h.current h.advance

theorem mirror_skipLineBreaks (h : cursor.Slack other) : Mirror Eq (skipLineBreaks cursor) (skipLineBreaks other) :=
  .ok rfl (h.skipWhile rfl)

theorem mirror_skipStatementBreaks (h : cursor.Slack other) :
    Mirror Eq (skipStatementBreaks cursor) (skipStatementBreaks other) :=
  .ok rfl (h.skipWhile rfl)

/-- Both readings go on with the same kind of token. -/
theorem mirror_currentKind {β β' : Type} {W : β → β' → Prop} {f : TokenKind → CursorM β} {f' : TokenKind → CursorM β'}
    (h : cursor.Slack other)
    (hf : ∀ kind, cursor.current.kind = kind → Mirror W (f kind cursor) (f' kind other)) :
    Mirror W ((currentKind >>= f) cursor) ((currentKind >>= f') other) := by
  change Mirror W (f cursor.current.kind cursor) (f' other.current.kind other)
  rw [h.kind]
  exact hf _ rfl

theorem mirror_expect (kind : TokenKind) (h : cursor.Slack other) :
    Mirror SameContent (expect kind cursor) (expect kind other) := by
  rw [expect, bind_get, bind_get, h.kind]
  exact .ite (fun _ => mirror_advance h) fun _ => .error

theorem mirror_expectKeyword (word : String) (h : cursor.Slack other) :
    Mirror SameContent (expectKeyword word cursor) (expectKeyword word other) := by
  rw [expectKeyword, bind_get, bind_get, h.isKeywordOf]
  exact .ite (fun _ => mirror_advance h) fun _ => .error

/-- A loop gets at least as many steps where there are more tokens. -/
theorem mirror_bounded {α' : Type} {V : α → α' → Prop} {loop : Nat → CursorM α} {loop' : Nat → CursorM α'}
    (h : cursor.Slack other)
    (hloop : ∀ steps steps', steps ≤ steps' → Mirror V (loop steps cursor) (loop' steps' other)) :
    Mirror V (bounded loop cursor) (bounded loop' other) := by
  rw [bounded, bounded, bind_get, bind_get]
  exact hloop _ _ (Nat.succ_le_succ h.length_le)

/-! ## Skipping -/

theorem mirror_skipGroupRest {start start' : Token} {steps steps' : Nat} (hle : steps ≤ steps') (depth : Nat)
    (h : cursor.Slack other) :
    Mirror Eq (skipGroupRest start steps depth cursor) (skipGroupRest start' steps' depth other) := by
  induction steps generalizing steps' depth cursor other with
  | zero => exact .error
  | succ steps ih =>
    obtain ⟨steps', rfl⟩ : ∃ n, steps' = n + 1 := ⟨steps' - 1, by omega⟩
    have hrest : ∀ depth, Mirror Eq ((do let _ ← advance; skipGroupRest start steps depth : CursorM Unit) cursor)
        ((do let _ ← advance; skipGroupRest start' steps' depth : CursorM Unit) other) :=
      fun depth => (mirror_advance h).bind fun _ _ _ _ _ h => ih (by omega) depth h
    rw [skipGroupRest, skipGroupRest]
    refine mirror_currentKind h fun kind _ => ?_
    split
    · exact .error
    · exact hrest _
    · exact (mirror_advance h).bind fun _ _ _ _ _ h => mirror_unit h
    · exact hrest _
    · exact hrest _

theorem mirror_skipGroup (h : cursor.Slack other) : Mirror Eq (skipGroup cursor) (skipGroup other) := by
  rw [skipGroup]
  refine (mirror_expect _ h).bind fun _ _ cursor other _ h => ?_
  exact mirror_bounded h fun _ _ hle => mirror_skipGroupRest hle 0 h

theorem mirror_skipTernary {expression expression' : CursorM Unit}
    (hexpression : ∀ cursor other, cursor.Slack other → Mirror Eq (expression cursor) (expression' other))
    (h : cursor.Slack other) : Mirror Eq (skipTernary expression cursor) (skipTernary expression' other) := by
  rw [skipTernary, skipTernary]
  refine (mirror_expectKeyword _ h).bind fun _ _ cursor other _ h => ?_
  refine (mirror_skipGroup h).bind fun _ _ cursor other _ h => ?_
  refine (hexpression _ _ h).bind fun _ _ cursor other _ h => ?_
  exact (mirror_expectKeyword _ h).bind fun _ _ cursor other _ h => hexpression _ _ h

/-- A ternary that is skipped has one token at least. -/
theorem past_skipTernary {expression : CursorM Unit} (hexpression : Advances expression) (hend : cursor.Terminated)
    {later : Cursor} (h : skipTernary expression cursor = .ok () later) : cursor.Past later := by
  obtain ⟨_, _, hkeyword, h⟩ := bind_eq_ok.1 h
  obtain ⟨hword, -, rfl⟩ := expectKeyword_eq_ok.1 hkeyword
  have hkind : cursor.current.kind ≠ .eof := by
    rw [Cursor.kind_of_isKeywordOf hword]
    exact TokenKind.noConfusion
  have hrest := closed_advances.bind closed_advances.skipGroup fun _ => closed_advances.bind hexpression fun _ =>
    closed_advances.bind (closed_advances.expectKeyword "else") fun _ => hexpression
  exact hrest.past h (Cursor.past_advance hend hkind)

theorem mirror_skipRest {steps steps' first first' : Nat} (hle : steps ≤ steps') (waiting : List TokenKind)
    (h : cursor.Slack other) (hpaced : Paced first first' cursor other) :
    Mirror Eq (skipRest steps first waiting cursor) (skipRest steps' first' waiting other) := by
  induction steps generalizing steps' first first' waiting cursor other with
  | zero => exact .error
  | succ steps ih =>
    obtain ⟨steps', rfl⟩ : ∃ n, steps' = n + 1 := ⟨steps' - 1, by omega⟩
    have hle : steps ≤ steps' := by omega
    rw [skipRest, skipRest, bind_get, bind_get]
    cases hcase : cursor.boundary first waiting.isEmpty with
    | clash => exact .error
    | ends =>
      rw [h.boundary hpaced (by rw [hcase]; exact Cursor.Boundary.noConfusion), hcase]
      exact mirror_unit h
    | inside =>
      rw [h.boundary hpaced (by rw [hcase]; exact Cursor.Boundary.noConfusion), hcase]
      have hkind := Cursor.kind_ne_eof_of_inside hcase
      have hpast := Cursor.past_advance h.terminated hkind
      have hpast' := Cursor.past_advance h.terminated' (by rw [h.kind]; exact hkind)
      dsimp only
      rw [h.call, h.isKeywordOf, h.isKeywordOf, h.not_lambda, h.kind]
      refine .ite (fun _ => ?_) fun _ => .ite (fun _ => ?_) fun _ => ?_
      · refine (mirror_advance h).bindRun fun _ _ _ _ hrun hrun' _ h => ?_
        cases hrun
        cases hrun'
        refine (mirror_skipGroup h).bindRun fun _ _ _ _ hgroup hgroup' _ h => ?_
        exact ih hle waiting h (hpaced.past (Advances.past closed_advances.skipGroup hgroup hpast).position
          (Advances.past closed_advances.skipGroup hgroup' hpast').position)
      · have hexpression : ∀ steps, Advances (do skipLineBreaks; skipRest steps (← get).position [] : CursorM Unit) :=
          fun steps => closed_advances.bind closed_advances.skipLineBreaks fun _ =>
            closed_advances.bind closed_advances.get fun _ => closed_advances.skipRest _ _ _
        refine (mirror_skipTernary (fun cursor other h => ?_) h).bindRun fun _ _ _ _ hrun hrun' _ h' => ?_
        · refine (mirror_skipLineBreaks h).bind fun _ _ cursor other _ h => ?_
          rw [bind_get, bind_get]
          exact ih hle [] h (.inl ⟨rfl, rfl⟩)
        · exact ih hle waiting h' (hpaced.past (past_skipTernary (hexpression _) h.terminated hrun).position
            (past_skipTernary (hexpression _) h.terminated' hrun').position)
      · rw [if_neg Bool.false_ne_true, if_neg Bool.false_ne_true]
        refine (mirror_advance h).bindRun fun _ _ _ _ hrun hrun' _ h => ?_
        cases hrun
        cases hrun'
        exact ih hle _ h (hpaced.past hpast.position hpast'.position)

theorem mirror_skipExpression (h : cursor.Slack other) : Mirror Eq (skipExpression cursor) (skipExpression other) := by
  rw [skipExpression]
  refine (mirror_skipLineBreaks h).bind fun _ _ cursor other _ h => ?_
  rw [bind_get, bind_get]
  exact mirror_bounded h fun _ _ hle => mirror_skipRest hle [] h (.inl ⟨rfl, rfl⟩)

end CursorM

end GradualScript
