import Mathlib.Tactic.ByContra
import Mathlib.Tactic.FinCases
import GradualScript.Token.Lexer

/-!
# The shapes of lexemes

A lexeme is told by its characters, and by what may not stand right behind them since the lexeme would have been
longer then.

* `Lexeme.Formed` : the characters that the lexemes of each pattern are made of;
* `Lexeme.Parted` : the text behind a lexeme does not make it longer;
* `first?_iff` : these two are all that it takes to be read;
* `Lexeme.Parted.space`, `Lexeme.Parted.cut` : a blank or a line break behind a lexeme does not change it;
* `split_break`, `split_behind` : so a line break between two lexemes changes neither those before nor those behind it.
-/

set_option autoImplicit false

namespace GradualScript

namespace Text

/-- The text is empty or begins with a character outside of the class. -/
def StopsAt (p : Char → Bool) (text : List Char) : Prop :=
  ∀ c, text.head? = some c → p c = false

variable {p : Char → Bool} {cs rest : List Char}

theorem takeWhile_of_stopsAt (h : StopsAt p rest) : rest.takeWhile p = [] := by
  cases rest with
  | nil => rfl
  | cons c rest => rw [List.takeWhile_cons_of_neg (by simp [h c rfl])]

theorem takeWhile_append_stop (hcs : ∀ c ∈ cs, p c = true) (h : StopsAt p rest) : (cs ++ rest).takeWhile p = cs := by
  rw [List.takeWhile_append_of_pos hcs, takeWhile_of_stopsAt h, List.append_nil]

theorem dropWhile_append_stop (hcs : ∀ c ∈ cs, p c = true) (h : StopsAt p rest) : (cs ++ rest).dropWhile p = rest := by
  rw [List.dropWhile_append_of_pos hcs]
  cases rest with
  | nil => rfl
  | cons c rest => rw [List.dropWhile_cons_of_neg (by simp [h c rfl])]

theorem stopsAt_dropWhile (p : Char → Bool) (cs : List Char) : StopsAt p (cs.dropWhile p) := by
  intro c hc
  have hstop := List.head?_dropWhile_not p cs
  rw [hc] at hstop
  simpa using hstop

theorem run?_append_stop (hcs : ∀ c ∈ cs, p c = true) (hne : cs ≠ []) (h : StopsAt p rest) :
    Pattern.run? p (cs ++ rest) = some (cs, rest) := by
  rw [Pattern.run?, takeWhile_append_stop hcs h, dropWhile_append_stop hcs h]
  cases cs with
  | nil => exact absurd rfl hne
  | cons c cs => rfl

end Text

namespace Pattern

/-- The kind and the spelling of a pattern that matches one text only. -/
def spelling? : Pattern → Option (TokenKind × List Char)
  | .fixed kind spelling => some (kind, spelling)
  | _ => none

theorem mem_spellings {kind : TokenKind} {spelling : List Char} (h : .fixed kind spelling ∈ table) :
    (kind, spelling) ∈ table.filterMap spelling? :=
  List.mem_filterMap.2 ⟨_, h, rfl⟩

end Pattern

open Text (StopsAt)

namespace Lexeme

open Pattern

/-! ## Characters and neighbours -/

/-- What may stand between the quotes of a string: a backslash is followed by a character that ends no line. -/
inductive Enclosed : List Char → Prop where
  | nil : Enclosed []
  | plain {c : Char} {cs : List Char} : c ≠ '"' → c ≠ '\\' → Enclosed cs → Enclosed (c :: cs)
  | escape {c : Char} {cs : List Char} : c ≠ '\n' → Enclosed cs → Enclosed ('\\' :: c :: cs)

/-- The characters of the lexeme are such as its pattern takes. -/
inductive Formed : Lexeme → Prop where
  | word {c : Char} {cs : List Char} : isWordStart c = true → (∀ d ∈ cs, isWordChar d = true) → Formed ⟨.word, c :: cs⟩
  | integer {digits : List Char} : digits ≠ [] → (∀ d ∈ digits, d.isDigit = true) → Formed ⟨.number, digits⟩
  | fraction {digits more : List Char} : digits ≠ [] → (∀ d ∈ digits, d.isDigit = true) → more ≠ [] →
      (∀ d ∈ more, d.isDigit = true) → Formed ⟨.number, digits ++ '.' :: more⟩
  | blanks {run : List Char} : run ≠ [] → (∀ c ∈ run, isGap c = true) → Formed ⟨.blanks, run⟩
  | quoted {inner : List Char} : Enclosed inner → Formed ⟨.quoted, '"' :: (inner ++ ['"'])⟩
  | escapedChar {c : Char} : c ≠ '\n' → Formed ⟨.quotedChar, ['\x27', '\\', c, '\x27']⟩
  | plainChar {c : Char} : c ≠ '\x27' → c ≠ '\\' → Formed ⟨.quotedChar, ['\x27', c, '\x27']⟩
  | comment {body : List Char} : (∀ c ∈ body, c ≠ '\n') → Formed ⟨.comment, '/' :: '/' :: body⟩
  | markedSign {c : Char} : isSign c = true → Formed ⟨.markedSign, ['$', c]⟩
  | sign {c : Char} : isSign c = true → Formed ⟨.sign, [c]⟩
  | fixed {kind : TokenKind} {spelling : List Char} : .fixed kind spelling ∈ table →
      Formed ⟨.fixed kind spelling, spelling⟩

/-- The texts of two characters that are one lexeme or begin one, though the first of them would be one alone. -/
def longer : List (List Char) :=
  [['=', '='], ['!', '='], ['<', '='], ['>', '='], ['-', '>'], ['*', '*'], ['/', '/']]

/-- The lexeme would go on with this character. -/
def goesOnWith (lexeme : Lexeme) (c : Char) : Bool :=
  match lexeme.pattern with
  | .word => isWordChar c
  | .number => c.isDigit
  | .blanks => isGap c
  | .comment => c ≠ '\n'
  | .quoted | .quotedChar | .markedSign => false
  | .sign | .fixed _ _ => longer.contains (lexeme.chars ++ [c])

/-- The text behind the lexeme does not make it longer. A number without a point would also go on with a point that has
a digit behind it. -/
structure Parted (lexeme : Lexeme) (rest : List Char) : Prop where
  stops : StopsAt lexeme.goesOnWith rest
  point : lexeme.pattern = .number → '.' ∉ lexeme.chars → ∀ c tail, rest = '.' :: c :: tail → c.isDigit = false

/-! ## From the shape to the reading -/

variable {cs rest : List Char} {lexeme : Lexeme}

theorem firstOf?_of_none {p : Pattern} {ps : List Pattern} (h : p.match? cs = none) :
    firstOf? cs (p :: ps) = firstOf? cs ps := by
  rw [firstOf?, h]

/-- The pattern at the index `k` takes its text if those before it do not match. -/
theorem first?_at {p : Pattern} {ps : List Pattern} {taken : List Char} (k : Nat) (htable : table.drop k = p :: ps)
    (hskip : first? cs = firstOf? cs (table.drop k)) (h : p.match? cs = some (taken, rest)) :
    first? cs = some (⟨p, taken⟩, rest) := by
  rw [hskip, htable, firstOf?, h]

theorem isWordStart_of_isDigit {c : Char} (h : c.isDigit = true) : isWordStart c = false := by
  rw [Char.isDigit, Bool.and_eq_true, decide_eq_true_eq, decide_eq_true_eq, UInt32.le_iff_toNat_le, ge_iff_le,
    UInt32.le_iff_toNat_le] at h
  change 48 ≤ c.val.toNat ∧ c.val.toNat ≤ 57 at h
  rw [isWordStart, Bool.or_eq_false_iff, decide_eq_false_iff_not]
  constructor
  · change (decide (c.val ≥ 65 ∧ c.val ≤ 90) || decide (c.val ≥ 97) && decide (c.val ≤ 122)) = false
    simp only [ge_iff_le, UInt32.le_iff_toNat_le, Bool.or_eq_false_iff, Bool.and_eq_false_iff, decide_eq_false_iff_not]
    change ¬(65 ≤ c.val.toNat ∧ c.val.toNat ≤ 90) ∧ (¬97 ≤ c.val.toNat ∨ ¬c.val.toNat ≤ 122)
    omega
  · rintro rfl
    change 48 ≤ 95 ∧ 95 ≤ 57 at h
    omega

theorem matchQuotedRest?_enclosed {inner : List Char} (h : Enclosed inner) (rest : List Char) :
    matchQuotedRest? (inner ++ '"' :: rest) = some (inner ++ ['"'], rest) := by
  induction h with
  | nil => rfl
  | @plain c cs hquote hescape _ ih =>
    rw [List.cons_append, matchQuotedRest?.eq_4 _ _ hquote (fun _ _ heq _ => hescape heq), if_neg hescape, ih]
    rfl
  | @escape c cs hc _ ih =>
    rw [List.cons_append, List.cons_append, matchQuotedRest?, if_neg hc, ih]
    rfl

theorem matchNumber?_integer {digits : List Char} (hne : digits ≠ []) (hdigits : ∀ d ∈ digits, d.isDigit = true)
    (hstop : StopsAt Char.isDigit rest) (hpoint : ∀ c tail, rest = '.' :: c :: tail → c.isDigit = false) :
    matchNumber? (digits ++ rest) = some (digits, rest) := by
  have hfraction : matchFraction rest = ([], rest) := by
    unfold matchFraction
    split
    · rename_i tail
      have hnone : run? Char.isDigit tail = none := by
        cases tail with
        | nil => rfl
        | cons c tail => rw [run?, List.takeWhile_cons_of_neg (by simp [hpoint c tail rfl])]
      rw [hnone]
    · rfl
  rw [matchNumber?, Text.run?_append_stop hdigits hne hstop, Option.map_some]
  dsimp only
  rw [hfraction, List.append_nil]

theorem matchNumber?_fraction {digits more : List Char} (hne : digits ≠ []) (hdigits : ∀ d ∈ digits, d.isDigit = true)
    (hmore : more ≠ []) (hdigits' : ∀ d ∈ more, d.isDigit = true) (hstop : StopsAt Char.isDigit rest) :
    matchNumber? (digits ++ '.' :: more ++ rest) = some (digits ++ '.' :: more, rest) := by
  have hpoint : StopsAt Char.isDigit ('.' :: (more ++ rest)) := by
    rintro _ ⟨⟩
    rfl
  have hfraction : matchFraction ('.' :: (more ++ rest)) = ('.' :: more, rest) := by
    rw [matchFraction, Text.run?_append_stop hdigits' hmore hstop]
  rw [List.append_assoc, List.cons_append, matchNumber?, Text.run?_append_stop hdigits hne hpoint, Option.map_some]
  dsimp only
  rw [hfraction]

/-- The head of a text of digits is no letter. -/
theorem matchWord?_digits {digits : List Char} (hne : digits ≠ []) (hdigits : ∀ d ∈ digits, d.isDigit = true) :
    matchWord? (digits ++ rest) = none := by
  cases digits with
  | nil => exact absurd rfl hne
  | cons d digits => rw [List.cons_append, matchWord?, isWordStart_of_isDigit (hdigits d List.mem_cons_self)]; rfl

theorem matchFixed?_pair {s e c : Char} (h : c ≠ e) : matchFixed? [s, e] (s :: c :: rest) = none := by
  simp [matchFixed?, h.symm]

theorem matchComment?_slash {c : Char} (h : c ≠ '/') : matchComment? ('/' :: c :: rest) = none := by
  unfold matchComment?
  split
  · simp_all
  · rfl

/-- A character that starts a longer lexeme with `e` behind it is a lexeme alone with all else behind it. The pattern of
the longer one stands in the table at the index `k`, and those before it do not match. -/
theorem first?_alone {p q : Pattern} {ps : List Pattern} {s : Char} (k : Nat) (e : Char)
    (hlonger : longer.contains [s, e] = true) (hskip : first? (s :: rest) = firstOf? (s :: rest) (table.drop k))
    (htable : table.drop k = q :: ps) (hend : q.match? [s] = none)
    (hother : ∀ c rest, c ≠ e → q.match? (s :: c :: rest) = none)
    (halone : firstOf? (s :: rest) ps = some (⟨p, [s]⟩, rest))
    (hstop : StopsAt (fun c => longer.contains [s, c]) rest) : first? (s :: rest) = some (⟨p, [s]⟩, rest) := by
  rw [hskip, htable, firstOf?_of_none, halone]
  cases rest with
  | nil => exact hend
  | cons c rest =>
    refine hother c rest ?_
    rintro rfl
    have hshort : longer.contains [s, c] = false := hstop c rfl
    rw [hshort] at hlonger
    cases hlonger

/-- A fixed spelling is read where no longer lexeme stands. -/
theorem first?_fixed {p : Pattern} (hmem : p ∈ table) {kind : TokenKind} {spelling : List Char}
    (heq : p = .fixed kind spelling) (hstop : StopsAt (fun c => longer.contains (spelling ++ [c])) rest) :
    first? (spelling ++ rest) = some (⟨p, spelling⟩, rest) := by
  unfold table at hmem
  fin_cases hmem
  all_goals cases heq
  -- most spellings are read whatever stands behind them
  all_goals try rfl
  · exact first?_alone 14 '=' rfl rfl rfl rfl (fun _ _ => matchFixed?_pair) rfl hstop
  · exact first?_alone 13 '=' rfl rfl rfl rfl (fun _ _ => matchFixed?_pair) rfl hstop
  · exact first?_alone 17 '=' rfl rfl rfl rfl (fun _ _ => matchFixed?_pair) rfl hstop
  · exact first?_alone 19 '=' rfl rfl rfl rfl (fun _ _ => matchFixed?_pair) rfl hstop
  · exact first?_alone 31 '*' rfl rfl rfl rfl (fun _ _ => matchFixed?_pair) rfl hstop
  · exact first?_alone 6 '/' rfl rfl rfl rfl (fun _ _ => matchComment?_slash) rfl hstop

/-- A lexeme is read wherever nothing behind it makes it longer. -/
theorem first?_of_formed (hformed : Formed lexeme) (hparted : Parted lexeme rest) :
    first? (lexeme.chars ++ rest) = some (lexeme, rest) := by
  cases hformed with
  | @word c cs hstart hcs =>
    refine first?_at 0 rfl rfl ?_
    change matchWord? (c :: (cs ++ rest)) = some (c :: cs, rest)
    rw [matchWord?, if_pos hstart, Text.takeWhile_append_stop hcs hparted.stops,
      Text.dropWhile_append_stop hcs hparted.stops]
  | @integer digits hne hdigits =>
    have hnone : '.' ∉ digits := fun hmem => absurd (hdigits _ hmem) (by decide)
    have hword : match? .word (digits ++ rest) = none := matchWord?_digits hne hdigits
    exact first?_at 1 rfl (firstOf?_of_none hword)
      (matchNumber?_integer hne hdigits hparted.stops (hparted.point rfl hnone))
  | @fraction digits more hne hdigits hmore hdigits' =>
    have hword : match? .word (digits ++ '.' :: more ++ rest) = none := by
      rw [List.append_assoc]
      exact matchWord?_digits hne hdigits
    exact first?_at 1 rfl (firstOf?_of_none hword) (matchNumber?_fraction hne hdigits hmore hdigits' hparted.stops)
  | @blanks run hne hrun =>
    have hrun? := Text.run?_append_stop hrun hne hparted.stops
    cases run with
    | nil => exact absurd rfl hne
    | cons c run =>
      have hgap : (c = ' ' ∨ c = '\t') ∨ c = '\r' := by simpa [isGap] using hrun c List.mem_cons_self
      rcases hgap with (rfl | rfl) | rfl
      · exact first?_at 3 rfl rfl hrun?
      · exact first?_at 3 rfl rfl hrun?
      · exact first?_at 3 rfl rfl hrun?
  | @quoted inner hinner =>
    refine first?_at 4 rfl rfl ?_
    change matchQuoted? ('"' :: (inner ++ ['"'] ++ rest)) = some ('"' :: (inner ++ ['"']), rest)
    rw [List.append_assoc, List.singleton_append, matchQuoted?, matchQuotedRest?_enclosed hinner]
    rfl
  | @escapedChar c hc =>
    refine first?_at 5 rfl rfl ?_
    change (if c = '\n' then none else some (['\x27', '\\', c, '\x27'], rest)) = _
    rw [if_neg hc]
  | @plainChar c hquote hescape =>
    refine first?_at 5 rfl rfl ?_
    change matchQuotedChar? ('\x27' :: c :: '\x27' :: rest) = _
    simp [matchQuotedChar?, hquote, hescape]
  | @comment body hbody =>
    refine first?_at 6 rfl rfl ?_
    have hbody' : ∀ c ∈ body, decide (c ≠ '\n') = true := fun c hc => decide_eq_true (hbody c hc)
    have hstop : StopsAt (fun c => decide (c ≠ '\n')) rest := hparted.stops
    change some ('/' :: '/' :: (body ++ rest).takeWhile _, (body ++ rest).dropWhile _) = _
    rw [Text.takeWhile_append_stop hbody' hstop, Text.dropWhile_append_stop hbody' hstop]
  | @markedSign c hc =>
    have hsign : c = '+' ∨ c = '-' := by simpa [isSign] using hc
    rcases hsign with rfl | rfl
    · rfl
    · rfl
  | @sign c hc =>
    have hsign : c = '+' ∨ c = '-' := by simpa [isSign] using hc
    rcases hsign with rfl | rfl
    · rfl
    · exact first?_alone 28 '>' rfl rfl rfl rfl (fun _ _ => matchFixed?_pair) rfl hparted.stops
  | fixed hmem => exact first?_fixed hmem rfl hparted.stops

/-! ## From the reading to the shape -/

theorem forall_mem_takeWhile (p : Char → Bool) (cs : List Char) : ∀ c ∈ cs.takeWhile p, p c = true :=
  List.all_eq_true.1 List.all_takeWhile

theorem chars_ne_nil_of_first? (h : first? cs = some (lexeme, rest)) : lexeme.chars ≠ [] :=
  (append_of_match? (firstOf?_eq_some h).2).2

/-- A string ends with its closing quote. -/
theorem enclosed_of_matchQuotedRest? {taken : List Char} (h : matchQuotedRest? cs = some (taken, rest)) :
    ∃ inner, Enclosed inner ∧ taken = inner ++ ['"'] := by
  fun_induction matchQuotedRest? cs generalizing taken with
  | case1 => cases h
  | case2 cs =>
    cases h
    exact ⟨[], .nil, rfl⟩
  | case3 => cases h
  | case4 c cs hc ih =>
    obtain ⟨⟨taken, tail⟩, hrest, heq⟩ := Option.map_eq_some_iff.1 h
    cases heq
    obtain ⟨inner, hinner, rfl⟩ := ih hrest
    exact ⟨'\\' :: c :: inner, .escape hc hinner, rfl⟩
  | case5 => cases h
  | case6 c cs hquote hescape hc ih =>
    obtain ⟨⟨taken, tail⟩, hrest, heq⟩ := Option.map_eq_some_iff.1 h
    cases heq
    obtain ⟨inner, hinner, rfl⟩ := ih hrest
    exact ⟨c :: inner, .plain hquote hc hinner, rfl⟩

theorem matchFraction_cases (cs : List Char) :
    (matchFraction cs = ([], cs) ∧ ∀ c tail, cs = '.' :: c :: tail → c.isDigit = false) ∨
      ∃ more rest, cs = '.' :: (more ++ rest) ∧ matchFraction cs = ('.' :: more, rest) ∧ more ≠ [] ∧
        (∀ d ∈ more, d.isDigit = true) ∧ StopsAt Char.isDigit rest := by
  unfold matchFraction
  split
  · rename_i cs
    cases hrun : run? Char.isDigit cs with
    | none =>
      refine .inl ⟨rfl, ?_⟩
      rintro c tail ⟨⟩
      by_contra hdigit
      rw [run?, List.takeWhile_cons_of_pos (by simpa using hdigit)] at hrun
      cases hrun
    | some found =>
      obtain ⟨more, rest⟩ := found
      obtain ⟨rfl, rfl, hne⟩ := run?_eq_some hrun
      exact .inr ⟨_, _, by rw [List.takeWhile_append_dropWhile], rfl, hne, forall_mem_takeWhile _ _,
        Text.stopsAt_dropWhile _ _⟩
  · rename_i hpoint
    exact .inl ⟨rfl, fun c tail heq => absurd heq (hpoint _)⟩

/-- A text of two characters that is read as one lexeme is not read as its first character. -/
theorem length_of_longer {pair : List Char} (hpair : pair ∈ longer) (h : first? (pair ++ rest) = some (lexeme, cs)) :
    2 ≤ lexeme.chars.length := by
  unfold longer at hpair
  fin_cases hpair
  all_goals cases h
  all_goals simp

/-- What stands behind a lexeme does not make it one of the longer ones. -/
theorem stopsAt_longer {cs : List Char} (h : first? cs = some (lexeme, rest)) :
    StopsAt (fun c => longer.contains (lexeme.chars ++ [c])) rest := by
  intro c hc
  by_contra hlonger
  rw [Bool.not_eq_false, List.contains_iff_mem] at hlonger
  have hsize : ∀ pair ∈ longer, pair.length = 2 := by decide
  have hlength := hsize _ hlonger
  obtain ⟨tail, rfl⟩ := List.head?_eq_some_iff.1 hc
  rw [← append_of_first? h, List.append_cons] at h
  have := length_of_longer hlonger h
  rw [List.length_append, List.length_singleton] at hlength
  omega

/-- Nothing but the point of a number has to be looked at behind other lexemes. -/
theorem Parted.of_stopsAt (hpattern : lexeme.pattern ≠ .number) (h : StopsAt lexeme.goesOnWith rest) :
    Parted lexeme rest :=
  ⟨h, fun hnumber => absurd hnumber hpattern⟩

/-- What a pattern of the table takes is a lexeme. Nothing behind it makes it longer, unless it is the first character
of a longer one. -/
theorem formed_of_match? {pattern : Pattern} {taken : List Char} (hmem : pattern ∈ table)
    (hmatch : pattern.match? cs = some (taken, rest)) :
    Formed ⟨pattern, taken⟩ ∧
      (StopsAt (fun c => longer.contains (taken ++ [c])) rest → Parted ⟨pattern, taken⟩ rest) := by
  cases pattern with
  | word =>
    change matchWord? cs = some (taken, rest) at hmatch
    cases cs with
    | nil => cases hmatch
    | cons c cs =>
      rw [matchWord?] at hmatch
      split at hmatch
      · rename_i hstart
        cases hmatch
        exact ⟨.word hstart (forall_mem_takeWhile _ _), fun _ => .of_stopsAt nofun (Text.stopsAt_dropWhile _ _)⟩
      · cases hmatch
  | number =>
    obtain ⟨⟨digits, tail⟩, hrun, heq⟩ := Option.map_eq_some_iff.1 hmatch
    obtain ⟨rfl, rfl, hne⟩ := run?_eq_some hrun
    dsimp only at heq
    rcases matchFraction_cases (cs.dropWhile Char.isDigit) with
      ⟨hnone, hpoint⟩ | ⟨more, behind, -, hsome, hmore, hdigits, hstop⟩
    · rw [hnone, List.append_nil] at heq
      cases heq
      exact ⟨.integer hne (forall_mem_takeWhile _ _), fun _ => ⟨Text.stopsAt_dropWhile _ _, fun _ _ => hpoint⟩⟩
    · rw [hsome] at heq
      cases heq
      refine ⟨.fraction hne (forall_mem_takeWhile _ _) hmore hdigits, fun _ => ⟨hstop, fun _ hnone => ?_⟩⟩
      exact absurd (List.mem_append_right _ List.mem_cons_self) hnone
  | blanks =>
    obtain ⟨rfl, rfl, hne⟩ := run?_eq_some hmatch
    exact ⟨.blanks hne (forall_mem_takeWhile _ _), fun _ => .of_stopsAt nofun (Text.stopsAt_dropWhile _ _)⟩
  | quoted =>
    change matchQuoted? cs = some (taken, rest) at hmatch
    unfold matchQuoted? at hmatch
    split at hmatch
    · obtain ⟨⟨taken, tail⟩, hrest, heq⟩ := Option.map_eq_some_iff.1 hmatch
      cases heq
      obtain ⟨inner, hinner, rfl⟩ := enclosed_of_matchQuotedRest? hrest
      exact ⟨.quoted hinner, fun _ => .of_stopsAt nofun fun _ _ => rfl⟩
    · cases hmatch
  | quotedChar =>
    change matchQuotedChar? cs = some (taken, rest) at hmatch
    unfold matchQuotedChar? at hmatch
    split at hmatch
    · split at hmatch
      · cases hmatch
      · rename_i hc
        cases hmatch
        exact ⟨.escapedChar hc, fun _ => .of_stopsAt nofun fun _ _ => rfl⟩
    · split at hmatch
      · cases hmatch
      · rename_i hc
        cases hmatch
        simp only [Bool.or_eq_true, decide_eq_true_eq, not_or] at hc
        exact ⟨.plainChar hc.1 hc.2, fun _ => .of_stopsAt nofun fun _ _ => rfl⟩
    · cases hmatch
  | comment =>
    change matchComment? cs = some (taken, rest) at hmatch
    unfold matchComment? at hmatch
    split at hmatch
    · cases hmatch
      refine ⟨.comment fun c hc => of_decide_eq_true (forall_mem_takeWhile _ _ c hc), fun _ => .of_stopsAt nofun ?_⟩
      exact Text.stopsAt_dropWhile _ _
    · cases hmatch
  | markedSign =>
    change matchMarkedSign? cs = some (taken, rest) at hmatch
    unfold matchMarkedSign? at hmatch
    split at hmatch
    · split at hmatch
      · rename_i hc
        cases hmatch
        exact ⟨.markedSign hc, fun _ => .of_stopsAt nofun fun _ _ => rfl⟩
      · cases hmatch
    · cases hmatch
  | sign =>
    change matchSign? cs = some (taken, rest) at hmatch
    unfold matchSign? at hmatch
    split at hmatch
    · split at hmatch
      · rename_i hc
        cases hmatch
        exact ⟨.sign hc, fun hlonger => .of_stopsAt nofun hlonger⟩
      · cases hmatch
    · cases hmatch
  | fixed kind spelling =>
    change matchFixed? spelling cs = some (taken, rest) at hmatch
    unfold matchFixed? at hmatch
    split at hmatch
    · cases hmatch
      exact ⟨.fixed hmem, fun hlonger => .of_stopsAt nofun hlonger⟩
    · cases hmatch

/-- What is read is a lexeme with nothing behind it that would make it longer. -/
theorem formed_of_first? (h : first? cs = some (lexeme, rest)) : Formed lexeme ∧ Parted lexeme rest := by
  obtain ⟨hmem, hmatch⟩ := firstOf?_eq_some h
  obtain ⟨hformed, hparted⟩ := formed_of_match? hmem hmatch
  exact ⟨hformed, hparted (stopsAt_longer h)⟩

/-- The lexeme at the start of a text is told by its characters and by what stands behind them. -/
theorem first?_iff :
    first? cs = some (lexeme, rest) ↔ cs = lexeme.chars ++ rest ∧ Formed lexeme ∧ Parted lexeme rest := by
  constructor
  · intro h
    exact ⟨(append_of_first? h).symm, formed_of_first? h⟩
  · rintro ⟨rfl, hformed, hparted⟩
    exact first?_of_formed hformed hparted

/-! ## Breaks and blanks behind a lexeme -/

theorem longer_eq_false {c : Char} (hc : ∀ pair ∈ longer, c ∉ pair) (chars : List Char) :
    longer.contains (chars ++ [c]) = false := by
  rw [Bool.eq_false_iff]
  intro hmem
  exact hc _ (List.contains_iff_mem.1 hmem) (List.mem_append_right _ List.mem_cons_self)

/-- No lexeme goes on with a line break. -/
theorem goesOnWith_lineBreak (lexeme : Lexeme) : lexeme.goesOnWith '\n' = false := by
  unfold goesOnWith
  split
  · rfl
  · rfl
  · rfl
  · rfl
  · rfl
  · rfl
  · rfl
  · exact longer_eq_false (by decide) _
  · exact longer_eq_false (by decide) _

/-- Only blanks and comments go on with a blank. -/
theorem goesOnWith_space (hblanks : lexeme.pattern ≠ .blanks) (hcomment : lexeme.pattern ≠ .comment) :
    lexeme.goesOnWith ' ' = false := by
  unfold goesOnWith
  split
  · rfl
  · rfl
  · exact absurd ‹_› hblanks
  · exact absurd ‹_› hcomment
  · rfl
  · rfl
  · rfl
  · exact longer_eq_false (by decide) _
  · exact longer_eq_false (by decide) _

namespace Parted

theorem nil (lexeme : Lexeme) : Parted lexeme [] :=
  ⟨nofun, fun _ _ => nofun⟩

/-- A character that the lexeme would not go on with parts it from the rest, unless it is a point. -/
theorem cons {c : Char} (h : lexeme.goesOnWith c = false) (hpoint : c ≠ '.') (rest : List Char) :
    Parted lexeme (c :: rest) := by
  refine ⟨?_, fun _ _ => ?_⟩
  · rintro _ ⟨⟩
    exact h
  · rintro _ _ ⟨⟩
    exact absurd rfl hpoint

theorem space (hblanks : lexeme.pattern ≠ .blanks) (hcomment : lexeme.pattern ≠ .comment) (rest : List Char) :
    Parted lexeme (' ' :: rest) :=
  cons (goesOnWith_space hblanks hcomment) (by decide) rest

/-- The text behind a lexeme still does not make it longer when all from some place on is replaced by another line. -/
theorem cut {near far : List Char} (h : Parted lexeme (near ++ far)) (rest : List Char) :
    Parted lexeme (near ++ '\n' :: rest) := by
  match near with
  | [] => exact cons (goesOnWith_lineBreak lexeme) (by decide) rest
  | c :: near =>
    refine ⟨?_, fun hnumber hnone d tail heq => ?_⟩
    · rintro _ ⟨⟩
      exact h.stops c rfl
    · cases near with
      | nil =>
        cases heq
        rfl
      | cons d near =>
        cases heq
        exact h.point hnumber hnone d _ rfl

end Parted

/-! ## Splitting at a line break -/

/-- The rest of a text is split as it is alone. -/
theorem split_of_first? (h : first? cs = some (lexeme, rest)) :
    split cs = (lexeme :: (split rest).1, (split rest).2) := by
  rw [split]
  split
  · rename_i hnone
    rw [h] at hnone
    cases hnone
  · rename_i hsome
    rw [h] at hsome
    cases hsome
    rfl

theorem first?_of_split {lexemes : List Lexeme} {far : List Char} (h : split cs = (lexeme :: lexemes, far)) :
    ∃ rest, first? cs = some (lexeme, rest) ∧ split rest = (lexemes, far) := by
  cases hfirst : first? cs with
  | none =>
    rw [split] at h
    split at h
    · cases h
    · rename_i hsome
      rw [hfirst] at hsome
      cases hsome
  | some found =>
    obtain ⟨first, rest⟩ := found
    rw [split_of_first? hfirst] at h
    cases h
    exact ⟨rest, rfl, rfl⟩

/-- The lexeme that ends a line. -/
def lineBreak : Lexeme := ⟨.fixed .newline ['\n'], ['\n']⟩

theorem first?_lineBreak (rest : List Char) : first? ('\n' :: rest) = some (lineBreak, rest) :=
  rfl

/-- A line break between two lexemes leaves those before it as they are, whatever is behind it. -/
theorem split_break {earlier later : List Lexeme} {far : List Char} (h : split cs = (earlier ++ later, far))
    (rest : List Char) :
    split (earlier.flatMap chars ++ '\n' :: rest) = (earlier ++ lineBreak :: (split rest).1, (split rest).2) := by
  induction earlier generalizing cs with
  | nil => exact split_of_first? (first?_lineBreak rest)
  | cons lexeme earlier ih =>
    rw [List.cons_append] at h
    obtain ⟨tail, hfirst, hsplit⟩ := first?_of_split h
    obtain ⟨hformed, hparted⟩ := formed_of_first? hfirst
    have htail := split_append tail
    rw [hsplit, List.flatMap_append, List.append_assoc] at htail
    rw [← htail] at hparted
    rw [List.flatMap_cons, List.append_assoc, split_of_first? (first?_of_formed hformed (hparted.cut rest)), ih hsplit]
    rfl

/-- The lexemes behind a place are those of the text behind it. -/
theorem split_behind {earlier later : List Lexeme} {far : List Char} (h : split cs = (earlier ++ later, far)) :
    split (later.flatMap chars ++ far) = (later, far) := by
  induction earlier generalizing cs with
  | nil =>
    rw [List.nil_append] at h
    have happend := split_append cs
    rw [h] at happend
    rw [happend, h]
  | cons lexeme earlier ih =>
    rw [List.cons_append] at h
    obtain ⟨tail, -, hsplit⟩ := first?_of_split h
    exact ih hsplit

end Lexeme

end GradualScript
