import GradualScript.Proofs.Token.Lossless

/-!
# The first match is the longest

Patterns are tried in the order of the table, and the first that matches is taken. Most texts begin with a character
that only one pattern starts with; where two do, the longer one comes first. So no other pattern would have taken more.

* `Lexeme.match?_of_formed` : a pattern takes at least as much as any of its lexemes that stands at the start;
* `Lexeme.length_le_of_match?` : what is read is at least as long as what any pattern of the table takes;
* `Lexeme.LongestAt` : the first match and the longest lexeme at the start of a text;
* `first_match_longest` : so it is at the start of every text, and at each place where a text is split.
-/

set_option autoImplicit false

namespace GradualScript

namespace Lexeme

open Pattern

variable {cs rest : List Char} {lexeme : Lexeme}

/-! ## What a pattern takes -/

theorem run?_append {p : Char → Bool} (hcs : ∀ c ∈ cs, p c = true) (hne : cs ≠ []) (rest : List Char) :
    run? p (cs ++ rest) = some (cs ++ rest.takeWhile p, rest.dropWhile p) := by
  rw [run?, List.takeWhile_append_of_pos hcs, List.dropWhile_append_of_pos hcs]
  cases cs with
  | nil => exact absurd rfl hne
  | cons c cs => rfl

theorem mem_table_of_formed (h : Formed lexeme) : lexeme.pattern ∈ table := by
  cases h with
  | fixed hmem => exact hmem
  | _ =>
    dsimp only
    decide

/-- A lexeme at the start of a text is matched by its pattern, which may take more. -/
theorem match?_of_formed (h : Formed lexeme) (rest : List Char) :
    ∃ more behind, lexeme.pattern.match? (lexeme.chars ++ rest) = some (lexeme.chars ++ more, behind) := by
  cases h with
  | @word c cs hstart hcs =>
    refine ⟨rest.takeWhile isWordChar, rest.dropWhile isWordChar, ?_⟩
    show matchWord? (c :: (cs ++ rest)) = _
    rw [matchWord?, if_pos hstart, List.takeWhile_append_of_pos hcs, List.dropWhile_append_of_pos hcs]
    rfl
  | @integer digits hne hdigits =>
    refine ⟨rest.takeWhile Char.isDigit ++ (matchFraction (rest.dropWhile Char.isDigit)).1,
      (matchFraction (rest.dropWhile Char.isDigit)).2, ?_⟩
    show matchNumber? (digits ++ rest) = _
    rw [matchNumber?, run?_append hdigits hne, Option.map_some]
    dsimp only
    rw [List.append_assoc]
  | @fraction digits more hne hdigits hmore hdigits' =>
    refine ⟨rest.takeWhile Char.isDigit, rest.dropWhile Char.isDigit, ?_⟩
    have hfraction : matchFraction ('.' :: (more ++ rest)) =
        ('.' :: (more ++ rest.takeWhile Char.isDigit), rest.dropWhile Char.isDigit) := by
      rw [matchFraction, run?_append hdigits' hmore]
    have hpoint : Text.StopsAt Char.isDigit ('.' :: (more ++ rest)) := by
      rintro _ ⟨⟩
      rfl
    show matchNumber? (digits ++ '.' :: more ++ rest) = _
    rw [List.append_assoc, List.cons_append, matchNumber?, Text.run?_append_stop hdigits hne hpoint, Option.map_some]
    dsimp only
    rw [hfraction, List.append_assoc, List.cons_append]
  | blanks hne hrun => exact ⟨_, _, run?_append hrun hne rest⟩
  | @quoted inner hinner =>
    refine ⟨[], rest, ?_⟩
    show matchQuoted? ('"' :: (inner ++ ['"'] ++ rest)) = _
    rw [List.append_assoc, List.singleton_append, matchQuoted?, matchQuotedRest?_enclosed hinner, List.append_nil]
    rfl
  | @escapedChar c hc =>
    refine ⟨[], rest, ?_⟩
    show (if c = '\n' then none else some (['\x27', '\\', c, '\x27'], rest)) = _
    rw [if_neg hc]
    rfl
  | @plainChar c hquote hescape =>
    refine ⟨[], rest, ?_⟩
    show matchQuotedChar? ('\x27' :: c :: '\x27' :: rest) = _
    simp [matchQuotedChar?, hquote, hescape]
  | @comment body hbody =>
    refine ⟨rest.takeWhile (· ≠ '\n'), rest.dropWhile (· ≠ '\n'), ?_⟩
    have hbody' : ∀ c ∈ body, decide (c ≠ '\n') = true := fun c hc => decide_eq_true (hbody c hc)
    show some ('/' :: '/' :: (body ++ rest).takeWhile _, (body ++ rest).dropWhile _) = _
    rw [List.takeWhile_append_of_pos hbody', List.dropWhile_append_of_pos hbody']
    rfl
  | @markedSign c hc =>
    refine ⟨[], rest, ?_⟩
    show (if isSign c then some (['$', c], rest) else none) = _
    rw [if_pos hc]
    rfl
  | @sign c hc =>
    refine ⟨[], rest, ?_⟩
    show (if isSign c then some ([c], rest) else none) = _
    rw [if_pos hc]
    rfl
  | @fixed kind spelling hmem =>
    have hspelled : ∀ entry ∈ table.filterMap spelling?, entry.2 ≠ [] := by decide
    have hne : spelling ≠ [] := hspelled _ (mem_spellings hmem)
    refine ⟨[], rest, ?_⟩
    show matchFixed? spelling (spelling ++ rest) = _
    simp [matchFixed?, List.isPrefixOf_iff_prefix, hne]

/-! ## The first match -/

/-- The patterns before the one that is taken do not match. -/
theorem exists_earlier_of_firstOf? {ps : List Pattern} (h : firstOf? cs ps = some (lexeme, rest)) :
    ∃ earlier later, ps = earlier ++ lexeme.pattern :: later ∧ ∀ p ∈ earlier, p.match? cs = none := by
  induction ps with
  | nil => cases h
  | cons p ps ih =>
    rw [firstOf?] at h
    split at h
    · cases h
      exact ⟨[], ps, rfl, List.forall_mem_nil _⟩
    · rename_i hnone
      obtain ⟨earlier, later, rfl, hearlier⟩ := ih h
      exact ⟨p :: earlier, later, rfl, List.forall_mem_cons.2 ⟨hnone, hearlier⟩⟩

theorem match?_of_firstOf?_none {ps : List Pattern} (h : firstOf? cs ps = none) : ∀ p ∈ ps, p.match? cs = none := by
  induction ps with
  | nil => exact List.forall_mem_nil _
  | cons p ps ih =>
    rw [firstOf?] at h
    split at h
    · cases h
    · rename_i hnone
      exact List.forall_mem_cons.2 ⟨hnone, ih h⟩

/-- What is read is at least as long as what any pattern of the table takes. -/
theorem length_le_of_match? (h : first? cs = some (lexeme, rest)) {pattern : Pattern} {taken behind : List Char}
    (hmem : pattern ∈ table) (hmatch : pattern.match? cs = some (taken, behind)) :
    taken.length ≤ lexeme.chars.length := by
  obtain ⟨hformed, hparted⟩ := formed_of_match? hmem hmatch
  by_cases hstop : Text.StopsAt (fun c => longer.contains (taken ++ [c])) behind
  · -- nothing makes the match longer, so it is what is read
    have hfirst := first?_of_formed hformed (hparted hstop)
    rw [(append_of_match? hmatch).1, h] at hfirst
    cases hfirst
    exact Nat.le_refl _
  · -- the match is a single character, and what is read has one at least
    simp only [Text.StopsAt, not_forall, Bool.not_eq_false] at hstop
    obtain ⟨c, -, hlonger⟩ := hstop
    have hsize : ∀ pair ∈ longer, pair.length = 2 := by decide
    have hlength := hsize _ (List.contains_iff_mem.1 hlonger)
    rw [List.length_append, List.length_singleton] at hlength
    have hpos := List.length_pos_iff.2 (chars_ne_nil_of_first? h)
    omega

/-- Of two beginnings of a text the one with fewer characters has fewer bytes. -/
theorem byteSize_le_of_length_le {taken behind : List Char} (h : taken ++ behind = cs) (h' : lexeme.chars ++ rest = cs)
    (hle : taken.length ≤ lexeme.chars.length) : byteSize taken ≤ byteSize lexeme.chars := by
  obtain ⟨more, hmore⟩ := List.prefix_of_prefix_length_le ⟨behind, h⟩ ⟨rest, h'⟩ hle
  rw [← hmore, byteSize_append]
  omega

/-- The lexeme is what the first matching pattern of the table takes from the start of the text, and no pattern would
take more, nor is there a longer lexeme of any pattern. -/
structure LongestAt (text : List Char) (lexeme : Lexeme) (rest : List Char) : Prop where
  taken : lexeme.pattern.match? text = some (lexeme.chars, rest)
  first : ∃ earlier later, table = earlier ++ lexeme.pattern :: later ∧ ∀ p ∈ earlier, p.match? text = none
  moves : 1 ≤ byteSize lexeme.chars ∧ byteSize lexeme.chars + byteSize rest = byteSize text
  longest : ∀ p ∈ table, ∀ taken behind, p.match? text = some (taken, behind) →
    byteSize taken ≤ byteSize lexeme.chars
  unsplit : ∀ other, Formed other → other.chars <+: text → byteSize other.chars ≤ byteSize lexeme.chars

theorem longestAt_of_first? (h : first? cs = some (lexeme, rest)) : LongestAt cs lexeme rest where
  taken := (firstOf?_eq_some h).2
  first := exists_earlier_of_firstOf? h
  moves := by
    refine ⟨Text.byteSize_pos (chars_ne_nil_of_first? h), ?_⟩
    rw [← byteSize_append, append_of_first? h]
  longest p hmem taken behind hmatch :=
    byteSize_le_of_length_le (append_of_match? hmatch).1 (append_of_first? h) (length_le_of_match? h hmem hmatch)
  unsplit := by
    rintro other hformed ⟨behind, rfl⟩
    obtain ⟨more, far, hmatch⟩ := match?_of_formed hformed behind
    refine byteSize_le_of_length_le rfl (append_of_first? h) ?_
    have hlength := length_le_of_match? h (mem_table_of_formed hformed) hmatch
    rw [List.length_append] at hlength
    omega

/-- The text that is left over starts with no lexeme. -/
theorem first?_split (text : List Char) : first? (split text).2 = none := by
  fun_induction split text with
  | case1 text h => exact h
  | case2 text lexeme rest h _ ih => exact ih

end Lexeme

open Lexeme

/-- At the start of a text, either no pattern matches, or the first one of the table that does takes the longest lexeme
there, which is not empty. So it is wherever a text is split, which goes on as long as a pattern matches. -/
theorem first_match_longest (text : List Char) :
    (match first? text with
      | none => ∀ p ∈ Pattern.table, p.match? text = none
      | some (lexeme, rest) => LongestAt text lexeme rest) ∧
    (∀ earlier lexeme later far, split text = (earlier ++ lexeme :: later, far) →
      LongestAt ((lexeme :: later).flatMap chars ++ far) lexeme (later.flatMap chars ++ far)) ∧
    ∀ p ∈ Pattern.table, p.match? (split text).2 = none := by
  refine ⟨?_, fun earlier lexeme later far h => ?_, match?_of_firstOf?_none (first?_split text)⟩
  · cases hfirst : first? text with
    | none => exact match?_of_firstOf?_none hfirst
    | some found => exact longestAt_of_first? hfirst
  · obtain ⟨rest, hfirst, hsplit⟩ := first?_of_split (split_behind h)
    have hrest : later.flatMap chars ++ far = rest := by
      have happend := split_append rest
      rw [hsplit] at happend
      exact happend
    rw [hrest]
    exact longestAt_of_first? hfirst

end GradualScript
