import Abacus.Proofs.Automaton.Lazy

/-!
# The tokens of a source

A source is written as blanks and lexemes in turn, each lexeme being the longest piece of what is left that
spells a token. It has tokens just when nothing but blanks is left at its end and all its literals fit; then
its tokens are what the lexemes spell, each at the place of its first character. Otherwise the first piece
that is no token is reported: a character with which none begins, or a literal that does not fit.

The lexer is followed along the lexemes at the front of a source. Up to the first piece that is no token it
does nothing but collect them.

## Main definitions

* `spelled` — the text of blanks and lexemes in turn
* `Segmented` — the blanks and lexemes with which a source begins
* `Refused` — the piece that stands next in a source is no token

## Main results

* `cuts_iff_segmented` — lexemes are cut one after the other from a source that is so written
* `exists_cuts_fits` — every source can be cut up to its end, or to the first piece that is no token
* `Cuts.tokenize_eq` — the lexer collects the lexemes at the front of a source
* `tokenize_segmented` — the tokens of a source, and the error about a source that has none
-/

namespace Abacus

/-! ### Blanks and lexemes in turn -/

/-- The text of pieces, each of which is a lexeme with the blanks before it. -/
def spelled (pieces : List (List Char × Lexeme)) : List Char :=
  pieces.flatMap fun (blanks, l) => blanks ++ l.chars

@[simp] theorem spelled_nil : spelled [] = [] := rfl

@[simp] theorem spelled_append (pieces more : List (List Char × Lexeme)) :
    spelled (pieces ++ more) = spelled pieces ++ spelled more := by
  simp [spelled]

@[simp] theorem spelled_cons (blanks : List Char) (l : Lexeme) (pieces : List (List Char × Lexeme)) :
    spelled ((blanks, l) :: pieces) = blanks ++ (l.chars ++ spelled pieces) := by
  simp [spelled]

/-- A source is the text of some pieces and the given rest. In each piece there are blanks before a lexeme,
the lexeme is the longest prefix of the text from there on that spells a token, and it has the place of its
first character. -/
structure Segmented (source : List Char) (pieces : List (List Char × Lexeme)) (rest : List Char) :
    Prop where
  text : source = spelled pieces ++ rest
  piece : ∀ before blanks l after, pieces = before ++ (blanks, l) :: after →
    Blank blanks ∧ l.kind.Spells l.chars ∧ Longest l.chars (spelled after ++ rest) ∧
      l.pos = .behind (spelled before ++ blanks)

section Segmented

variable {source rest : List Char} {pieces : List (List Char × Lexeme)} {blanks : List Char}
  {l : Lexeme}

/-- The last piece is cut from the rest that the others leave. -/
theorem segmented_concat_iff :
    Segmented source (pieces ++ [(blanks, l)]) rest ↔
      Segmented source pieces (blanks ++ (l.chars ++ rest)) ∧ Blank blanks ∧
        l.kind.Spells l.chars ∧ Longest l.chars rest ∧
          l.pos = .behind (spelled pieces ++ blanks) := by
  constructor
  · rintro ⟨htext, hpiece⟩
    refine ⟨⟨by rw [htext]; simp, fun before gap m after hsplit => ?_⟩, ?_⟩
    · have hpieces : pieces ++ [(blanks, l)] = before ++ (gap, m) :: (after ++ [(blanks, l)]) := by
        rw [hsplit]
        simp
      obtain ⟨hgap, hspells, hlongest, hpos⟩ := hpiece _ _ _ _ hpieces
      exact ⟨hgap, hspells, by simpa using hlongest, hpos⟩
    · exact hpiece pieces blanks l [] rfl
  · rintro ⟨⟨htext, hpiece⟩, hlast⟩
    refine ⟨by rw [htext]; simp, fun before gap m after hsplit => ?_⟩
    rcases List.eq_nil_or_concat after with rfl | ⟨after, final, rfl⟩
    · -- the piece is the last one
      obtain ⟨rfl, hsame⟩ := List.append_inj' hsplit rfl
      cases hsame
      exact hlast
    · have hsplit' : pieces ++ [(blanks, l)] = (before ++ (gap, m) :: after) ++ [final] := by
        rw [hsplit]
        simp
      obtain ⟨hpieces, hsame⟩ := List.append_inj' hsplit' rfl
      cases hsame
      obtain ⟨hgap, hspells, hlongest, hpos⟩ := hpiece _ _ _ _ hpieces
      exact ⟨hgap, hspells, by simpa using hlongest, hpos⟩

theorem segmented_nil : Segmented source [] source :=
  ⟨rfl, fun before blanks l after h => by simp at h⟩

theorem Segmented.eq_of_nil (h : Segmented source [] rest) : rest = source :=
  h.text.symm

/-- Lexemes stand at the front of a source, one after the other, when the source begins with pieces that
hold them. -/
theorem cuts_iff_segmented {ls : List Lexeme} :
    Cuts source ls rest ↔ ∃ pieces, Segmented source pieces rest ∧ pieces.map Prod.snd = ls := by
  constructor
  · intro h
    induction h with
    | start => exact ⟨[], segmented_nil, rfl⟩
    | @next ls l text rest _ hl ih =>
      obtain ⟨pieces, hpieces, rfl⟩ := ih
      obtain ⟨within, skips, spells, longest, place⟩ := hl
      rename_i before blanks _
      -- what comes before the text that is left is what the pieces spell
      have hbefore : before = spelled pieces :=
        List.append_cancel_right (within.symm.trans hpieces.text)
      refine ⟨pieces ++ [(blanks, l)], segmented_concat_iff.2 ?_, by simp⟩
      exact ⟨hpieces, skips, spells, longest, hbefore ▸ place⟩
  · rintro ⟨pieces, hpieces, rfl⟩
    induction pieces using List.reverseRecOn generalizing rest with
    | nil =>
      rw [hpieces.eq_of_nil]
      exact .start
    | append_singleton pieces piece ih =>
      obtain ⟨blanks, l⟩ := piece
      obtain ⟨hfirst, skips, spells, longest, place⟩ := segmented_concat_iff.1 hpieces
      rw [List.map_append]
      exact .next (ih hfirst) ⟨hfirst.text, skips, spells, longest, place⟩

end Segmented

/-! ### The first piece that is no token -/

/-- The piece that stands next in the text that is left of a source is no token, and the error says so: no
token begins with the character after the blanks, or the lexeme there is a literal that does not fit. -/
inductive Refused (source rest : List Char) : LexError → Prop
  | unexpected {c : Char} {place : Position} (h : StopsAt source rest c place)
      (alone : ¬(c = '&' ∨ c = '|')) : Refused source rest (.unexpected c place)
  | unpaired {c : Char} {place : Position} (h : StopsAt source rest c place)
      (half : c = '&' ∨ c = '|') : Refused source rest (.unpaired c place)
  | tooLarge {l : Lexeme} {after : List Char} (h : Next source rest l after) (short : ¬l.TooLong)
      (large : l.TooLarge) : Refused source rest (.tooLarge (String.ofList l.chars) l.pos)
  | tooManyDigits {l : Lexeme} {after : List Char} (h : Next source rest l after)
      (long : l.TooLong) : Refused source rest (.tooManyDigits l.chars.length)

section Refused

variable {source front text rest : List Char} {ls ms : List Lexeme} {l : Lexeme}

theorem Lexeme.token_of_tooLong (h : l.TooLong) : l.token = .error (.tooManyDigits l.chars.length) := by
  rw [token_eq, if_pos h]

theorem Lexeme.token_of_tooLarge (h : ¬l.TooLong) (h' : l.TooLarge) :
    l.token = .error (.tooLarge (String.ofList l.chars) l.pos) := by
  rw [token_eq, if_neg h, if_pos h']

/-- A lexeme that does not fit is refused. -/
theorem exists_refused_of_not_fits (h : Next source text l rest) (hl : ¬l.Fits) :
    ∃ e, Refused source text e := by
  by_cases hlong : l.TooLong
  · exact ⟨_, .tooManyDigits h hlong⟩
  · by_cases hlarge : l.TooLarge
    · exact ⟨_, .tooLarge h hlong hlarge⟩
    · exact absurd ⟨hlong, hlarge⟩ hl

/-- A character with which no token begins is refused. -/
theorem exists_refused_of_stopsAt {c : Char} {place : Position} (h : StopsAt source rest c place) :
    ∃ e, Refused source rest e := by
  by_cases hc : c = '&' ∨ c = '|'
  · exact ⟨_, .unpaired h hc⟩
  · exact ⟨_, .unexpected h hc⟩

theorem Cuts.of_append (h : Cuts source (ls ++ ms) rest) : ∃ text, Cuts source ls text := by
  induction ms using List.reverseRecOn generalizing rest with
  | nil => exact ⟨rest, by simpa using h⟩
  | append_singleton ms m ih =>
    rw [← List.append_assoc] at h
    obtain ⟨text, hcuts, -⟩ := h.of_append_singleton
    exact ih hcuts

instance (l : Lexeme) : Decidable l.Fits :=
  inferInstanceAs (Decidable (_ ∧ _))

/-- Where not all lexemes fit, there is a first one that does not. -/
theorem exists_first_misfit (h : ¬∀ l ∈ ls, l.Fits) :
    ∃ before l after, ls = before ++ l :: after ∧ (∀ m ∈ before, m.Fits) ∧ ¬l.Fits := by
  obtain ⟨l, hfind⟩ : ∃ l, ls.find? (fun l => ¬l.Fits) = some l := by
    rw [← Option.isSome_iff_exists, List.find?_isSome]
    simpa using h
  obtain ⟨hl, before, after, hls, hbefore⟩ := List.find?_eq_some_iff_append.1 hfind
  simp only [decide_not, Bool.not_eq_true', decide_eq_false_iff_not, Bool.not_not,
    decide_eq_true_eq] at hl hbefore
  exact ⟨before, l, after, hls, hbefore, hl⟩

/-- The source is cut up to any of its lexemes, and that one stands next. -/
theorem Cuts.exists_next (h : Cuts source (ls ++ l :: ms) rest) :
    ∃ text after, Cuts source ls text ∧ Next source text l after := by
  rw [List.append_cons] at h
  obtain ⟨after, hfirst⟩ := h.of_append
  obtain ⟨text, hcuts, hnext⟩ := hfirst.of_append_singleton
  exact ⟨text, after, hcuts, hnext⟩

/-- Every source can be cut into lexemes that fit, up to its end or to the first piece that is no token. -/
theorem exists_cuts_fits (source : List Char) :
    ∃ ls rest, Cuts source ls rest ∧ (∀ l ∈ ls, l.Fits) ∧ (Blank rest ∨ ∃ e, Refused source rest e) := by
  obtain ⟨ls, rest, hcuts, hend⟩ := exists_cuts source
  by_cases hfits : ∀ l ∈ ls, l.Fits
  · refine ⟨ls, rest, hcuts, hfits, hend.imp_right ?_⟩
    rintro ⟨c, place, hstop⟩
    exact exists_refused_of_stopsAt hstop
  · -- the source is cut up to the first literal that does not fit only
    obtain ⟨before, l, after, rfl, hbefore, hl⟩ := exists_first_misfit hfits
    obtain ⟨text, rest', hcuts', hnext⟩ := hcuts.exists_next
    exact ⟨before, text, hcuts', hbefore, .inr (exists_refused_of_not_fits hnext hl)⟩

/-! ### The lexer along the lexemes -/

/-- The lexer collects the lexemes at the front of a source, and goes on with what is left. -/
theorem Cuts.tokenize_eq (h : Cuts source ls rest) (hfront : source = front ++ rest)
    (hfits : ∀ l ∈ ls, l.Fits) :
    tokenize source = (Lexer.tokensFrom (.behind front) rest).map (ls.map Lexeme.bare ++ ·) := by
  induction h generalizing front with
  | start =>
    obtain rfl : front = [] := List.append_left_eq_self.1 hfront.symm
    rw [tokenize, ← Position.after_start, Position.after_nil]
    cases Lexer.tokensFrom .start source <;> rfl
  | @next ls l text rest h hl ih =>
    obtain ⟨hls, hlast⟩ := List.forall_mem_append.1 hfits
    have htoken : l.token = .ok l.bare :=
      Lexeme.token_eq_ok_bare_iff.2 (hlast l (List.mem_singleton_self l))
    obtain ⟨before, hbefore⟩ := h.exists_front
    obtain ⟨front', hfront', hstop⟩ := hl.exists_front
    obtain rfl : front' = front := List.append_cancel_right (hfront'.symm.trans hfront)
    -- one more step of the lexer takes the lexeme
    rw [ih hbefore hls, tokensFrom_eq, (next_iff_scan hbefore).1 hl]
    dsimp only
    rw [htoken, hstop]
    cases Lexer.tokensFrom (.behind front') rest with
    | error e => rfl
    | ok ts => simp [bind, Except.bind, pure, Except.pure, Except.map]

/-- The lexer stops at a piece that is no token, with the error about it. -/
theorem Refused.tokensFrom_eq {e : LexError} (h : Refused source rest e)
    (hfront : source = front ++ rest) : Lexer.tokensFrom (.behind front) rest = .error e := by
  rw [Abacus.tokensFrom_eq]
  cases h with
  | unexpected h alone =>
    rw [(stopsAt_iff_scan hfront).1 h]
    simp [LexError.ofFault, alone]
  | unpaired h half =>
    rw [(stopsAt_iff_scan hfront).1 h]
    simp [LexError.ofFault, half]
  | tooLarge h short large =>
    rw [(next_iff_scan hfront).1 h]
    dsimp only
    rw [Lexeme.token_of_tooLarge short large]
    rfl
  | tooManyDigits h long =>
    rw [(next_iff_scan hfront).1 h]
    dsimp only
    rw [Lexeme.token_of_tooLong long]
    rfl

theorem Cuts.tokenize_of_blank (h : Cuts source ls rest) (hfits : ∀ l ∈ ls, l.Fits)
    (hblank : Blank rest) : tokenize source = .ok (ls.map Lexeme.bare) := by
  obtain ⟨front, hfront⟩ := h.exists_front
  rw [h.tokenize_eq hfront hfits, tokensFrom_ending (scan_eq_ending_iff.2 hblank)]
  simp [Except.map]

theorem Cuts.tokenize_of_refused (h : Cuts source ls rest) (hfits : ∀ l ∈ ls, l.Fits)
    {e : LexError} (he : Refused source rest e) : tokenize source = .error e := by
  obtain ⟨front, hfront⟩ := h.exists_front
  rw [h.tokenize_eq hfront hfits, he.tokensFrom_eq hfront]
  rfl

end Refused

/-- A source has the tokens `ts` just when it is written as blanks and lexemes in turn, with blanks at its
end, where every lexeme is the longest prefix of the text from there on that spells a token and every
literal fits; the tokens are those that the lexemes spell, each at the place of its first character.

It has an error just when it begins in this way and the next piece is no token, and the error is about that
piece and its place. -/
theorem tokenize_segmented (source : List Char) :
    (∀ ts, tokenize source = .ok ts ↔
      ∃ pieces tail, Segmented source pieces tail ∧ Blank tail ∧ (∀ p ∈ pieces, p.2.Fits) ∧
        ts = pieces.map fun p => p.2.bare) ∧
    ∀ e, tokenize source = .error e ↔
      ∃ pieces rest, Segmented source pieces rest ∧ (∀ p ∈ pieces, p.2.Fits) ∧
        Refused source rest e := by
  -- for pieces as for lexemes, what follows from the lexer is the same
  have hok : ∀ {pieces tail}, Segmented source pieces tail → Blank tail →
      (∀ p ∈ pieces, p.2.Fits) → tokenize source = .ok (pieces.map fun p => p.2.bare) := by
    intro pieces tail hpieces hblank hfits
    have hcuts := cuts_iff_segmented.2 ⟨pieces, hpieces, rfl⟩
    rw [hcuts.tokenize_of_blank (List.forall_mem_map.2 hfits) hblank, List.map_map]
    rfl
  have herror : ∀ {pieces rest e}, Segmented source pieces rest → (∀ p ∈ pieces, p.2.Fits) →
      Refused source rest e → tokenize source = .error e := by
    intro pieces rest e hpieces hfits he
    have hcuts := cuts_iff_segmented.2 ⟨pieces, hpieces, rfl⟩
    exact hcuts.tokenize_of_refused (List.forall_mem_map.2 hfits) he
  obtain ⟨ls, rest, hcuts, hfits, hend⟩ := exists_cuts_fits source
  obtain ⟨pieces, hpieces, rfl⟩ := cuts_iff_segmented.1 hcuts
  have hfits' := List.forall_mem_map.1 hfits
  refine ⟨fun ts => ⟨fun h => ?_, ?_⟩, fun e => ⟨fun h => ?_, ?_⟩⟩
  · rcases hend with hblank | ⟨e, he⟩
    · have hts := hok hpieces hblank hfits'
      rw [h] at hts
      exact ⟨pieces, rest, hpieces, hblank, hfits', Except.ok.inj hts⟩
    · rw [herror hpieces hfits' he] at h
      cases h
  · rintro ⟨pieces, tail, hpieces, hblank, hfits, rfl⟩
    exact hok hpieces hblank hfits
  · rcases hend with hblank | ⟨e', he⟩
    · rw [hok hpieces hblank hfits'] at h
      cases h
    · have hsame := herror hpieces hfits' he
      rw [h] at hsame
      exact ⟨pieces, rest, hpieces, hfits', Except.error.inj hsame ▸ he⟩
  · rintro ⟨pieces, rest, hpieces, hfits, he⟩
    exact herror hpieces hfits he

end Abacus
