import Abacus.Proofs.Token.Writing
import Abacus.Session
import Mathlib.Data.List.Forall2

/-!
# Tokens that are shown

Tokens can be shown as text and cut from it again, whatever blanks are between them. The tokens of a source
can be shown in this way, and they are: the trace of a run begins with a line that shows the tokens of the
source. Cutting what stands in this line gives the tokens of the source, though at other places.

## Main results

* `Token.forall₂_same_iff` — the same tokens, wherever they stand
* `trace_runSource` — the first line of a trace
* `tokenize_spaced` — tokens are found again when they are shown
-/

namespace Abacus

theorem Token.same_iff {s t : Token} : s.same t = true ↔ s.content = t.content := by
  simp [same, content]

/-- Tokens are the same, one by one, when they differ in nothing but their places. -/
theorem Token.forall₂_same_iff {us ts : List Token} :
    List.Forall₂ (fun u t => u.same t = true) us ts ↔ us.map content = ts.map content := by
  simp only [same_iff]
  rw [← List.forall₂_eq_eq_eq, List.forall₂_map_left_iff, List.forall₂_map_right_iff]

/-- The trace of a source that is read by descent begins with its tokens, whether or not it can be read. -/
theorem trace_runSource {source : List Char} {ts : List Token} (h : tokenize source = .ok ts)
    (table : Table) {level : Int} (hlevel : 1 ≤ level) :
    ∃ more, trace level (runSource (.known .descent) source table).events =
      (Event.tokens ts).text :: more := by
  -- the tokens are noted before they are read
  have hevents : ∃ events, (runSource (.known .descent) source table).events = .tokens ts :: events := by
    simp only [runSource, runByDescent, h]
    cases readTokens ts with
    | error e => exact ⟨[], rfl⟩
    | ok program => exact ⟨_, rfl⟩
  obtain ⟨events, hevents⟩ := hevents
  have hshown : (Event.tokens ts).level ≤ level := hlevel
  rw [hevents, trace, List.filter_cons_of_pos (by simpa using hshown)]
  exact ⟨_, rfl⟩

/-- Tokens that carry what tokens of a text carry are found again, though at other places, in every text that
has blanks between any two of them. The tokens of every source are such. So cutting what the trace of a
source shows after its first heading gives the tokens of the source. -/
theorem tokenize_spaced :
    (∀ ts text, (∀ t ∈ ts, t.IsSourced) → Token.Spaced ts text →
      ∃ us, tokenize text = .ok us ∧ List.Forall₂ (fun u t => u.same t = true) us ts) ∧
    ∀ source ts, tokenize source = .ok ts →
      (∀ t ∈ ts, t.IsSourced) ∧
      ∃ line : String, (Event.tokens ts).text = "tokens: " ++ line ∧
        (∃ us, tokenize line.toList = .ok us ∧ List.Forall₂ (fun u t => u.same t = true) us ts) ∧
        ∀ table level, 1 ≤ level →
          ∃ more, trace level (runSource (.known .descent) source table).events =
            ("tokens: " ++ line) :: more := by
  have hfound : ∀ ts text, (∀ t ∈ ts, t.IsSourced) → Token.Spaced ts text →
      ∃ us, tokenize text = .ok us ∧ List.Forall₂ (fun u t => u.same t = true) us ts := by
    intro ts text hsourced hspaced
    obtain ⟨us, hus, hcontent⟩ := exists_tokensFrom_spaced hspaced hsourced .start
    exact ⟨us, hus, Token.forall₂_same_iff.2 hcontent⟩
  refine ⟨hfound, fun source ts h => ?_⟩
  have hsourced := isSourced_of_tokensFrom h
  exact ⟨hsourced, Token.write ts, rfl, hfound ts _ hsourced (spaced_write ts),
    fun table level hlevel => trace_runSource h table hlevel⟩

/-- An operator of two characters is not read from two tokens with a blank between them, nor a keyword from a
name that begins with one. -/
theorem tokenize_spaced_apart :
    let ts : List Token :=
      [⟨.lt, none, ⟨0, 0⟩⟩, ⟨.assign, none, ⟨0, 0⟩⟩, ⟨.ident, some (.text "ifx"), ⟨0, 0⟩⟩,
        ⟨.integer, some (.int 2147483647), ⟨0, 0⟩⟩]
    let text := "<\t= \r\nifx 2147483647".toList
    (∀ t ∈ ts, t.IsSourced) ∧ Token.Spaced ts text ∧
      ∃ us, tokenize text = .ok us ∧ List.Forall₂ (fun u t => u.same t = true) us ts := by
  intro ts text
  have hname : IsName "ifx" := ⟨⟨'i', rfl, rfl⟩, List.all_eq_true.1 rfl, rfl⟩
  have hsourced : ∀ t ∈ ts, t.IsSourced := by
    simp only [ts, List.forall_mem_cons]
    exact ⟨rfl, rfl, ⟨"ifx", hname, rfl⟩, ⟨2147483647, by decide, rfl⟩, List.forall_mem_nil _⟩
  have hspaced : Token.Spaced ts text := by
    have hnumber : Token.Spaced (ts.drop 3) "2147483647".toList := .single _
    have hword : Token.Spaced (ts.drop 2) "ifx 2147483647".toList :=
      .cons _ (List.cons_ne_nil ' ' []) (List.all_eq_true.1 rfl) hnumber
    have hsign : Token.Spaced (ts.drop 1) "= \r\nifx 2147483647".toList :=
      .cons _ (List.cons_ne_nil ' ' ['\r', '\n']) (List.all_eq_true.1 rfl) hword
    exact .cons _ (List.cons_ne_nil '\t' []) (List.all_eq_true.1 rfl) hsign
  exact ⟨hsourced, hspaced, tokenize_spaced.1 ts text hsourced hspaced⟩

end Abacus
