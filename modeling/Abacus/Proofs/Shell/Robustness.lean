import Abacus.Proofs.CommandLine.Emission
import Abacus.Proofs.Session.Errors
import Abacus.Proofs.Text.OneLine

/-!
# The shell goes on

The shell evaluates every line that is no command, and prints its results, each on a line of its own, or
one line about an error. Its bindings are those of running the evaluated lines one after the other; a line
that fails keeps the bindings that it made before the statement that fails.

One thing can end the shell: a literal with more digits than are looked at. Lines without overlong runs of
digits are always answered.

## Main definitions

* `Shell.Evaluates` — the line is evaluated
* `Shell.bindings`, `Shell.sources` — the bindings after some lines, and the sources that they run
* `Shell.Prints` — what is printed for a run
* `Shell.Keeps` — the bindings that a failing run keeps

## Main results

* `Shell.parseLine_eq_run_iff` — which lines are evaluated, and as what
* `Shell.bindings_eq_foldl` — the bindings are those of running the sources one after the other
* `Shell.answer_after_lines` — how the shell answers a line, after any others
* `Shell.answer_overlong` — a literal that ends the shell
-/

namespace Abacus

theorem Text.strip_infix (blank : Char → Bool) (cs : List Char) : strip blank cs <:+: cs := by
  have hfront : cs.dropWhile blank <:+: cs := (List.dropWhile_suffix blank).isInfix
  refine List.IsInfix.trans ?_ hfront
  rw [strip, ← List.reverse_infix, List.reverse_reverse]
  exact (List.dropWhile_suffix blank).isInfix

theorem Moderate.of_infix {cs ds : List Char} (h : Moderate ds) (hcs : cs <:+: ds) : Moderate cs :=
  fun run hrun => h run (hrun.trans hcs)

namespace Shell

open Automaton

/-! ### Which lines are evaluated -/

/-- A line without the blanks at its two ends. -/
def stripped (line : List Char) : List Char :=
  Text.strip Text.isLineBlank line

/-- The word that a text begins with. -/
def leadingWord (cs : List Char) : String :=
  String.ofList (cs.takeWhile isCommandChar)

/-- Whether a line is evaluated: it is not empty, does not ask for help with a question mark, and the
word that it begins with is no command. -/
def Evaluates (line : List Char) : Prop :=
  stripped line ≠ [] ∧ (stripped line).head? ≠ some '?' ∧
    leadingWord (stripped line) ∉ ["help", "exit", "EOF"]

instance (line : List Char) : Decidable (Evaluates line) :=
  inferInstanceAs (Decidable (_ ∧ _ ∧ _))

theorem parseLine_eq_run_iff {line source : List Char} :
    parseLine line = .run source ↔ Evaluates line ∧ source = stripped line := by
  unfold parseLine Evaluates
  rw [← stripped]
  split
  · -- nothing is left of the line
    rename_i hstrip
    simp [hstrip]
  · -- a question mark asks for help
    rename_i hstrip
    simp [hstrip]
  · -- an exclamation mark belongs to no word
    rename_i cs hstrip
    have hword : leadingWord ('!' :: cs) = "" := rfl
    simp only [hstrip, hword, Command.run.injEq]
    constructor
    · rintro rfl
      exact ⟨⟨List.cons_ne_nil _ _, by simp, by decide⟩, rfl⟩
    · exact fun h => h.2.symm
  · rename_i hne hquestion _
    have hhead : (stripped line).head? ≠ some '?' := by
      intro hhead
      obtain ⟨cs, hcs⟩ := List.head?_eq_some_iff.1 hhead
      exact hquestion cs hcs
    rw [← leadingWord]
    -- three words are commands, whatever comes after them
    split
    · rename_i hword
      simp [hword]
    · rename_i hword
      simp [hword]
    · rename_i hword
      simp [hword]
    · rename_i hhelp hexit hend
      rw [Command.run.injEq]
      constructor
      · rintro rfl
        refine ⟨⟨hne, hhead, fun hmem => ?_⟩, rfl⟩
        simp only [List.mem_cons, List.not_mem_nil, or_false] at hmem
        exact hmem.elim hhelp fun hmem => hmem.elim hexit hend
      · exact fun h => h.2.symm

/-- A line that is not evaluated changes no bindings, and is always answered. -/
theorem answer_of_not_evaluates {line : List Char} (h : ¬Evaluates line) (choice : FrontEnd.Choice)
    (level : Int) (table : Table) :
    (answer choice level table line).table = table ∧
      ∃ stop, (answer choice level table line).stop = .ok stop := by
  have hrun : ∀ source, parseLine line ≠ .run source := fun source hsource =>
    h (parseLine_eq_run_iff.1 hsource).1
  unfold answer
  cases hcommand : parseLine line with
  | run source => exact absurd hcommand (hrun source)
  | _ => exact ⟨rfl, _, rfl⟩

theorem answer_of_evaluates {line : List Char} (h : Evaluates line) (choice : FrontEnd.Choice)
    (level : Int) (table : Table) :
    answer choice level table line = replyTo level (runSource choice (stripped line) table) := by
  rw [answer, parseLine_eq_run_iff.2 ⟨h, rfl⟩]

/-! ### Replies to runs -/

theorem table_replyTo (level : Int) (report : Report) : (replyTo level report).table = report.table := by
  unfold replyTo
  split
  · rfl
  · split <;> rfl

theorem traced_replyTo (level : Int) (report : Report) :
    (replyTo level report).traced = trace level report.events := by
  unfold replyTo
  split
  · rfl
  · split <;> rfl

/-- What is printed for a run: its results, each on a line of its own, or one line about an error. -/
inductive Prints (report : Report) : String → Prop
  | results {vs : List (Option Value)} (h : report.result = .ok vs)
      (each : ∀ t ∈ Report.lines vs, OneLine t) : Prints report (Text.unlines (Report.lines vs))
  | error {e : RunError} (h : report.result = .error e) (one : OneLine e.message) :
      Prints report ("error: " ++ e.message ++ "\n")

/-- The shell goes on after results and after an error about the program, and prints them. -/
theorem prints_of_replyTo {level : Int} {report : Report} {stop : Bool}
    (hone : ∀ e, report.result = .error e → e.isLanguage = true → OneLine e.message)
    (h : (replyTo level report).stop = .ok stop) :
    stop = false ∧ Prints report (replyTo level report).output := by
  unfold replyTo at h ⊢
  split at h
  · rename_i vs hok
    cases h
    exact ⟨rfl, .results hok (Report.oneLine_lines vs)⟩
  · rename_i e herror
    split at h
    · rename_i hlanguage
      cases h
      refine ⟨rfl, ?_⟩
      simp only [hlanguage, if_true]
      exact .error herror (hone e herror hlanguage)
    · cases h

/-- An error that is not about the program ends the shell. -/
theorem error_of_replyTo {level : Int} {report : Report} {e : RunError}
    (h : (replyTo level report).stop = .error e) :
    report.result = .error e ∧ e.isLanguage = false := by
  unfold replyTo at h
  split at h
  · cases h
  · rename_i e' herror
    split at h
    · cases h
    · rename_i hlanguage
      cases h
      exact ⟨herror, Bool.eq_false_iff.2 hlanguage⟩

/-! ### Bindings -/

/-- The bindings after some lines. The shell is given each of them, also after one that asks it to
stop. -/
def bindings (choice : FrontEnd.Choice) (level : Int) (lines : List (List Char)) : Table :=
  lines.foldl (fun table line => (answer choice level table line).table) []

/-- The sources that some lines run. -/
def sources (lines : List (List Char)) : List (List Char) :=
  (lines.filter fun line => Evaluates line).map stripped

/-- The bindings are those of running the evaluated lines one after the other. -/
theorem bindings_eq_foldl (choice : FrontEnd.Choice) (level : Int) (lines : List (List Char)) :
    bindings choice level lines =
      (sources lines).foldl (fun table source => (runSource choice source table).table) [] := by
  -- the bindings change from line to line, so they are arbitrary in the induction
  suffices hfold : ∀ table, lines.foldl (fun table line => (answer choice level table line).table)
      table = (sources lines).foldl (fun table source => (runSource choice source table).table) table
    from hfold []
  induction lines with
  | nil => exact fun _ => rfl
  | cons line lines ih =>
    intro table
    rw [List.foldl_cons, ih]
    by_cases h : Evaluates line
    · have hsources : sources (line :: lines) = stripped line :: sources lines := by
        simp [sources, h]
      rw [hsources, List.foldl_cons, answer_of_evaluates h, table_replyTo]
    · have hsources : sources (line :: lines) = sources lines := by simp [sources, h]
      rw [hsources, (answer_of_not_evaluates h choice level table).1]

/-! ### Failing runs -/

/-- The bindings that a failing run keeps: those from before if the source cannot be read, and else those
that were made before the statement that fails. -/
inductive Keeps (frontEnd : FrontEnd) (source : List Char) (table : Table) : Table → Prop
  | unread {e : SourceError} (h : readSource frontEnd source = .error e) :
      Keeps frontEnd source table table
  | failing {program : List Stmt} {before after : List Node} {s : Node} {vs : List (Option Value)}
      {e : EvalError} (h : readSource frontEnd source = .ok program)
      (parts : Stmt.toNodes program = before ++ s :: after)
      (runs : (Node.run [] before table).result = .ok vs)
      (fails : (Node.exec [] s (Node.run [] before table).table).result = .error e) :
      Keeps frontEnd source table (Node.run [] before table).table

section Run

variable {frontEnd : FrontEnd} {source : List Char} {table : Table} {e : RunError}

/-- Errors of a run are worded on one line if they are about the program. -/
theorem oneLine_message_of_runSource
    (h : (runSource (.known frontEnd) source table).result = .error e) (he : e.isLanguage = true) :
    OneLine e.message := by
  rcases runSource_raises h with ⟨e, hread, rfl⟩ | ⟨e, rfl, herror⟩
  · exact (about_of_readSource hread).oneLine_message he
  · have hmisuse : e.isMisuse = false := by simpa [RunError.isLanguage] using he
    refine EvalError.oneLine_message hmisuse fun s hs => ?_
    -- a name in a source is a word, and has no line feed
    rcases herror with hoperation | ⟨word, hword, hunknown⟩
    · rw [hs] at hoperation
      cases hoperation
    · rw [hs] at hunknown
      cases hunknown
      exact oneLine_of_isName hword

/-- The only errors that are not about the program are those about literals with too many digits. -/
theorem exists_tooLong_of_runSource
    (h : (runSource (.known frontEnd) source table).result = .error e) (he : e.isLanguage = false) :
    ¬Moderate source ∧
      ∃ digits, e = .source (.lexical (.tooManyDigits digits)) ∨ e = .source (.longLiteral digits) := by
  rcases runSource_raises h with ⟨e, hread, rfl⟩ | ⟨e, rfl, herror⟩
  · have habout := about_of_readSource hread
    refine ⟨fun hmoderate => ?_, ?_⟩
    · have hlanguage : e.isLanguage = false := he
      rw [habout.isLanguage hmoderate] at hlanguage
      cases hlanguage
    · cases habout with
      | grammar | tooLarge => cases he
      | fault =>
        rw [LexError.ofFault] at he
        split at he <;> cases he
      | tooManyDigits => exact ⟨_, .inl rfl⟩
      | longLiteral => exact ⟨_, .inr rfl⟩
  · have hordinary : Session.StepError.IsOrdinary (.run (.eval e)) :=
      herror.elim .operation .unknownWord
    rw [RunError.isLanguage, hordinary.ne_emptyBlock.2] at he
    cases he

/-- A failing run keeps the bindings that were made before the statement that fails. -/
theorem keeps_of_runSource (h : (runSource (.known frontEnd) source table).result = .error e) :
    Keeps frontEnd source table (runSource (.known frontEnd) source table).table := by
  cases hread : readSource frontEnd source with
  | error e' =>
    obtain ⟨events, hrun⟩ := runSource_of_unread hread table
    rw [hrun]
    exact .unread hread
  | ok program =>
    obtain ⟨hresult, htable⟩ := runSource_eq_runTree hread table
    obtain ⟨e, hrun, -⟩ := mapError_eq_error_iff.1 (hresult.symm.trans h)
    obtain ⟨before, s, after, vs, hparts, hbefore, hfails, hkeeps⟩ := Node.exists_failing hrun
    have htable' : (runSource (.known frontEnd) source table).table =
        (Node.run [] before table).table := htable.trans hkeeps
    rw [htable']
    exact .failing hread hparts hbefore hfails

end Run

/-- How the shell answers a line, after any others. Its bindings are those of running the evaluated lines
one after the other. A line that is not evaluated changes nothing. One that is evaluated prints what its
run gives, leaves the bindings of its run, and does not stop the shell; if the run fails, these are the
bindings made before the statement that fails. There is no answer only where a literal has too many
digits, and so there always is one to a line without overlong runs of digits. -/
theorem answer_after_lines (frontEnd : FrontEnd) (lines : List (List Char)) (line : List Char) :
    let table := bindings (.known frontEnd) 0 lines
    let reply := answer (.known frontEnd) 0 table line
    let report := runSource (.known frontEnd) (stripped line) table
    table = (sources lines).foldl (fun table s => (runSource (.known frontEnd) s table).table) [] ∧
    (¬Evaluates line → reply.table = table ∧ ∃ stop, reply.stop = .ok stop) ∧
    (Evaluates line → reply.table = report.table ∧ reply.traced = [] ∧
      (∀ stop, reply.stop = .ok stop → stop = false ∧ Prints report reply.output) ∧
      ∀ e, report.result = .error e → Keeps frontEnd (stripped line) table reply.table) ∧
    (∀ e, reply.stop = .error e →
      ∃ digits, e = .source (.lexical (.tooManyDigits digits)) ∨ e = .source (.longLiteral digits)) ∧
    (Moderate line → ∃ stop, reply.stop = .ok stop) := by
  intro table reply report
  have hescape : ∀ e, reply.stop = .error e → ¬Moderate (stripped line) ∧
      ∃ digits, e = .source (.lexical (.tooManyDigits digits)) ∨
        e = .source (.longLiteral digits) := by
    intro e he
    by_cases h : Evaluates line
    · have hreply : reply = replyTo 0 report := answer_of_evaluates h _ 0 table
      rw [hreply] at he
      obtain ⟨herror, hlanguage⟩ := error_of_replyTo he
      exact exists_tooLong_of_runSource herror hlanguage
    · obtain ⟨-, stop, hstop⟩ := answer_of_not_evaluates h (.known frontEnd) 0 table
      exact absurd (hstop.symm.trans he) nofun
  refine ⟨bindings_eq_foldl _ 0 lines, fun h => answer_of_not_evaluates h _ 0 table, fun h => ?_, ?_, ?_⟩
  · have hreply : reply = replyTo 0 report := answer_of_evaluates h _ 0 table
    have htable : reply.table = report.table := by rw [hreply, table_replyTo]
    refine ⟨htable, by rw [hreply, traced_replyTo, trace_zero], fun stop hstop => ?_, fun e he => ?_⟩
    · rw [hreply] at hstop ⊢
      exact prints_of_replyTo (fun e => oneLine_message_of_runSource) hstop
    · rw [htable]
      exact keeps_of_runSource he
  · intro e he
    exact (hescape e he).2
  · intro hmoderate
    cases hstop : reply.stop with
    | ok stop => exact ⟨stop, rfl⟩
    | error e =>
      have hstripped : Moderate (stripped line) := hmoderate.of_infix (Text.strip_infix _ line)
      exact absurd hstripped (hescape e hstop).1

/-! ### A literal that ends the shell -/

/-- A line of digits is evaluated as it stands. -/
theorem evaluates_nines (n : Nat) :
    stripped (List.replicate (n + 1) '9') = List.replicate (n + 1) '9' ∧
      Evaluates (List.replicate (n + 1) '9') := by
  have hstripped : stripped (List.replicate (n + 1) '9') = List.replicate (n + 1) '9' := by
    have hdrop : (List.replicate (n + 1) '9').dropWhile Text.isLineBlank =
        List.replicate (n + 1) '9' := rfl
    rw [stripped, Text.strip, hdrop, List.reverse_replicate, hdrop, List.reverse_replicate]
  refine ⟨hstripped, ?_⟩
  rw [Evaluates, hstripped]
  refine ⟨List.cons_ne_nil _ _, by simp [List.replicate_succ], fun hmem => ?_⟩
  -- no command begins with a digit
  have hword : ∀ {word : String}, leadingWord (List.replicate (n + 1) '9') = word →
      word.toList.head? = some '9' := by
    rintro word rfl
    rw [leadingWord, String.toList_ofList]
    rfl
  simp only [List.mem_cons, List.not_mem_nil, or_false] at hmem
  rcases hmem with h | h | h <;> exact absurd (hword h) (by decide)

/-- A text of digits has one lexeme, and if there are too many digits then neither front end reads it. -/
theorem readSource_nines {n : Nat} (hn : digitLimit < n + 1) :
    readSource .descent (List.replicate (n + 1) '9') = .error (.lexical (.tooManyDigits (n + 1))) ∧
      readSource .automaton (List.replicate (n + 1) '9') = .error (.longLiteral (n + 1)) := by
  let l : Lexeme := ⟨.integer, List.replicate (n + 1) '9', .start⟩
  have hlong : l.TooLong := ⟨rfl, by simpa [l] using hn⟩
  have hspells : l.kind.Spells l.chars :=
    ⟨List.cons_ne_nil _ _, fun c hc => by rw [List.eq_of_mem_replicate hc]; rfl⟩
  have hnext : Next (List.replicate (n + 1) '9') (List.replicate (n + 1) '9') l [] := by
    have hrule : Next ([] ++ ([] ++ (l.chars ++ []))) ([] ++ (l.chars ++ [])) l [] :=
      ⟨rfl, List.forall_mem_nil _, hspells, fun extra _ h _ => List.prefix_nil.1 h, rfl⟩
    rwa [List.nil_append, List.nil_append, List.append_nil] at hrule
  have hscan := (next_iff_scan (List.nil_append _).symm).1 hnext
  constructor
  · have htokens : tokenize (List.replicate (n + 1) '9') = .error (.tooManyDigits (n + 1)) := by
      rw [tokenize, tokensFrom_eq]
      rw [← Position.after_start, Position.after_nil] at hscan
      rw [hscan]
      dsimp only
      rw [Lexeme.token_eq, if_pos hlong, List.length_replicate]
      rfl
    rw [readSource, htokens]
  · have hstate : Reaches [l.bare] ⟨[], [], .operand (.int l.bare.payload)⟩ := .snoc .start rfl
    rw [(Cuts.start.next hnext).readSource_of_blank hstate (List.forall_mem_nil _)]
    have hliteral : literalError? [l] = some l.refusal :=
      literalError?_append (List.forall_mem_nil _) fun hfits => hfits.1 hlong
    rw [List.nil_append, hliteral, Lexeme.refusal, if_pos hlong, List.length_replicate]
    rfl

/-- A line with a literal of too many digits ends the shell, whichever way it is read. -/
theorem answer_overlong :
    (answer (.known .descent) 0 (bindings (.known .descent) 0 [])
      (List.replicate (digitLimit + 1) '9')).stop =
        .error (.source (.lexical (.tooManyDigits (digitLimit + 1)))) ∧
    (answer (.known .automaton) 0 (bindings (.known .automaton) 0 [])
      (List.replicate (digitLimit + 1) '9')).stop =
        .error (.source (.longLiteral (digitLimit + 1))) := by
  obtain ⟨hstripped, hevaluates⟩ := evaluates_nines digitLimit
  obtain ⟨hdescent, hautomaton⟩ := readSource_nines (Nat.lt_succ_self digitLimit)
  constructor
  · obtain ⟨events, hrun⟩ := runSource_of_unread hdescent []
    rw [answer_of_evaluates hevaluates, hstripped, bindings, List.foldl_nil, hrun]
    rfl
  · obtain ⟨events, hrun⟩ := runSource_of_unread hautomaton []
    rw [answer_of_evaluates hevaluates, hstripped, bindings, List.foldl_nil, hrun]
    rfl

end Shell

end Abacus
