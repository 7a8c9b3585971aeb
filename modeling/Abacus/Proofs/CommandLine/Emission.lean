import Abacus.CommandLine.Run
import Abacus.Proofs.Files.Writing
import Abacus.Proofs.Session.Composition
import Abacus.Proofs.Text.Utf8
import Abacus.Proofs.Tree.Document

/-!
# Emitting programs

A program that is emitted as a document and then run from it does what running its source does: it
prints the same, reports the same and ends in the same way. On the way the document is written as text,
encoded, stored beside the source, loaded, decoded and read; every stage gives back what the one before
it had.

## Main results

* `readCommand_frontEnd`, `readCommand_operand` — what the arguments ask for
* `Settings.outcome_congr` — without details, only the result of a run is seen
* `documentTree_encode` — the tree of a program is found in the document that is written for it
* `call_emit_tree` — emitting a program and running the document is running the program
-/

namespace Abacus

namespace Text

/-- A text without carriage returns has unified line ends. -/
theorem unifyNewlines_eq_self {cs : List Char} (h : '\r' ∉ cs) : unifyNewlines cs = cs := by
  fun_induction unifyNewlines cs with
  | case1 => rfl
  | case2 => simp at h
  | case3 c cs _ ih =>
    rw [List.mem_cons, not_or] at h
    rw [if_neg (Ne.symm h.1), ih h.2]

end Text

/-- Without details there is no trace: every event has a level. -/
theorem trace_zero (events : List Event) : trace 0 events = [] := by
  rw [trace, List.map_eq_nil_iff, List.filter_eq_nil_iff]
  intro event _
  cases event <;> simp [Event.level]

namespace CommandLine

/-- The settings where a way to read is chosen, and nothing else. -/
def Settings.reading (frontEnd : FrontEnd) : Settings :=
  { Settings.default with frontEnd := .known frontEnd }

@[simp]
theorem Settings.reading_frontEnd (frontEnd : FrontEnd) :
    (Settings.reading frontEnd).frontEnd = .known frontEnd :=
  rfl

@[simp]
theorem Settings.reading_verbosity (frontEnd : FrontEnd) : (Settings.reading frontEnd).verbosity = 0 :=
  rfl

variable {command : Command} {operand : String}

/-! ### Arguments -/

/-- The divider is never taken for a value. -/
theorem ne_divider_of_classify (h : classify commandFlags operand.toList = .ok .value) :
    operand ≠ "--" := by
  rintro rfl
  -- two dashes are the beginning of several long names
  have hdivider : classify commandFlags ['-', '-'] = .ok .value := h
  cases hdivider

theorem classifyAll_cons {flags : List Flag} {arg : String} {args : List String} {role : Role}
    (hne : arg ≠ "--") (h : classify flags arg.toList = .ok role) :
    classifyAll flags (arg :: args) = (classifyAll flags args).map ((arg, role) :: ·) := by
  rw [classifyAll, if_neg hne, h]
  cases classifyAll flags args <;> rfl

/-- An operand that is not taken for an option is a value. -/
theorem classifyAll_operand (h : classify commandFlags operand.toList = .ok .value) :
    classifyAll commandFlags [operand] = .ok [(operand, .value)] := by
  rw [classifyAll_cons (ne_divider_of_classify h) h]
  rfl

/-- The operand of a command is not read, but kept as it is. -/
theorem readCommand_operand (hcommand : command.operandName?.isSome = true)
    (h : classify commandFlags operand.toList = .ok .value) :
    readCommand command [operand] = .ok (⟨command, .default, operand⟩, []) := by
  rw [readCommand, classifyAll_operand h]
  -- a command that has no operand sets it aside
  cases command <;> first | rfl | cases hcommand

/-- The arguments of a command: a way to read, and an operand that is not taken for an option. -/
theorem readCommand_frontEnd (hcommand : command.operandName?.isSome = true) (frontEnd : FrontEnd)
    (h : classify commandFlags operand.toList = .ok .value) :
    readCommand command ["--parser", frontEnd.name, operand] =
      .ok (⟨command, .reading frontEnd, operand⟩, []) := by
  have hname : classify commandFlags frontEnd.name.toList = .ok .value := by
    cases frontEnd <;> rfl
  have hoption : classify commandFlags "--parser".toList = .ok (.long .frontEnd none) := rfl
  rw [readCommand, classifyAll_cons (by decide) hoption,
    classifyAll_cons (ne_divider_of_classify hname) hname, classifyAll_operand h]
  -- all roles are known: the option waits for its value, then the operand is next
  cases command <;> cases frontEnd <;> first | rfl | cases hcommand

/-- The name of a command is found, and all arguments after it are the command's. -/
theorem ofArgs_cons {args : List String} {invocation : Invocation}
    (h : readCommand command args = .ok (invocation, [])) :
    Invocation.ofArgs (command.name :: args) = .ok invocation := by
  have hne : command.name ≠ "--" := by cases command <;> decide
  have hvalue : classify [.help] command.name.toList = .ok .value := by cases command <;> rfl
  have hname : Command.ofName? command.name = some command := by cases command <;> rfl
  have hseek : seekCommand [] (command.name :: args) = .ok (invocation, []) := by
    rw [seekCommand, if_neg (fun hdivider => hne hdivider.1), if_neg hne, hvalue]
    simp only [readNamed, hname, h]
    rfl
  rw [Invocation.ofArgs, hseek]
  rfl

/-! ### Outcomes -/

/-- Without details, what a command leaves depends only on the result of the run. -/
theorem Settings.outcome_congr {s t : Settings} {a b : Report} (hs : s.verbosity = 0)
    (ht : t.verbosity = 0) (h : a.result = b.result) : s.outcome a = t.outcome b := by
  simp [outcome, traceTarget, hs, ht, h, trace_zero]

/-- The outcome of a source that is no program. -/
theorem Settings.outcome_unread {s : Settings} {e : SourceError} (hs : s.verbosity = 0)
    (he : e.isLanguage = true) (table : Table) (events : List Event) :
    s.outcome (.unread e table events) = .refused (errorReport e.message) := by
  have hrun : (RunError.source e).isLanguage = true := he
  simp only [outcome, traceTarget, hs, Nat.cast_zero, trace_zero, Report.unread, hrun]
  rfl

/-- Without details, a command that runs a program changes no file. -/
theorem Invocation.perform_of_silent {i : Invocation} (hs : i.settings.verbosity = 0)
    (hcommand : i.command ≠ .emit) (input : List Char) (files : Files) :
    i.perform input files = (i.evaluate (i.load files) input, files) := by
  have htrace : i.traceFile? = none := by
    simp [traceFile?, Settings.traceTarget, hs]
  have hperform : i.perform input files = i.performRun input files := by
    rw [perform]
    split
    · contradiction
    · rfl
  rw [hperform, performRun, htrace]

/-- What is written for a document is text in the form in which texts are loaded. -/
theorem fileText_encode_pretty {j : Json} (h : j.Storable) :
    fileText (Utf8.encode j.pretty) = .ok j.pretty := by
  -- carriage returns are escaped, so that no line end changes
  have hreturn : '\r' ∉ j.pretty := Json.not_mem_prettyOnto j h 0 List.not_mem_nil
  rw [fileText, Utf8.decode_encode, Except.map, Text.unifyNewlines_eq_self hreturn]

/-- The tree of a program is found in the document that is written for it. -/
theorem documentTree_encode {program : List Stmt} (h : Stmt.AllWellFormed program) (name : String) :
    documentTree name (Utf8.encode (Node.programJson (Stmt.toNodes program)).pretty) =
      .ok (Stmt.toNodes program) := by
  have hstored := Stmt.storable_programJson h
  have hread := Node.ofProgramJson_programJson (Stmt.allLiteralsInRange_toNodes program h)
  simp only [documentTree, fileText_encode_pretty hstored, Json.read_pretty hstored, hread]

/-! ### Calls -/

section Calls

variable {files : Files} {bytes : List UInt8} {source : List Char} {frontEnd : FrontEnd}
  (hvalue : classify commandFlags operand.toList = .ok .value)
  (hload : files.load (.ofString operand) = .ok bytes) (htext : fileText bytes = .ok source)

include hvalue

/-- A command that is called with a way to read and an operand. -/
theorem call_frontEnd (hcommand : command.operandName?.isSome = true) (frontEnd : FrontEnd)
    (input : List Char) (files : Files) :
    call [command.name, "--parser", frontEnd.name, operand] input files =
      Invocation.perform ⟨command, .reading frontEnd, operand⟩ input files := by
  rw [call, ofArgs_cons (readCommand_frontEnd hcommand frontEnd hvalue)]

include hload htext

/-- Running a program leaves the outcome of its source. -/
theorem call_run (input : List Char) :
    call ["run", "--parser", frontEnd.name, operand] input files =
      ((Settings.reading frontEnd).outcome (runSource (.known frontEnd) source []), files) := by
  have hcall := @call_frontEnd .run operand hvalue rfl frontEnd input files
  have hloaded : Invocation.load ⟨.run, .reading frontEnd, operand⟩ files = .ok bytes := hload
  refine hcall.trans ?_
  rw [Invocation.perform_of_silent rfl (by simp), hloaded]
  simp only [Invocation.evaluate, htext]
  rfl

/-- Emitting a program writes its document beside it, if a file can be written there. -/
theorem call_emit_of_read {program : List Stmt} {name : String}
    (hread : readSource frontEnd source = .ok program)
    (hname : ((Path.ofString operand).addSuffix ".ast.json").toText = name) (input : List Char) :
    call ["emit-ast", "--parser", frontEnd.name, operand] input files =
      match files.target name with
      | .error e => (.failed (.file e), files)
      | .ok place =>
        (.done (name ++ "\n") [],
          files.set place (Utf8.encode (Node.programJson (Stmt.toNodes program)).pretty)) := by
  have hcall := @call_frontEnd .emit operand hvalue rfl frontEnd input files
  refine hcall.trans ?_
  cases htarget : files.target name with
  | error e | ok place =>
    simp only [Invocation.perform, Invocation.performEmit, Invocation.load, Invocation.input?, hload,
      Invocation.emission, htext, Settings.reading_frontEnd, readSourceAs, hread,
      Invocation.documentPath, hname, htarget]

/-- A text that is no program is reported, and nothing is written. -/
theorem call_emit_of_unread {e : SourceError} (hread : readSource frontEnd source = .error e)
    (he : e.isLanguage = true) (input : List Char) :
    call ["emit-ast", "--parser", frontEnd.name, operand] input files =
      (.refused (errorReport e.message), files) := by
  have hcall := @call_frontEnd .emit operand hvalue rfl frontEnd input files
  refine hcall.trans ?_
  simp only [Invocation.perform, Invocation.performEmit, Invocation.load, Invocation.input?, hload,
    Invocation.emission, htext, Settings.reading_frontEnd, readSourceAs, hread, he, if_true]

omit hload htext

/-- Running a document leaves the outcome of its tree. -/
theorem call_tree {body : List Node} (hload : files.load (.ofString operand) = .ok bytes)
    (htree : documentTree operand bytes = .ok body) (input : List Char) :
    call ["ast", operand] input files = (Settings.default.outcome (runTree body []), files) := by
  have hread := @readCommand_operand .tree operand rfl hvalue
  have hcall : call ["ast", operand] input files =
      Invocation.perform ⟨.tree, .default, operand⟩ input files := by
    have hargs : Invocation.ofArgs ["ast", operand] = .ok ⟨.tree, .default, operand⟩ :=
      ofArgs_cons hread
    rw [call, hargs]
  have hloaded : Invocation.load ⟨.tree, .default, operand⟩ files = .ok bytes := hload
  rw [hcall, Invocation.perform_of_silent rfl (by simp), hloaded]
  simp only [Invocation.evaluate, htree]

/-- Running the document of a program leaves the outcome of the source that the program was read
from. -/
theorem call_tree_of_read {program : List Stmt} (hread : readSource frontEnd source = .ok program)
    (hload : files.load (.ofString operand) =
      .ok (Utf8.encode (Node.programJson (Stmt.toNodes program)).pretty)) (input : List Char) :
    call ["ast", operand] input files =
      ((Settings.reading frontEnd).outcome (runSource (.known frontEnd) source []), files) := by
  have htree := documentTree_encode (wellFormed_of_readSource hread) operand
  -- neither run shows any details, so that only the results count
  have hsame : Settings.default.outcome (runTree (Stmt.toNodes program) []) =
      (Settings.reading frontEnd).outcome (runSource (.known frontEnd) source []) :=
    Settings.outcome_congr rfl rfl (runSource_eq_runTree hread []).1.symm
  rw [call_tree hvalue hload htree, hsame]

end Calls

/-- A program in a file is emitted as a document beside the file, under its name with an ending, and
running the document leaves what running the program leaves. A text that is no program is reported in
the same way by both, and nothing is written. The names of both files have to be such that they are not
taken for options, and the document needs a place where a file can be written. -/
theorem call_emit_tree {operand : String} {files : Files} {bytes : List UInt8} {source : List Char}
    (frontEnd : FrontEnd) (input : List Char)
    (hvalue : classify commandFlags operand.toList = .ok .value)
    (hload : files.load (.ofString operand) = .ok bytes) (htext : fileText bytes = .ok source) :
    let document := (Path.ofString operand).addSuffix ".ast.json"
    let emitted := call ["emit-ast", "--parser", frontEnd.name, operand] input files
    let ran := call ["run", "--parser", frontEnd.name, operand] input files
    (∀ program, readSource frontEnd source = .ok program →
      ∀ place, files.target document.toText = .ok place →
        let tree := Stmt.toNodes program
        let text := (Node.programJson tree).pretty
        emitted = (.done (document.toText ++ "\n") [], files.set place (Utf8.encode text)) ∧
        Path.ofString document.toText = document ∧
        emitted.2.load document = .ok (Utf8.encode text) ∧
        fileText (Utf8.encode text) = .ok text ∧
        Json.read text = .ok (Node.programJson tree) ∧
        Node.ofProgramJson (Node.programJson tree) = .ok tree ∧
        ∀ name, classify commandFlags name.toList = .ok .value → Path.ofString name = document →
          (call ["ast", name] input emitted.2).1 = ran.1) ∧
    (∀ e, readSource frontEnd source = .error e → e.isLanguage = true →
      emitted = (⟨"", "error: " ++ e.message ++ "\n", [], .exit 1⟩, files) ∧ ran = emitted) := by
  intro document emitted ran
  have hne : document.names ≠ [] :=
    Path.addSuffix_names_ne_nil (Files.names_ne_nil_of_load hload) _
  have hnormal : document.Normal := (Path.normal_ofString operand).addSuffix (by decide) (by decide)
  have hran : ran = _ := call_run hvalue hload htext input
  refine ⟨fun program hread place hplace => ?_, fun e hread he => ?_⟩
  · intro tree text
    have hwell := wellFormed_of_readSource hread
    have hstored := Stmt.storable_programJson hwell
    have hemitted : emitted =
        (.done (document.toText ++ "\n") [], files.set place (Utf8.encode text)) := by
      have hname : ((Path.ofString operand).addSuffix ".ast.json").toText = document.toText := rfl
      have hcall := call_emit_of_read hvalue hload htext hread hname input
      rwa [hplace] at hcall
    -- the name that is shown leads back to the place that was written
    have hloaded : emitted.2.load document = .ok (Utf8.encode text) := by
      rw [hemitted]
      exact Files.load_set hnormal hne hplace _
    refine ⟨hemitted, hnormal.ofString_toText hne, hloaded, fileText_encode_pretty hstored,
      Json.read_pretty hstored,
      Node.ofProgramJson_programJson (Stmt.allLiteralsInRange_toNodes program hwell), ?_⟩
    intro name hname hpath
    rw [call_tree_of_read hname hread (hpath ▸ hloaded) input, hran]
  · have hemitted : emitted = _ := call_emit_of_unread hvalue hload htext hread he input
    -- the run stops before anything is evaluated, and its events are not shown
    obtain ⟨events, hrun⟩ := runSource_of_unread hread []
    refine ⟨hemitted, ?_⟩
    rw [hemitted, hran, hrun, Settings.outcome_unread rfl he]

theorem readSource_one : readSource .descent ['1'] = .ok [.expr (.int (some (.int 1)))] := by
  have htokens : tokenize ['1'] = .ok [⟨.integer, some (.int 1), ⟨1, 1⟩⟩] :=
    tokensFrom_lexeme rfl rfl (tokensFrom_ending rfl)
  rw [readSource, htokens]
  rfl

/-- A program of one literal, and an open bracket, which is no program. -/
theorem call_emit_tree_literal :
    let files : Files := ⟨[(Place.here.child "p", [0x31]), (Place.here.child "q", [0x28])]⟩
    let emitted := call ["emit-ast", "--parser", "descent", "p"] [] files
    let unread := call ["emit-ast", "--parser", "descent", "q"] [] files
    emitted.1 = .done "p.ast.json\n" [] ∧
    (call ["ast", "./p.ast.json"] [] emitted.2).1 =
      (call ["run", "--parser", "descent", "p"] [] files).1 ∧
    call ["run", "--parser", "descent", "q"] [] files = unread ∧ unread.2 = files := by
  intro files emitted unread
  have hbracket : tokenize ['('] = .ok [⟨.lparen, none, ⟨1, 1⟩⟩] :=
    tokensFrom_lexeme rfl rfl (tokensFrom_ending rfl)
  have hunread : readSource .descent ['('] =
      .error (.grammar (.endOfInput (some ⟨.lparen, none, ⟨1, 1⟩⟩))) := by
    rw [readSource, hbracket]
    rfl
  obtain ⟨hp, -⟩ := @call_emit_tree "p" files [0x31] ['1'] .descent [] rfl rfl rfl
  obtain ⟨-, hq⟩ := @call_emit_tree "q" files [0x28] ['('] .descent [] rfl rfl rfl
  obtain ⟨hemitted, -, -, -, -, -, htree⟩ := hp _ readSource_one _ rfl
  obtain ⟨hreport, hsame⟩ := hq _ hunread rfl
  refine ⟨?_, htree "./p.ast.json" rfl rfl, hsame, ?_⟩
  · exact congrArg Prod.fst hemitted
  · exact congrArg Prod.snd hreport

/-- What can stand in the way of emitting a program and running its document: a directory at the place
of the document, the name of the program if it is taken for an option, and the name of the document if
that is. -/
theorem call_emit_tree_obstacles :
    let one (name : String) : Place × List UInt8 := (Place.here.child name, [0x31])
    let blocked : Files := ⟨[one "p", ((Place.here.child "p.ast.json").child "x", [])]⟩
    let dashed : Files := ⟨[one "-p"]⟩
    let negative : Files := ⟨[one "-1"]⟩
    let emitted := call ["emit-ast", "--parser", "descent", "-1"] [] negative
    fileText [0x31] = .ok ['1'] ∧ (∃ program, readSource .descent ['1'] = .ok program) ∧
    (blocked.load (.ofString "p") = .ok [0x31] ∧
      (call ["emit-ast", "--parser", "descent", "p"] [] blocked).1.ending =
        .failure (.file (.isDirectory "p.ast.json"))) ∧
    (dashed.load (.ofString "-p") = .ok [0x31] ∧
      (call ["emit-ast", "--parser", "descent", "-p"] [] dashed).1.ending = .exit 2) ∧
    (negative.load (.ofString "-1") = .ok [0x31] ∧ emitted.1 = .done "-1.ast.json\n" [] ∧
      (call ["ast", "-1.ast.json"] [] emitted.2).1.ending = .exit 2 ∧
      (call ["run", "--parser", "descent", "-1"] [] negative).1 = .done "1\n" []) := by
  intro one blocked dashed negative emitted
  refine ⟨rfl, ⟨_, readSource_one⟩, ⟨rfl, ?_⟩, ⟨rfl, rfl⟩, rfl, ?_, rfl, ?_⟩
  · have hemitted := @call_emit_of_read "p" blocked [0x31] ['1'] .descent rfl rfl rfl _ _
      readSource_one rfl []
    exact congrArg (·.1.ending) hemitted
  · have hemitted := @call_emit_of_read "-1" negative [0x31] ['1'] .descent rfl rfl rfl _ _
      readSource_one rfl []
    exact congrArg Prod.fst hemitted
  · have hran := @call_run "-1" negative [0x31] ['1'] .descent rfl rfl rfl []
    have hresult := (runSource_eq_runTree readSource_one []).1
    have hsilent := Settings.reading_verbosity .descent
    refine (congrArg Prod.fst hran).trans ?_
    exact (Settings.outcome_congr hsilent hsilent hresult).trans rfl

end CommandLine

end Abacus
