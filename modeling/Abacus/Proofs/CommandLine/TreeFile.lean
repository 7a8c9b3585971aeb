import Abacus.Proofs.CommandLine.Emission
import Abacus.Proofs.Eval.Hazards
import Abacus.Proofs.Text.OneLine
import Abacus.Proofs.Tree.Faults

/-!
# Running documents

Any text can be given where a document is expected. Texts that describe no program are reported, as are
the errors of programs. Two kinds of documents end the command without a report: those with an infinite
number for a literal, and those whose run meets a node in the wrong place or a name that is a list or an
object. A document without these is answered with results or with a report, and the report is one line if
no type or name in the document has a line feed.

## Main definitions

* `Json.WellMade` — documents without literals, nodes and line feeds that are out of place
* `Escapes` — the texts that end the command, with the error that does
* `Leaves` — what the command leaves of a text
* `Answers` — results, one to a line, or a report of one line

## Main results

* `leaves_evaluate`, `Leaves.unique` — a text leaves one outcome, which is listed
* `Leaves.answers` — what is left of a document that is well made is an answer
* `call_tree_text` — what running a document leaves, whatever the text of its file is
-/

namespace Abacus

/-- A document that holds no infinite literal and no type with a line feed, and whose tree has all its
nodes in their places and no name with a line feed. -/
structure Json.WellMade (j : Json) : Prop where
  finite : ∀ negative, ¬j.Holds "value" (.float (.infinity negative))
  types : ∀ s, j.Holds "type" (.str s) → OneLine s.shown
  places : ∀ body, Node.ofProgramJson j = .ok body →
    ∀ e ∈ Node.runHazards body, e.isMisuse = false
  names : ∀ body, Node.ofProgramJson j = .ok body →
    ∀ s, EvalError.unknownName (.str s) ∈ Node.runHazards body → OneLine s.shown

/-- What is wrong with a document is said on one line, unless it holds a type with a line feed. -/
theorem DocumentError.About.oneLine_message {j : Json} {e : DocumentError} (h : e.About j)
    (htypes : ∀ s, j.Holds "type" (.str s) → OneLine s.shown) : OneLine e.message := by
  have hfamilies : ∀ family ∈ Operator.families, OneLine family := by
    simp only [Operator.families, List.forall_mem_cons]
    exact ⟨oneLine_literal (by decide), oneLine_literal (by decide), oneLine_literal (by decide),
      oneLine_literal (by decide), List.forall_mem_nil _⟩
  refine DocumentError.oneLine_message ?_ ?_
  · rintro s rfl
    cases h with
    | unknownType h => exact htypes s h
  · rintro family found rfl
    cases h with
    | unknownOperator hfamily _ => exact hfamilies family hfamily

/-- An error about values is no error about the shape of a tree. -/
theorem EvalError.isMisuse_of_isOperation {e : EvalError} (h : e.isOperation = true) :
    e.isMisuse = false := by
  cases e <;> first | rfl | cases h

namespace CommandLine

variable {name : String} {text : List Char} {outcome : Outcome}

/-! ### What the command leaves -/

/-- The texts that end the command without a report, with the error that does. -/
inductive Escapes (text : List Char) : Failure → Prop
  /-- A literal is an infinite number. -/
  | infinite {j : Json} (hread : Json.read text = .ok j)
      (hfault : Node.ofProgramJson j = .error .infinite) : Escapes text (.document .infinite)
  /-- The run meets a node in the wrong place, or a name that is a list or an object. -/
  | misuse {j : Json} {body : List Node} {e : EvalError} (hread : Json.read text = .ok j)
      (htree : Node.ofProgramJson j = .ok body) (hrun : (Node.run [] body []).result = .error e)
      (he : e.isMisuse = true) : Escapes text (.run (.eval e))

/-- The report on a file that describes no program. -/
def invalidReport (name message : String) : String :=
  errorReport ("invalid AST file " ++ name ++ ": " ++ message)

/-- What running a text as a document leaves, if the text comes from a file of the given name. -/
inductive Leaves (name : String) (text : List Char) : Outcome → Prop
  | printed {j : Json} {body : List Node} {vs : List (Option Value)} (hread : Json.read text = .ok j)
      (htree : Node.ofProgramJson j = .ok body) (hrun : (Node.run [] body []).result = .ok vs) :
      Leaves name text (.done (Text.unlines (Report.lines vs)) [])
  | raised {j : Json} {body : List Node} {e : EvalError} (hread : Json.read text = .ok j)
      (htree : Node.ofProgramJson j = .ok body) (hrun : (Node.run [] body []).result = .error e)
      (he : e.isMisuse = false) : Leaves name text (.refused (errorReport e.message))
  | unread {e : Json.ReadError} (hread : Json.read text = .error e) :
      Leaves name text (.refused (invalidReport name e.message))
  | invalid {j : Json} {e : DocumentError} (hread : Json.read text = .ok j)
      (hfault : Node.ofProgramJson j = .error e) (hinfinite : e ≠ .infinite)
      (hrange : ∀ n, e ≠ .outOfRange n) :
      Leaves name text (.refused (invalidReport name e.message))
  | outOfRange {j : Json} {n : Int} (hread : Json.read text = .ok j)
      (hfault : Node.ofProgramJson j = .error (.outOfRange n)) :
      Leaves name text (.refused (errorReport (DocumentError.outOfRange n).message))
  | escapes {failure : Failure} (h : Escapes text failure) : Leaves name text (.failed failure)

/-- Without details, the outcome of running a tree is that of its result. -/
theorem Settings.outcome_runTree {s : Settings} (hs : s.verbosity = 0) (body : List Node) :
    s.outcome (runTree body []) =
      match (Node.run [] body []).result with
      | .ok vs => .done (Text.unlines (Report.lines vs)) []
      | .error e =>
        if e.isMisuse then .failed (.run (.eval e)) else .refused (errorReport e.message) := by
  have hresult : (runTree body []).result = (Node.run [] body []).result.mapError .eval := rfl
  simp only [outcome, traceTarget, hs, Nat.cast_zero, trace_zero, hresult]
  cases (Node.run [] body []).result with
  | ok vs => simp [Except.mapError, Text.unlines]
  | error e =>
    have hlanguage : (RunError.eval e).isLanguage = !e.isMisuse := rfl
    simp only [Except.mapError, hlanguage]
    cases e.isMisuse <;> rfl

/-- A text leaves one outcome only. -/
theorem Leaves.unique {other : Outcome} (h : Leaves name text outcome)
    (h' : Leaves name text other) : outcome = other := by
  -- two different cases do not agree on what is read or on what the run gives
  rcases h with _ | _ | _ | _ | _ | (_ | _) <;> rcases h' with _ | _ | _ | _ | _ | (_ | _) <;> grind

/-- Whatever text a file has, what is left of it is listed. -/
theorem leaves_evaluate {i : Invocation} {bytes : List UInt8} (hcommand : i.command = .tree)
    (hsilent : i.settings.verbosity = 0) (htext : fileText bytes = .ok text) (input : List Char) :
    Leaves i.operand text (i.evaluate (.ok bytes) input) := by
  cases hread : Json.read text with
  | error e =>
    simp only [Invocation.evaluate, hcommand, documentTree, htext, hread]
    exact .unread hread
  | ok j =>
    cases htree : Node.ofProgramJson j with
    | error e =>
      cases e with
      | outOfRange n =>
        simp only [Invocation.evaluate, hcommand, documentTree, htext, hread, htree]
        exact .outOfRange hread htree
      | infinite =>
        simp only [Invocation.evaluate, hcommand, documentTree, htext, hread, htree]
        exact .escapes (.infinite hread htree)
      | _ =>
        simp only [Invocation.evaluate, hcommand, documentTree, htext, hread, htree]
        exact .invalid hread htree (by simp) (by simp)
    | ok body =>
      simp only [Invocation.evaluate, hcommand, documentTree, htext, hread, htree,
        Settings.outcome_runTree hsilent]
      cases hrun : (Node.run [] body []).result with
      | ok vs => exact .printed hread htree hrun
      | error e =>
        dsimp only
        split
        · rename_i he
          exact .escapes (.misuse hread htree hrun he)
        · rename_i he
          exact .raised hread htree hrun (Bool.eq_false_iff.2 he)

section Calls

variable {args : List String} {i : Invocation} {files : Files} {bytes : List UInt8}
  (hargs : Invocation.ofArgs args = .ok i) (hcommand : i.command = .tree)
  (hsilent : i.settings.verbosity = 0) (hload : files.load (.ofString i.operand) = .ok bytes)

include hargs hcommand hsilent hload

/-- Running a document without details changes no file. -/
theorem call_eq_evaluate (input : List Char) :
    call args input files = (i.evaluate (.ok bytes) input, files) := by
  have hloaded : i.load files = .ok bytes := by
    rw [Invocation.load, Invocation.input?, hcommand]
    exact hload
  rw [call, hargs]
  dsimp only
  rw [Invocation.perform_of_silent hsilent (by simp [hcommand]), hloaded]

/-- A text that escapes ends the command. -/
theorem Escapes.call_eq {failure : Failure} (h : Escapes text failure)
    (htext : fileText bytes = .ok text) (input : List Char) :
    call args input files = (.failed failure, files) := by
  have hleaves := leaves_evaluate hcommand hsilent htext input
  rw [call_eq_evaluate hargs hcommand hsilent hload, hleaves.unique (.escapes h)]

end Calls

/-! ### Answers -/

/-- The command prints its results, one to a line, or reports one line and prints nothing. -/
inductive Answers : Outcome → Prop
  | printed {lines : List String} (h : ∀ line ∈ lines, OneLine line) :
      Answers (.done (Text.unlines lines) [])
  | reported {message : String} (h : OneLine message) : Answers (.refused (errorReport message))

/-- What is left of a text is an answer, if the document in it, if there is one, is well made. -/
theorem Leaves.answers (h : Leaves name text outcome) (hname : OneLine name)
    (hmade : ∀ j, Json.read text = .ok j → j.WellMade) : Answers outcome := by
  have hinvalid : ∀ {message : String}, OneLine message →
      Answers (.refused (invalidReport name message)) := fun hmessage =>
    .reported (.append (.append (.append (oneLine_literal (by decide)) hname)
      (oneLine_literal (by decide))) hmessage)
  cases h with
  | printed => exact .printed (Report.oneLine_lines _)
  | unread => exact hinvalid (Json.ReadError.oneLine_message _)
  | invalid hread hfault =>
    exact hinvalid ((Node.about_of_ofProgramJson hfault).oneLine_message (hmade _ hread).types)
  | outOfRange hread hfault =>
    exact .reported ((Node.about_of_ofProgramJson hfault).oneLine_message (hmade _ hread).types)
  | raised hread htree hrun he =>
    refine .reported (EvalError.oneLine_message he ?_)
    rintro s rfl
    -- an unknown name is one that the tree has
    rcases Node.run_raises _ _ _ _ hrun with hoperation | hmem
    · cases hoperation
    · exact (hmade _ hread).names _ htree s hmem
  | escapes h =>
    cases h with
    | infinite hread hfault =>
      cases Node.about_of_ofProgramJson hfault with
      | infinite hholds => exact absurd hholds ((hmade _ hread).finite _)
    | misuse hread htree hrun he =>
      rcases Node.run_raises _ _ _ _ hrun with hoperation | hmem
      · rw [EvalError.isMisuse_of_isOperation hoperation] at he
        cases he
      · rw [(hmade _ hread).places _ htree _ hmem] at he
        cases he

/-- Only the texts that escape end the command. -/
theorem Leaves.escapes_of_ending (h : Leaves name text outcome) {failure : Failure}
    (hending : outcome.ending = .failure failure) : Escapes text failure := by
  cases h with
  | escapes h =>
    cases hending
    exact h
  | _ => cases hending

/-- What running a document leaves, whatever the text of its file is. No file changes, and the outcome is
the one that is listed for the text. The command ends without a report on exactly the texts that escape.
A text whose document, if there is one, is well made never does, and what is left of it is an answer. -/
theorem call_tree_text {args : List String} {i : Invocation} {files : Files} {bytes : List UInt8}
    {text : List Char} (hargs : Invocation.ofArgs args = .ok i) (hcommand : i.command = .tree)
    (hsilent : i.settings.verbosity = 0) (hload : files.load (.ofString i.operand) = .ok bytes)
    (htext : fileText bytes = .ok text) (input : List Char) :
    ∃ outcome, call args input files = (outcome, files) ∧ Leaves i.operand text outcome ∧
      (∀ failure, outcome.ending = .failure failure ↔ Escapes text failure) ∧
      (OneLine i.operand → (∀ j, Json.read text = .ok j → j.WellMade) → Answers outcome) := by
  have hleaves := leaves_evaluate hcommand hsilent htext input
  refine ⟨_, call_eq_evaluate hargs hcommand hsilent hload input, hleaves, fun failure => ?_,
    hleaves.answers⟩
  constructor
  · exact hleaves.escapes_of_ending
  · intro hescapes
    rw [hleaves.unique (.escapes hescapes)]
    rfl

/-- The document of a single literal is well made and is answered with its value. -/
theorem call_tree_text_literal :
    let document := Node.programJson [.expr (.bool true)]
    let bytes := Utf8.encode document.pretty
    let files : Files := ⟨[(Place.here.child "a.json", bytes)]⟩
    files.load (.ofString "a.json") = .ok bytes ∧ fileText bytes = .ok document.pretty ∧
    document.WellMade ∧
    ∃ outcome, call ["ast", "a.json"] [] files = (outcome, files) ∧ Answers outcome ∧
      outcome = .done "true\n" [] := by
  intro document bytes files
  have hstored : document.Storable :=
    @Stmt.storable_programJson [.expr (.bool true)] ⟨trivial, trivial⟩
  have htext : fileText bytes = .ok document.pretty := fileText_encode_pretty hstored
  have hread : Json.read document.pretty = .ok document := Json.read_pretty hstored
  have htree : Node.ofProgramJson document = .ok [.expr (.bool true)] := rfl
  have hmade : document.WellMade := by
    refine ⟨fun negative h => ?_, fun s h => ?_, fun body hbody => ?_, fun body hbody s hmem => ?_⟩
    · simp [document, Node.programJson, Node.object, Node.toJsons, Node.toJson] at h
    · simp [document, Node.programJson, Node.object, Node.toJsons, Node.toJson] at h
      rcases h with rfl | rfl | rfl <;> exact oneLine_literal (by decide)
    · cases htree.symm.trans hbody
      exact List.forall_mem_nil _
    · cases htree.symm.trans hbody
      cases hmem
  obtain ⟨outcome, hcall, hleaves, -, hanswers⟩ :=
    @call_tree_text ["ast", "a.json"] ⟨.tree, .default, "a.json"⟩ files bytes document.pretty
      rfl rfl rfl rfl htext []
  refine ⟨rfl, htext, hmade, outcome, hcall, ?_, hleaves.unique (.printed hread htree rfl)⟩
  refine hanswers (oneLine_literal (by decide)) fun j hj => ?_
  cases hread.symm.trans hj
  exact hmade

/-- A document with nothing in the place of a statement, and one with a list in the place of a name, end
the command without a report. -/
theorem call_tree_misplaced :
    let document (body : List Node) := (Node.programJson body).pretty
    let files (body : List Node) : Files :=
      ⟨[(Place.here.child "a.json", Utf8.encode (document body))]⟩
    let ran (body : List Node) := call ["ast", "a.json"] [] (files body)
    let unnamed : Node := .expr (.name (.arr []))
    (fileText (Utf8.encode (document [.gap])) = .ok (document [.gap]) ∧
      ran [.gap] = (.failed (.run (.eval (.misplacedStatement .gap))), files [.gap])) ∧
    (fileText (Utf8.encode (document [unnamed])) = .ok (document [unnamed]) ∧
      ran [unnamed] = (.failed (.run (.eval (.compoundName (.arr [])))), files [unnamed])) := by
  intro document files ran unnamed
  have hran : ∀ {body : List Node} {e : EvalError}, (Node.programJson body).Storable →
      Node.ofProgramJson (Node.programJson body) = .ok body →
      (Node.run [] body []).result = .error e → e.isMisuse = true →
      fileText (Utf8.encode (document body)) = .ok (document body) ∧
        ran body = (.failed (.run (.eval e)), files body) := by
    intro body e hstored htree hrun he
    have htext : fileText (Utf8.encode (document body)) = .ok (document body) :=
      fileText_encode_pretty hstored
    have hescapes : Escapes (document body) (.run (.eval e)) :=
      .misuse (Json.read_pretty hstored) htree hrun he
    exact ⟨htext, hescapes.call_eq rfl rfl rfl rfl htext []⟩
  have hgap : (Node.programJson [.gap]).Storable :=
    Node.storable_object (by simp) ⟨trivial, ⟨trivial, trivial⟩, trivial⟩
  have hunnamed : (Node.programJson [unnamed]).Storable := by
    refine Node.storable_object (by simp) ⟨trivial, ⟨?_, trivial⟩, trivial⟩
    refine Node.storable_object (by simp) ⟨trivial, ?_, trivial⟩
    exact Node.storable_object (by simp) ⟨trivial, trivial, trivial⟩
  exact ⟨hran hgap rfl rfl rfl, hran hunnamed rfl rfl rfl⟩

end CommandLine

end Abacus
