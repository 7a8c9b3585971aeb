import Abacus.Proofs.Eval.Checked
import Abacus.Proofs.Json.RoundTrip
import Abacus.Proofs.Program.WellFormed
import Abacus.Tree.Document

/-!
# Trees from sources and from documents

The literals of a tree are in range wherever it comes from: the programs of sources are well formed, and
a document is checked when a tree is read from it, whatever else it holds. A tree whose literals are in
range is read back from the document that it is stored as.

## Main results

* `Stmt.allLiteralsInRange_toNodes` — the literals of a program that is read from a source
* `Node.literalsInRange_of_ofJson`, `Node.allLiteralsInRange_of_ofProgramJson` — what is read is in range
* `Node.ofJson_toJson`, `Node.ofProgramJson_programJson` — what is stored is read back
* `Node.document_round_trip` — reading and storing undo each other
* `Stmt.storable_programJson` — the document of a program is read back from its text
-/

namespace Abacus

/-! ### The literals of a tree from a source -/

theorem inRange_of_isLiteral {value : Option Payload} (h : Payload.IsLiteral value) :
    (Node.ofLiteral value).LiteralsInRange := by
  obtain ⟨n, hn, rfl⟩ := h
  have hin : InRange n := ⟨by rw [minInt]; omega, hn⟩
  exact hin

mutual

theorem Expr.literalsInRange_toNode : (e : Expr) → e.WellFormed → e.toNode.LiteralsInRange
  | .int _, h => by
    rw [toNode]
    exact inRange_of_isLiteral h
  | .bool _, _ | .name _, _ => by
    rw [toNode]
    trivial
  | .unary _ e, h => by
    rw [toNode]
    exact e.literalsInRange_toNode h
  | .binary _ l r, h | .logical _ l r, h | .relational _ l r, h => by
    rw [toNode]
    exact ⟨l.literalsInRange_toNode h.1, r.literalsInRange_toNode h.2⟩
  | .list items, h => by
    rw [toNode]
    exact Expr.allLiteralsInRange_toNodes items h

theorem Expr.allLiteralsInRange_toNodes : (es : List Expr) → Expr.AllWellFormed es →
    Node.AllLiteralsInRange (Expr.toNodes es)
  | [], _ => trivial
  | e :: es, h => by
    rw [toNodes]
    exact ⟨e.literalsInRange_toNode h.1, Expr.allLiteralsInRange_toNodes es h.2⟩

end

mutual

theorem Stmt.literalsInRange_toNode : (s : Stmt) → s.WellFormed → s.toNode.LiteralsInRange
  | .expr e, h => by
    rw [toNode]
    exact e.literalsInRange_toNode h
  | .define _ e, h => by
    rw [toNode]
    exact e.literalsInRange_toNode h.2
  | .ifThen test yes, h => by
    rw [toNode]
    exact ⟨test.literalsInRange_toNode h.1, yes.literalsInRange_toNode h.2, trivial⟩
  | .ifElse test yes no, h => by
    rw [toNode]
    exact ⟨test.literalsInRange_toNode h.1, yes.literalsInRange_toNode h.2.1,
      no.literalsInRange_toNode h.2.2.1⟩
  | .block body, h => by
    rw [toNode]
    exact Stmt.allLiteralsInRange_toNodes body h.2

/-- The literals of a well-formed program are in range. -/
theorem Stmt.allLiteralsInRange_toNodes : (body : List Stmt) → Stmt.AllWellFormed body →
    Node.AllLiteralsInRange (Stmt.toNodes body)
  | [], _ => trivial
  | s :: ss, h => by
    rw [toNodes]
    exact ⟨s.literalsInRange_toNode h.1, Stmt.allLiteralsInRange_toNodes ss h.2⟩

end

/-! ### The literals of a tree from a document -/

theorem Json.inRange_of_toLiteral {j : Json} {n : Int} (h : j.toLiteral = .ok n) : InRange n := by
  obtain ⟨m, -, hm⟩ := bind_eq_ok_iff.1 h
  split at hm
  · rename_i hin
    cases hm
    exact hin
  · cases hm

namespace Node

/-- The trees in the fields of an object have literals in range. -/
def FieldsInRange (fields : List Field) : Prop :=
  ∀ field ∈ fields, ∀ node, field.2.2 = .ok node → node.LiteralsInRange

section Fields

variable {fields : List Field} {key : String}

theorem mem_of_lookup {key : Str} {value : Json × Except DocumentError Node}
    (h : fields.lookup key = some value) : (key, value) ∈ fields := by
  induction fields with
  | nil => cases h
  | cons field fields ih =>
    obtain ⟨k, v⟩ := field
    rw [List.lookup_cons] at h
    split at h
    · rename_i hkey
      cases h
      rw [eq_of_beq hkey]
      exact List.mem_cons_self
    · exact List.mem_cons_of_mem _ (ih h)

theorem literalsInRange_of_fieldNode (hfields : FieldsInRange fields) {node : Node}
    (h : fieldNode fields key = .ok node) : node.LiteralsInRange := by
  unfold fieldNode at h
  split at h
  · rename_i hlookup
    exact hfields _ (mem_of_lookup hlookup) _ h
  · cases h

theorem allLiteralsInRange_of_parts {value : Json} {whole : Except DocumentError Node}
    (hwhole : ∀ node, whole = .ok node → node.LiteralsInRange) {nodes : List Node}
    (h : parts value whole = .ok nodes) : AllLiteralsInRange nodes := by
  unfold parts at h
  split at h
  · obtain ⟨node, hnode, h⟩ := bind_eq_ok_iff.1 h
    have hin := hwhole node hnode
    split at h <;> cases h
    · exact hin
    · exact ⟨hin, trivial⟩
  · split at h
    · cases h
      trivial
    · cases h
  · cases h
    trivial
  · cases h
  · cases h

theorem allLiteralsInRange_of_fieldNodes (hfields : FieldsInRange fields) {nodes : List Node}
    (h : fieldNodes fields key = .ok nodes) : AllLiteralsInRange nodes := by
  unfold fieldNodes at h
  split at h
  · rename_i hlookup
    exact allLiteralsInRange_of_parts (hfields _ (mem_of_lookup hlookup)) h
  · cases h

theorem literalsInRange_of_ofFields (hfields : FieldsInRange fields) {whole : Json} {node : Node}
    (h : ofFields whole fields = .ok node) : node.LiteralsInRange := by
  unfold ofFields at h
  -- one case for each type, in the order of the definition
  split at h
  · cases h
  · -- an expression
    obtain ⟨e, he, h⟩ := bind_eq_ok_iff.1 h
    cases h
    have hin : e.LiteralsInRange := literalsInRange_of_fieldNode hfields he
    exact hin
  · -- a definition
    obtain ⟨x, -, h⟩ := bind_eq_ok_iff.1 h
    obtain ⟨e, he, h⟩ := bind_eq_ok_iff.1 h
    cases h
    have hin : e.LiteralsInRange := literalsInRange_of_fieldNode hfields he
    exact hin
  · -- a branch, whose other way may be missing
    obtain ⟨test, htest, h⟩ := bind_eq_ok_iff.1 h
    obtain ⟨yes, hyes, h⟩ := bind_eq_ok_iff.1 h
    split at h
    · rename_i hlookup
      obtain ⟨no, hno, h⟩ := bind_eq_ok_iff.1 h
      cases h
      exact ⟨literalsInRange_of_fieldNode hfields htest, literalsInRange_of_fieldNode hfields hyes,
        hfields _ (mem_of_lookup hlookup) _ hno⟩
    · cases h
      exact ⟨literalsInRange_of_fieldNode hfields htest, literalsInRange_of_fieldNode hfields hyes,
        trivial⟩
  · -- a block
    obtain ⟨body, hbody, h⟩ := bind_eq_ok_iff.1 h
    cases h
    exact allLiteralsInRange_of_fieldNodes hfields hbody
  · -- a literal, which is checked
    obtain ⟨value, -, h⟩ := bind_eq_ok_iff.1 h
    obtain ⟨n, hn, h⟩ := bind_eq_ok_iff.1 h
    cases h
    exact Json.inRange_of_toLiteral hn
  · -- a truth value
    obtain ⟨value, -, h⟩ := bind_eq_ok_iff.1 h
    cases h
    trivial
  · -- a name
    obtain ⟨x, -, h⟩ := bind_eq_ok_iff.1 h
    cases h
    trivial
  · -- a list
    obtain ⟨items, hitems, h⟩ := bind_eq_ok_iff.1 h
    cases h
    exact allLiteralsInRange_of_fieldNodes hfields hitems
  · -- an operator with one operand
    obtain ⟨value, -, h⟩ := bind_eq_ok_iff.1 h
    obtain ⟨op, -, h⟩ := bind_eq_ok_iff.1 h
    obtain ⟨e, he, h⟩ := bind_eq_ok_iff.1 h
    cases h
    have hin : e.LiteralsInRange := literalsInRange_of_fieldNode hfields he
    exact hin
  -- the three families of operators with two operands
  iterate 3
    obtain ⟨value, -, h⟩ := bind_eq_ok_iff.1 h
    obtain ⟨op, -, h⟩ := bind_eq_ok_iff.1 h
    obtain ⟨l, hl, h⟩ := bind_eq_ok_iff.1 h
    obtain ⟨r, hr, h⟩ := bind_eq_ok_iff.1 h
    cases h
    exact ⟨literalsInRange_of_fieldNode hfields hl, literalsInRange_of_fieldNode hfields hr⟩
  -- all other types are refused
  · cases h
  · cases h
  · cases h

end Fields

mutual

/-- A tree that is read from a document has literals in range. -/
theorem literalsInRange_of_ofJson : (j : Json) → {node : Node} → ofJson j = .ok node →
    node.LiteralsInRange
  | .null, _, h => by
    rw [ofJson] at h
    cases h
    trivial
  | .arr items, _, h => by
    rw [ofJson] at h
    obtain ⟨nodes, hnodes, h⟩ := bind_eq_ok_iff.1 h
    cases h
    exact allLiteralsInRange_of_ofJsons items hnodes
  | .obj fields, _, h => by
    rw [ofJson] at h
    exact literalsInRange_of_ofFields (fieldsInRange_ofJsonFields fields) h
  | .bool _, _, h | .int _, _, h | .float _, _, h | .str _, _, h => by
    simp [ofJson] at h

theorem allLiteralsInRange_of_ofJsons : (items : List Json) → {nodes : List Node} →
    ofJsons items = .ok nodes → AllLiteralsInRange nodes
  | [], _, h => by
    rw [ofJsons] at h
    cases h
    trivial
  | item :: items, _, h => by
    rw [ofJsons] at h
    obtain ⟨node, hnode, h⟩ := bind_eq_ok_iff.1 h
    obtain ⟨nodes, hnodes, h⟩ := bind_eq_ok_iff.1 h
    cases h
    exact ⟨literalsInRange_of_ofJson item hnode, allLiteralsInRange_of_ofJsons items hnodes⟩

theorem fieldsInRange_ofJsonFields : (fields : List (Str × Json)) →
    FieldsInRange (ofJsonFields fields)
  | [] => by
    rw [ofJsonFields]
    exact List.forall_mem_nil _
  | (key, value) :: fields => by
    rw [ofJsonFields]
    exact List.forall_mem_cons.2
      ⟨fun node h => literalsInRange_of_ofJson value h, fieldsInRange_ofJsonFields fields⟩

end

/-- A program that is read from a document has literals in range. -/
theorem allLiteralsInRange_of_ofProgramJson {j : Json} {body : List Node}
    (h : ofProgramJson j = .ok body) : AllLiteralsInRange body := by
  unfold ofProgramJson at h
  split at h
  · split at h
    · exact allLiteralsInRange_of_parts (fun node hnode => literalsInRange_of_ofJson _ hnode) h
    · cases h
  · cases h

/-! ### Storing trees -/

theorem toLiteral_int {n : Int} (h : InRange n) : (Json.int n).toLiteral = .ok n :=
  if_pos h

mutual

/-- A tree whose literals are in range is read back from its document. -/
theorem ofJson_toJson : (node : Node) → node.LiteralsInRange → ofJson node.toJson = .ok node
  | .gap, _ => by
    rw [toJson, ofJson]
  | .many nodes, h => by
    rw [toJson, ofJson, ofJsons_toJsons nodes h]
    rfl
  | .expr e, h | .define _ e, h => by
    rw [toJson, object, ofJson]
    simp only [ofJsonFields, ofJson_toJson e h]
    rfl
  | .branch test yes no, h => by
    rw [toJson, object, ofJson]
    simp only [ofJsonFields, ofJson_toJson test h.1, ofJson_toJson yes h.2.1,
      ofJson_toJson no h.2.2]
    rfl
  | .block nodes, h | .list nodes, h => by
    rw [toJson, object, ofJson]
    simp only [ofJsonFields, ofJson, ofJsons_toJsons nodes h]
    rfl
  | .int n, h => by
    have hread : ofJson (Node.int n).toJson = do return .int (← (Json.int n).toLiteral) := by
      rw [toJson, object, ofJson]
      rfl
    rw [hread, toLiteral_int h]
    rfl
  | .unread _, h => h.elim
  | .bool _, _ | .name _, _ => by
    rw [toJson, object, ofJson]
    rfl
  | .unary op e, h => by
    rw [toJson, object, ofJson]
    simp only [ofJsonFields, ofJson_toJson e h]
    -- each symbol names its operator again
    cases op <;> rfl
  | .binary op l r, h | .logical op l r, h | .relational op l r, h => by
    rw [toJson, object, ofJson]
    simp only [ofJsonFields, ofJson_toJson l h.1, ofJson_toJson r h.2]
    cases op <;> rfl

theorem ofJsons_toJsons : (nodes : List Node) → AllLiteralsInRange nodes →
    ofJsons (toJsons nodes) = .ok nodes
  | [], _ => by
    rw [toJsons, ofJsons]
  | node :: nodes, h => by
    rw [toJsons, ofJsons, ofJson_toJson node h.1, ofJsons_toJsons nodes h.2]
    rfl

end

/-- A program whose literals are in range is read back from its document. -/
theorem ofProgramJson_programJson {body : List Node} (h : AllLiteralsInRange body) :
    ofProgramJson (programJson body) = .ok body := by
  have hread : ofProgramJson (programJson body) =
      parts (.arr (toJsons body)) (do return .many (← ofJsons (toJsons body))) := rfl
  rw [hread, ofJsons_toJsons body h]
  rfl

/-- Just the trees whose literals are in range are read back from their documents. -/
theorem ofJson_toJson_eq_ok_iff {node : Node} :
    ofJson node.toJson = .ok node ↔ node.LiteralsInRange :=
  ⟨literalsInRange_of_ofJson node.toJson, ofJson_toJson node⟩

theorem ofProgramJson_programJson_eq_ok_iff {body : List Node} :
    ofProgramJson (programJson body) = .ok body ↔ AllLiteralsInRange body :=
  ⟨allLiteralsInRange_of_ofProgramJson, ofProgramJson_programJson⟩

/-- A document is its own stored form just when it is one. This needs no more of reading and storing than
that what is read is read back once it is stored. -/
theorem map_eq_ok_self_iff {α : Type} {read : Json → Except DocumentError α} {store : α → Json}
    {Good : α → Prop} (hback : ∀ a, read (store a) = .ok a ↔ Good a)
    (hgood : ∀ j a, read j = .ok a → Good a) (j : Json) :
    (read j).map store = .ok j ↔ ∃ a, Good a ∧ store a = j := by
  constructor
  · intro h
    cases hread : read j with
    | error e =>
      rw [hread] at h
      cases h
    | ok a =>
      rw [hread] at h
      exact ⟨a, hgood j a hread, Except.ok.inj h⟩
  · rintro ⟨a, ha, rfl⟩
    rw [(hback a).2 ha]
    rfl

/-- Trees and documents. Just the trees whose literals are in range are read back from their documents, and
the same holds of programs. Whatever is read, also from a document that no tree is stored as, has its
literals in range and so is read back once it is stored, and storing it then changes nothing. Reading and
storing leave a document as it is just when it is that of a tree, or a program, whose literals are in
range. -/
theorem document_round_trip (node : Node) (body : List Node) (j : Json) :
    (ofJson node.toJson = .ok node ↔ node.LiteralsInRange) ∧
    (ofProgramJson (programJson body) = .ok body ↔ AllLiteralsInRange body) ∧
    (∀ tree, ofJson j = .ok tree → tree.LiteralsInRange ∧ ofJson tree.toJson = .ok tree ∧
      (ofJson tree.toJson).map toJson = .ok tree.toJson) ∧
    (∀ trees, ofProgramJson j = .ok trees → AllLiteralsInRange trees ∧
      ofProgramJson (programJson trees) = .ok trees ∧
      (ofProgramJson (programJson trees)).map programJson = .ok (programJson trees)) ∧
    ((ofJson j).map toJson = .ok j ↔ ∃ tree : Node, tree.LiteralsInRange ∧ tree.toJson = j) ∧
    ((ofProgramJson j).map programJson = .ok j ↔
      ∃ trees, AllLiteralsInRange trees ∧ programJson trees = j) := by
  have htree := map_eq_ok_self_iff (fun _ => ofJson_toJson_eq_ok_iff)
    fun j _ => literalsInRange_of_ofJson j
  have htrees := map_eq_ok_self_iff (fun _ => ofProgramJson_programJson_eq_ok_iff)
    fun _ _ => allLiteralsInRange_of_ofProgramJson
  refine ⟨ofJson_toJson_eq_ok_iff, ofProgramJson_programJson_eq_ok_iff, fun tree h => ?_,
    fun trees h => ?_, htree j, htrees j⟩
  · have hin := literalsInRange_of_ofJson j h
    exact ⟨hin, ofJson_toJson tree hin, (htree _).2 ⟨tree, hin, rfl⟩⟩
  · have hin := allLiteralsInRange_of_ofProgramJson h
    exact ⟨hin, ofProgramJson_programJson hin, (htrees _).2 ⟨trees, hin, rfl⟩⟩

end Node

/-! ### Documents of programs as text -/

open Json in
/-- An object of a node is storable if its fields have names of their own, other than the one for the
type, and storable values. -/
theorem Node.storable_object {type : String} {fields : List (Str × Json)}
    (hkeys : (.text "type" :: fields.map Prod.fst).Nodup) (hfields : FieldsStorable fields) :
    (Node.object type fields).Storable :=
  ⟨hkeys, trivial, trivial, hfields⟩

theorem storable_of_isIdentifier {x : Option Payload} (h : Payload.IsIdentifier x) :
    (Payload.toJson x).Storable := by
  obtain ⟨word, -, rfl⟩ := h
  trivial

theorem storable_of_isLiteral {value : Option Payload} (h : Payload.IsLiteral value) :
    (Node.ofLiteral value).toJson.Storable := by
  obtain ⟨n, hn, rfl⟩ := h
  rw [Node.ofLiteral, Node.toJson]
  exact Node.storable_object (by simp) ⟨trivial, length_toDigits_le_digitLimit hn, trivial⟩

mutual

theorem Expr.storable_toJson : (e : Expr) → e.WellFormed → e.toNode.toJson.Storable
  | .int _, h => by
    rw [toNode]
    exact storable_of_isLiteral h
  | .bool _, _ => by
    rw [toNode, Node.toJson]
    exact Node.storable_object (by simp) ⟨trivial, trivial, trivial⟩
  | .name _, h => by
    rw [toNode, Node.toJson]
    exact Node.storable_object (by simp) ⟨trivial, storable_of_isIdentifier h, trivial⟩
  | .unary _ e, h => by
    rw [toNode, Node.toJson]
    exact Node.storable_object (by simp) ⟨trivial, trivial, trivial, e.storable_toJson h, trivial⟩
  | .binary _ l r, h | .logical _ l r, h | .relational _ l r, h => by
    rw [toNode, Node.toJson]
    exact Node.storable_object (by simp)
      ⟨trivial, trivial, trivial, l.storable_toJson h.1, trivial, r.storable_toJson h.2, trivial⟩
  | .list items, h => by
    rw [toNode, Node.toJson]
    exact Node.storable_object (by simp) ⟨trivial, Expr.allStorable_toJsons items h, trivial⟩

theorem Expr.allStorable_toJsons : (es : List Expr) → Expr.AllWellFormed es →
    Json.AllStorable (Node.toJsons (Expr.toNodes es))
  | [], _ => trivial
  | e :: es, h => by
    rw [toNodes, Node.toJsons]
    exact ⟨e.storable_toJson h.1, Expr.allStorable_toJsons es h.2⟩

end

mutual

theorem Stmt.storable_toJson : (s : Stmt) → s.WellFormed → s.toNode.toJson.Storable
  | .expr e, h => by
    rw [toNode, Node.toJson]
    exact Node.storable_object (by simp) ⟨trivial, e.storable_toJson h, trivial⟩
  | .define _ e, h => by
    rw [toNode, Node.toJson]
    exact Node.storable_object (by simp)
      ⟨trivial, storable_of_isIdentifier h.1, trivial, e.storable_toJson h.2, trivial⟩
  | .ifThen test yes, h => by
    rw [toNode, Node.toJson, Node.toJson]
    exact Node.storable_object (by simp)
      ⟨trivial, test.storable_toJson h.1, trivial, yes.storable_toJson h.2, trivial, trivial, trivial⟩
  | .ifElse test yes no, h => by
    rw [toNode, Node.toJson]
    exact Node.storable_object (by simp)
      ⟨trivial, test.storable_toJson h.1, trivial, yes.storable_toJson h.2.1, trivial,
        no.storable_toJson h.2.2.1, trivial⟩
  | .block body, h => by
    rw [toNode, Node.toJson]
    exact Node.storable_object (by simp) ⟨trivial, Stmt.allStorable_toJsons body h.2, trivial⟩

theorem Stmt.allStorable_toJsons : (ss : List Stmt) → Stmt.AllWellFormed ss →
    Json.AllStorable (Node.toJsons (Stmt.toNodes ss))
  | [], _ => trivial
  | s :: ss, h => by
    rw [toNodes, Node.toJsons]
    exact ⟨s.storable_toJson h.1, Stmt.allStorable_toJsons ss h.2⟩

end

/-- The document of a well-formed program is read back from what is written for it. -/
theorem Stmt.storable_programJson {program : List Stmt} (h : Stmt.AllWellFormed program) :
    (Node.programJson (Stmt.toNodes program)).Storable :=
  Node.storable_object (by simp) ⟨trivial, Stmt.allStorable_toJsons program h, trivial⟩

end Abacus
