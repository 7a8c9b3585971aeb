import Abacus.Proofs.Tree.Document

/-!
# What is wrong with a document

A document that describes no tree is refused with an error about something that it holds: a type, an
operator or a literal that the error names stands under its key in one of the objects of the document, at
any depth. Only a few errors are about the shape of the document as a whole.

## Main definitions

* `Json.Holds` — a value stands under a key, at any depth
* `DocumentError.About` — what an error says can be found in the document

## Main results

* `Node.explained_ofJson`, `Node.about_of_ofProgramJson` — every error is about the document
-/

namespace Abacus

/-! ### What a document holds -/

/-- In an object of the document, at any depth, a value stands under a key. -/
inductive Json.Holds : Json → Str → Json → Prop
  | here {fields : List (Str × Json)} {key : Str} {value : Json}
      (hmem : (key, value) ∈ fields) : Holds (.obj fields) key value
  | item {items : List Json} {item : Json} {key : Str} {value : Json}
      (hmem : item ∈ items) (h : item.Holds key value) : Holds (.arr items) key value
  | field {fields : List (Str × Json)} {k : Str} {v : Json} {key : Str} {value : Json}
      (hmem : (k, v) ∈ fields) (h : v.Holds key value) : Holds (.obj fields) key value

namespace Json

variable {key : Str} {value : Json}

@[simp]
theorem holds_arr_iff {items : List Json} :
    Holds (.arr items) key value ↔ ∃ item ∈ items, item.Holds key value := by
  constructor
  · rintro (_ | ⟨hmem, h⟩)
    exact ⟨_, hmem, h⟩
  · rintro ⟨item, hmem, h⟩
    exact .item hmem h

@[simp]
theorem holds_obj_iff {fields : List (Str × Json)} :
    Holds (.obj fields) key value ↔
      (key, value) ∈ fields ∨ ∃ field ∈ fields, field.2.Holds key value := by
  constructor
  · rintro (hmem | _ | ⟨hmem, h⟩)
    · exact .inl hmem
    · exact .inr ⟨_, hmem, h⟩
  · rintro (hmem | ⟨field, hmem, h⟩)
    · exact .here hmem
    · exact .field hmem h

@[simp]
theorem not_holds_str (s : Str) : ¬Holds (.str s) key value :=
  nofun

@[simp]
theorem not_holds_bool (b : Bool) : ¬Holds (.bool b) key value :=
  nofun

theorem mem_of_lookup {fields : List (Str × Json)} (h : lookup key fields = some value) :
    (key, value) ∈ fields := by
  induction fields with
  | nil => cases h
  | cons field fields ih =>
    obtain ⟨k, v⟩ := field
    rw [lookup] at h
    split at h
    · rename_i hkey
      cases h
      rw [hkey]
      exact List.mem_cons_self
    · exact List.mem_cons_of_mem _ (ih h)

end Json

/-- The names of the families of operators. -/
def Operator.families : List String :=
  [family UnaryOp, family BinaryOp, family LogicOp, family RelOp]

/-- An error is about a document: what it names stands in the document, under the key where it is
wanted. -/
inductive DocumentError.About (j : Json) : DocumentError → Prop
  | notProgram (found : Json) : About j (.notProgram found)
  | notNode (found : Json) : About j (.notNode found)
  | missing (key : String) : About j (.missing key)
  | notIterable (found : Json) : About j (.notIterable found)
  | unknownType {type : Json} (h : j.Holds "type" type) : About j (.unknownType type)
  | compoundType {type : Json} (h : j.Holds "type" type) : About j (.compoundType type)
  | unknownOperator {family : String} {found : Json} (hfamily : family ∈ Operator.families)
      (h : j.Holds "operator" found) : About j (.unknownOperator family found)
  | notNumber {found : Json} (h : j.Holds "value" found) : About j (.notNumber found)
  | numeral {s : Str} {error : NumeralError} (h : j.Holds "value" (.str s))
      (herror : Numeral.read s = .error error) : About j (.numeral error)
  | notANumber (h : j.Holds "value" (.float .nan)) : About j .notANumber
  | infinite {negative : Bool} (h : j.Holds "value" (.float (.infinity negative))) :
      About j .infinite
  | outOfRange {value : Json} {n : Int} (h : j.Holds "value" value)
      (hvalue : value.toInteger = .ok n) (hn : ¬InRange n) : About j (.outOfRange n)

variable {j : Json}

/-- An error about a document is about every document that holds as much. -/
theorem DocumentError.About.mono {whole : Json} {e : DocumentError} (h : e.About j)
    (hholds : ∀ key value, j.Holds key value → whole.Holds key value) : e.About whole := by
  cases h with
  | notProgram found => exact .notProgram found
  | notNode found => exact .notNode found
  | missing key => exact .missing key
  | notIterable found => exact .notIterable found
  | unknownType h => exact .unknownType (hholds _ _ h)
  | compoundType h => exact .compoundType (hholds _ _ h)
  | unknownOperator hfamily h => exact .unknownOperator hfamily (hholds _ _ h)
  | notNumber h => exact .notNumber (hholds _ _ h)
  | numeral h herror => exact .numeral (hholds _ _ h) herror
  | notANumber h => exact .notANumber (hholds _ _ h)
  | infinite h => exact .infinite (hholds _ _ h)
  | outOfRange h hvalue hn => exact .outOfRange (hholds _ _ h) hvalue hn

/-! ### Errors of readings -/

/-- Every error of a reading is about the document. -/
def Explained {α : Type} (j : Json) (reading : Except DocumentError α) : Prop :=
  ∀ e, reading = .error e → e.About j

section Explained

variable {α β : Type} {reading : Except DocumentError α}

theorem explained_ok (a : α) : Explained j (.ok a) :=
  nofun

theorem explained_error {e : DocumentError} (h : e.About j) :
    Explained j (.error e : Except DocumentError α) := by
  rintro _ ⟨⟩
  exact h

theorem Explained.bind {f : α → Except DocumentError β} (h : Explained j reading)
    (hf : ∀ a, Explained j (f a)) : Explained j (reading >>= f) := by
  cases reading with
  | error e => exact explained_error (h e rfl)
  | ok a => exact hf a

theorem Explained.mono {whole : Json} (h : Explained j reading)
    (hholds : ∀ key value, j.Holds key value → whole.Holds key value) : Explained whole reading :=
  fun e he => (h e he).mono hholds

end Explained

theorem Json.explained_toInteger {value : Json} (h : j.Holds "value" value) :
    Explained j value.toInteger := by
  unfold Json.toInteger
  split
  · exact explained_ok _
  · exact explained_ok _
  · exact explained_error (.notANumber h)
  · exact explained_error (.infinite h)
  · exact explained_ok _
  · rintro _ he
    obtain ⟨error, herror, rfl⟩ := mapError_eq_error_iff.1 he
    exact .numeral h herror
  · exact explained_error (.notNumber h)

theorem Json.explained_toLiteral {value : Json} (h : j.Holds "value" value) :
    Explained j value.toLiteral := by
  intro e he
  rcases bind_eq_error_iff.1 he with hinteger | ⟨n, hvalue, hcheck⟩
  · exact Json.explained_toInteger h e hinteger
  · -- the number is known, but it is out of range
    split at hcheck <;> cases hcheck
    rename_i hn
    exact .outOfRange h hvalue hn

theorem Json.explained_toOperator {α : Type} [Operator α] {found : Json}
    (h : j.Holds "operator" found) (hfamily : Operator.family α ∈ Operator.families) :
    Explained j (found.toOperator : Except DocumentError α) := by
  unfold Json.toOperator
  dsimp only
  split
  · exact explained_ok _
  · exact explained_error (.unknownOperator hfamily h)

namespace Node

/-! ### Fields -/

/-- The values of the fields stand in the document, and what is wrong with their trees is about it. -/
def FieldsExplained (j : Json) (fields : List Field) : Prop :=
  ∀ field ∈ fields, j.Holds field.1 field.2.1 ∧ Explained j field.2.2

section Fields

variable {fields : List Field} (hfields : FieldsExplained j fields)

include hfields

theorem FieldsExplained.value_bind {β : Type} {key : String} {f : Json → Except DocumentError β}
    (hf : ∀ value, j.Holds key value → Explained j (f value)) :
    Explained j (fieldValue fields key >>= f) := by
  unfold fieldValue
  split
  · rename_i hlookup
    exact hf _ (hfields _ (mem_of_lookup hlookup)).1
  · exact explained_error (.missing key)

theorem FieldsExplained.node (key : String) : Explained j (fieldNode fields key) := by
  unfold fieldNode
  split
  · rename_i hlookup
    exact (hfields _ (mem_of_lookup hlookup)).2
  · exact explained_error (.missing key)

omit hfields

theorem explained_parts {value : Json} {whole : Except DocumentError Node}
    (hwhole : Explained j whole) : Explained j (parts value whole) := by
  unfold parts
  split
  · refine hwhole.bind fun node => ?_
    split <;> exact explained_ok _
  · split
    · exact explained_ok _
    · exact explained_error (.notNode _)
  · exact explained_ok _
  · exact explained_error (.notNode _)
  · exact explained_error (.notIterable _)

include hfields

theorem FieldsExplained.nodes (key : String) : Explained j (fieldNodes fields key) := by
  unfold fieldNodes
  split
  · rename_i hlookup
    exact explained_parts (hfields _ (mem_of_lookup hlookup)).2
  · exact explained_error (.missing key)

/-- An operator with two operands. -/
theorem FieldsExplained.operation {α : Type} [Operator α]
    (hfamily : Operator.family α ∈ Operator.families) (build : α → Node → Node → Node) :
    Explained j (do
      return build (← (← fieldValue fields "operator").toOperator) (← fieldNode fields "lhs")
        (← fieldNode fields "rhs")) :=
  hfields.value_bind fun _ hvalue => (Json.explained_toOperator hvalue hfamily).bind fun _ =>
    (hfields.node "lhs").bind fun _ => (hfields.node "rhs").bind fun _ => explained_ok _

theorem explained_ofFields (whole : Json) : Explained j (ofFields whole fields) := by
  unfold ofFields
  -- one case for each type, in the order of the definition
  split
  · exact explained_error (.notNode whole)
  · exact (hfields.node "expr").bind fun _ => explained_ok _
  · exact hfields.value_bind fun _ _ => (hfields.node "expr").bind fun _ => explained_ok _
  · refine (hfields.node "test").bind fun _ => (hfields.node "branch").bind fun _ => ?_
    split
    · rename_i hlookup
      exact (hfields _ (mem_of_lookup hlookup)).2.bind fun _ => explained_ok _
    · exact explained_ok _
  · exact (hfields.nodes "statements").bind fun _ => explained_ok _
  · exact hfields.value_bind fun _ hvalue =>
      (Json.explained_toLiteral hvalue).bind fun _ => explained_ok _
  · exact hfields.value_bind fun _ _ => explained_ok _
  · exact hfields.value_bind fun _ _ => explained_ok _
  · exact (hfields.nodes "elements").bind fun _ => explained_ok _
  · exact hfields.value_bind fun _ hvalue =>
      (Json.explained_toOperator hvalue (by decide)).bind fun _ =>
        (hfields.node "operand").bind fun _ => explained_ok _
  · exact hfields.operation (by decide) .binary
  · exact hfields.operation (by decide) .logical
  · exact hfields.operation (by decide) .relational
  · rename_i hlookup
    exact explained_error (.compoundType (hfields _ (mem_of_lookup hlookup)).1)
  · rename_i hlookup
    exact explained_error (.compoundType (hfields _ (mem_of_lookup hlookup)).1)
  · rename_i hlookup
    exact explained_error (.unknownType (hfields _ (mem_of_lookup hlookup)).1)

end Fields

/-! ### Documents -/

mutual

/-- What is wrong with a document that describes no tree is about it. -/
theorem explained_ofJson : (j : Json) → Explained j (ofJson j)
  | .null => by
    rw [ofJson]
    exact explained_ok _
  | .arr items => by
    rw [ofJson]
    refine Explained.bind (fun e he => ?_) fun _ => explained_ok _
    obtain ⟨item, hmem, habout⟩ := about_of_ofJsons items e he
    exact habout.mono fun _ _ h => .item hmem h
  | .obj fields => by
    rw [ofJson]
    refine explained_ofFields (fun field hmem => ?_) _
    obtain ⟨hfield, hexplained⟩ := explained_ofJsonFields fields field hmem
    exact ⟨.here hfield, hexplained.mono fun _ _ h => .field hfield h⟩
  | .bool _ | .int _ | .float _ | .str _ => by
    rw [ofJson]
    · exact explained_error (.notNode _)
    all_goals nofun

theorem about_of_ofJsons : (items : List Json) → ∀ e, ofJsons items = .error e →
    ∃ item ∈ items, e.About item
  | [], e, he => by
    rw [ofJsons] at he
    cases he
  | item :: items, e, he => by
    rw [ofJsons] at he
    rcases bind_eq_error_iff.1 he with hitem | ⟨node, -, he⟩
    · exact ⟨item, List.mem_cons_self, explained_ofJson item e hitem⟩
    rcases bind_eq_error_iff.1 he with hitems | ⟨nodes, -, hend⟩
    · obtain ⟨found, hmem, habout⟩ := about_of_ofJsons items e hitems
      exact ⟨found, List.mem_cons_of_mem _ hmem, habout⟩
    · cases hend

theorem explained_ofJsonFields : (fields : List (Str × Json)) → ∀ field ∈ ofJsonFields fields,
    (field.1, field.2.1) ∈ fields ∧ Explained field.2.1 field.2.2
  | [] => by
    rw [ofJsonFields]
    exact List.forall_mem_nil _
  | (key, value) :: fields => by
    rw [ofJsonFields]
    refine List.forall_mem_cons.2 ⟨⟨List.mem_cons_self, explained_ofJson value⟩, fun field hmem => ?_⟩
    obtain ⟨hfield, hexplained⟩ := explained_ofJsonFields fields field hmem
    exact ⟨List.mem_cons_of_mem _ hfield, hexplained⟩

end

/-- What is wrong with a document that describes no program is about it. -/
theorem about_of_ofProgramJson {e : DocumentError} (h : ofProgramJson j = .error e) : e.About j := by
  unfold ofProgramJson at h
  split at h
  · split at h
    · rename_i body hbody
      refine explained_parts (fun e he => ?_) e h
      cases j with
      | obj fields =>
        exact (explained_ofJson body e he).mono fun _ _ hholds =>
          .field (Json.mem_of_lookup hbody) hholds
      | _ => cases hbody
    · cases h
      exact .missing "body"
  · cases h
    exact .notProgram j

end Node

end Abacus
