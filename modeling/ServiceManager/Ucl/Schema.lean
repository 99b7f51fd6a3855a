import ServiceManager.Ucl

namespace ServiceManager.Ucl

/-- The types that a schema can ask for. -/
inductive Kind where
  | object
  | array
  | string
deriving DecidableEq

def Kind.Of : Kind → Ucl → Prop
  | .object, .object _ => True
  | .array, .array _ => True
  | .string, .string _ => True
  | _, _ => False

theorem Kind.of_object_iff {v : Ucl} : Kind.object.Of v ↔ ∃ members, v = .object members := by
  cases v <;> simp [Kind.Of]

theorem Kind.of_array_iff {v : Ucl} : Kind.array.Of v ↔ ∃ xs, v = .array xs := by
  cases v <;> simp [Kind.Of]

theorem Kind.of_string_iff {v : Ucl} : Kind.string.Of v ↔ ∃ s, v = .string s := by
  cases v <;> simp [Kind.Of]

mutual

/-- A JSON schema of draft 4. What stands beside a reference is ignored. -/
inductive Schema where
  | ref (definition : String)
  | node (keywords : List Keyword)
  /-- The `false` of `additionalProperties`. -/
  | never

inductive Keyword where
  | type (kind : Kind)
  | required (names : List String)
  /-- `properties` with `additionalProperties`, which is for the members they do not name. -/
  | members (properties : List (String × Schema)) (additional : Schema)
  | items (schema : Schema)
  | additionalItems (schema : Schema)
  | anyOf (schemas : List Schema)

end

section Validation

variable (definitions : String → Option Schema)

mutual

/-- A value is accepted. A keyword says nothing about values of other types than its own. -/
inductive Schema.Valid : Schema → Ucl → Prop
  | ref {name schema v} : definitions name = some schema → Schema.Valid schema v → Schema.Valid (.ref name) v
  | node {keywords v} : (∀ keyword ∈ keywords, Keyword.Holds keyword v) → Schema.Valid (.node keywords) v

inductive Keyword.Holds : Keyword → Ucl → Prop
  | type {kind v} : kind.Of v → Keyword.Holds (.type kind) v
  | required {names v} : (∀ members, v = .object members → ∀ name ∈ names, ∃ m ∈ members, m.1 = name) →
      Keyword.Holds (.required names) v
  | members {properties additional v} :
      (∀ members, v = .object members → ∀ m ∈ members, ∀ schema, (m.1, schema) ∈ properties → Schema.Valid schema m.2) →
      (∀ members, v = .object members → ∀ m ∈ members, m.1 ∉ properties.map Prod.fst → Schema.Valid additional m.2) →
      Keyword.Holds (.members properties additional) v
  | items {schema v} : (∀ xs, v = .array xs → ∀ x ∈ xs, Schema.Valid schema x) → Keyword.Holds (.items schema) v
  /-- It is for what comes after an array of `items`, which no schema here has. -/
  | additionalItems {schema v} : Keyword.Holds (.additionalItems schema) v
  | anyOf {schemas schema v} : schema ∈ schemas → Schema.Valid schema v → Keyword.Holds (.anyOf schemas) v

end

variable {definitions} {v : Ucl}

theorem valid_ref_iff {name : String} {schema : Schema} (h : definitions name = some schema) :
    Schema.Valid definitions (.ref name) v ↔ Schema.Valid definitions schema v := by
  constructor
  · intro hvalid
    cases hvalid with
    | ref hfound hvalid =>
      rw [h] at hfound
      obtain rfl := Option.some_inj.mp hfound
      exact hvalid
  · exact fun hvalid => .ref h hvalid

@[simp]
theorem valid_node_iff {keywords : List Keyword} :
    Schema.Valid definitions (.node keywords) v ↔ ∀ keyword ∈ keywords, Keyword.Holds definitions keyword v := by
  constructor
  · intro hvalid
    cases hvalid with
    | node hall => exact hall
  · exact .node

@[simp]
theorem not_valid_never : ¬Schema.Valid definitions .never v := by
  intro hvalid
  cases hvalid

@[simp]
theorem holds_type_iff {kind : Kind} : Keyword.Holds definitions (.type kind) v ↔ kind.Of v := by
  constructor
  · intro hholds
    cases hholds with
    | type hkind => exact hkind
  · exact .type

@[simp]
theorem holds_anyOf_iff {schemas : List Schema} :
    Keyword.Holds definitions (.anyOf schemas) v ↔ ∃ schema ∈ schemas, Schema.Valid definitions schema v := by
  constructor
  · intro hholds
    cases hholds with
    | anyOf hmem hvalid => exact ⟨_, hmem, hvalid⟩
  · intro ⟨_, hmem, hvalid⟩
    exact .anyOf hmem hvalid

theorem holds_required_iff {names : List String} {members : List (String × Ucl)} :
    Keyword.Holds definitions (.required names) (.object members) ↔ ∀ name ∈ names, ∃ m ∈ members, m.1 = name := by
  constructor
  · intro hholds
    cases hholds with
    | required hall => exact hall members rfl
  · intro hall
    refine .required fun _ heq => ?_
    obtain rfl := Ucl.object.inj heq
    exact hall

theorem holds_members_iff {properties : List (String × Schema)} {additional : Schema} {members : List (String × Ucl)} :
    Keyword.Holds definitions (.members properties additional) (.object members) ↔
      ∀ m ∈ members, (∀ schema, (m.1, schema) ∈ properties → Schema.Valid definitions schema m.2) ∧
        (m.1 ∉ properties.map Prod.fst → Schema.Valid definitions additional m.2) := by
  constructor
  · intro hholds m hm
    cases hholds with
    | members hnamed hothers => exact ⟨hnamed members rfl m hm, hothers members rfl m hm⟩
  · intro hall
    refine .members (fun _ heq => ?_) fun _ heq => ?_
    · obtain rfl := Ucl.object.inj heq
      exact fun m hm => (hall m hm).1
    · obtain rfl := Ucl.object.inj heq
      exact fun m hm => (hall m hm).2

theorem holds_items_iff {schema : Schema} {xs : List Ucl} :
    Keyword.Holds definitions (.items schema) (.array xs) ↔ ∀ x ∈ xs, Schema.Valid definitions schema x := by
  constructor
  · intro hholds
    cases hholds with
    | items hall => exact hall xs rfl
  · intro hall
    refine .items fun _ heq => ?_
    obtain rfl := Ucl.array.inj heq
    exact hall

end Validation

end ServiceManager.Ucl
