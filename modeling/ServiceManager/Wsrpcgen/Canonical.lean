import ServiceManager.Wsrpcgen.Enum

namespace ServiceManager.Wsrpcgen

/-- A definition whose functions are generated. -/
inductive Codec where
  | enum (e : Idl.Enumeration)
  | struct (decls : List Decl)

/-- The definitions of a unit. `meaning` is the definition whose function a name stands for
in the code of another, as the compiler looks it up. -/
structure Codecs (D : Type) where
  codec : D → Codec
  meaning : D → String → Option D

section Functions

variable (fromString : String → String)

/-- A value of an enumeration is told by the first entry of its number. -/
def deserialiseEnum (e : Idl.Enumeration) (obj : Ucl) : Option Nat :=
  (e.deserialise obj).bind fun value => e.numbered.findIdx? fun m => m.2 = value

def serialiseEnum (e : Idl.Enumeration) (entry : Nat) : Ucl :=
  (e.numbered[entry]?.bind fun m => e.serialise fromString m.2).getD .null

variable (link : Linked Value)

def Codec.deserialise (d : Codec) (obj : Ucl) : Option Value :=
  match d with
  | .enum e => (deserialiseEnum e obj).map .enum
  | .struct decls => (deserialiseStruct link decls obj).map .struct

def Codec.serialise (d : Codec) (v : Value) : Ucl :=
  match d, v with
  | .enum e, .enum entry => serialiseEnum fromString e entry
  | .struct decls, .struct members => serialiseStruct link decls members
  | _, _ => .null

end Functions

namespace Codecs

variable {D : Type} (cs : Codecs D) (fromString : String → String)

/-- The functions that the code of a definition can call, which call others to the given
depth. -/
def linked : Nat → D → Linked Value
  | 0, _ =>
    { deserialise := fun _ _ => none
      serialise := fun _ _ => .null
      impl := fun _ req => { succeeded := false, rval := .unset, req } }
  | depth + 1, d =>
    { deserialise := fun fn obj =>
        match cs.meaning d fn with
        | some d' => (cs.codec d').deserialise (linked depth d') obj
        | none => deserialiseBuiltin fn obj
      serialise := fun fn v =>
        match cs.meaning d fn with
        | some d' => (cs.codec d').serialise fromString (linked depth d') v
        | none => (serialiseBuiltin fromString fn v).getD .null
      impl := fun _ req => { succeeded := false, rval := .unset, req } }

/-- The names of a type's functions mean those of one definition, or those of a builtin
type. -/
structure Names (d : D) (t : TypeRef) : Prop where
  defined : ∀ scope, t.scope = some scope → ∃ d', cs.meaning d t.deserialiser = some d' ∧
    cs.meaning d t.eachDeserialiser = some d' ∧ cs.meaning d t.serialiser = some d'
  builtin : t.scope = none → cs.meaning d t.deserialiser = none ∧ cs.meaning d t.serialiser = none ∧
    t.type ∈ ["bool", "int", "string"]

/-- The code of the structs compiles, and means what it was generated for. -/
structure WellScoped : Prop where
  structs : ∀ d decls, cs.codec d = .struct decls → StructScoped decls
  names : ∀ d decls, cs.codec d = .struct decls → ∀ decl ∈ decls, cs.Names d decl.type

/-- The type of an element of a list. -/
def element (t : TypeRef) : TypeRef :=
  { t with list := false }

/-- The members of an object for declarations, in their order. -/
def pick (decls : List Decl) (members : List (String × Ucl)) : List (String × Ucl) :=
  decls.filterMap fun decl => members.find? fun m => m.1 = decl.id

mutual

/-- An object without the keys that its type does not declare, at any depth. -/
def strip (d : D) (t : TypeRef) : Ucl → Ucl
  | .object members =>
    if t.list then .object members
    else
      match cs.meaning d t.deserialiser with
      | none => .object members
      | some d' =>
        match cs.codec d' with
        | .enum _ => .object members
        | .struct decls => .object (pick decls (stripMembers d' decls members))
  | .array items => if t.list then .array (stripItems d t items) else .array items
  | obj => obj

def stripItems (d : D) (t : TypeRef) : List Ucl → List Ucl
  | [] => []
  | item :: items => strip d (element t) item :: stripItems d t items

def stripMembers (d : D) (decls : List Decl) : List (String × Ucl) → List (String × Ucl)
  | [] => []
  | (key, obj) :: members =>
    match decls.find? fun decl => decl.id = key with
    | none => stripMembers d decls members
    | some decl => (key, strip d decl.type obj) :: stripMembers d decls members

end

mutual

/-- What the encoders make of values, apart from keys that are not declared: lists are
arrays, integers fit 32 bits, and strings come out of the library as they are. -/
def Exact (d : D) (t : TypeRef) : Ucl → Prop
  | .boolean _ => t.list = false
  | .int n => t.list = false ∧ -2 ^ 31 ≤ n ∧ n < 2 ^ 31
  | .string s => t.list = false ∧
      match (cs.meaning d t.deserialiser).map cs.codec with
      | some (.enum e) => e.Keeps fromString s
      | _ => fromString (cStr s) = s
  | .array items => t.list = true ∧ ExactItems d t items
  | .object members => t.list = false ∧
      match cs.meaning d t.deserialiser with
      | none => False
      | some d' =>
        match cs.codec d' with
        | .enum _ => False
        | .struct decls => ExactMembers d' decls members
  | _ => False

def ExactItems (d : D) (t : TypeRef) : List Ucl → Prop
  | [] => True
  | item :: items => Exact d (element t) item ∧ ExactItems d t items

def ExactMembers (d : D) (decls : List Decl) : List (String × Ucl) → Prop
  | [] => True
  | (key, obj) :: members =>
    -- of members with the same key, the first is the one that is found
    (∀ decl ∈ decls, decl.id = key → Exact d decl.type obj) ∧
      ExactMembers d (decls.filter fun decl => decl.id ≠ key) members

end

section Members

variable {cs fromString} {d : D} {decls : List Decl} {members : List (String × Ucl)}

theorem find?_stripMembers (hids : (decls.map Decl.id).Nodup) {decl : Decl} (hdecl : decl ∈ decls) :
    ((cs.stripMembers d decls members).find? fun m => m.1 = decl.id) =
      (members.find? fun m => m.1 = decl.id).map fun m => (m.1, cs.strip d decl.type m.2) := by
  induction members with
  | nil => rw [stripMembers]; rfl
  | cons m members ih =>
    obtain ⟨key, obj⟩ := m
    rw [stripMembers]
    by_cases hkey : key = decl.id
    · subst hkey
      have hfind : (decls.find? fun decl' => decl'.id = decl.id) = some decl := find?_of_nodup hids hdecl
      simp [hfind]
    · rw [List.find?_cons_of_neg (by simpa using hkey)]
      cases decls.find? fun decl => decl.id = key with
      | none => exact ih
      | some decl' =>
        simp only
        rw [List.find?_cons_of_neg (by simpa using hkey)]
        exact ih

/-- Only the first member of a key counts. -/
theorem exactMembers_iff : cs.ExactMembers fromString d decls members ↔
    ∀ decl ∈ decls, ∀ m, (members.find? fun m => m.1 = decl.id) = some m → cs.Exact fromString d decl.type m.2 := by
  induction members generalizing decls with
  | nil => simp [ExactMembers]
  | cons m members ih =>
    obtain ⟨key, obj⟩ := m
    rw [ExactMembers, ih]
    constructor
    · intro ⟨hfirst, hrest⟩ decl hdecl m hm
      by_cases hkey : key = decl.id
      · rw [List.find?_cons_of_pos (by simpa using hkey)] at hm
        obtain rfl := Option.some_inj.mp hm
        exact hfirst decl hdecl hkey.symm
      · rw [List.find?_cons_of_neg (by simpa using hkey)] at hm
        exact hrest decl (List.mem_filter.mpr ⟨hdecl, by simpa using Ne.symm hkey⟩) m hm
    · intro h
      refine ⟨fun decl hdecl hkey => h decl hdecl (key, obj) ?_, fun decl hdecl m hm => ?_⟩
      · exact List.find?_cons_of_pos (by simpa using hkey.symm)
      · obtain ⟨hmem, hkey⟩ := List.mem_filter.mp hdecl
        refine h decl hmem m ?_
        rw [List.find?_cons_of_neg (by simpa using fun heq : key = decl.id => (of_decide_eq_true hkey) heq.symm)]
        exact hm

end Members

section Elements

variable {cs fromString} {d : D} {t : TypeRef} {obj : Ucl} {v : Value} {depth : Nat}

theorem int32_exact_iff (n : Int) : (Int32.ofInt n).toInt = n ↔ -2 ^ 31 ≤ n ∧ n < 2 ^ 31 := by
  constructor
  · intro h
    have hle := Int32.le_toInt (Int32.ofInt n)
    have hlt := Int32.toInt_lt (Int32.ofInt n)
    rw [h] at hle hlt
    exact ⟨hle, hlt⟩
  · intro ⟨hle, hlt⟩
    exact Int32.toInt_ofInt_of_le hle hlt

/-- A builtin type: what its decoder takes comes back but for wide integers and escaped
strings. -/
theorem builtin_exact_iff (hnames : cs.Names d t) (hscope : t.scope = none)
    (h : deserialiseBuiltin t.deserialiser obj = some v) :
    (serialiseBuiltin fromString t.serialiser v).getD .null = cs.strip d (element t) obj ↔
      cs.Exact fromString d (element t) obj := by
  obtain ⟨hmeaning, -, htype⟩ := hnames.builtin hscope
  obtain ⟨type, list, scope⟩ := t
  obtain rfl : scope = none := hscope
  obtain rfl | rfl | rfl : type = "bool" ∨ type = "int" ∨ type = "string" := by simpa using htype
  · obtain ⟨hser, hdeser⟩ := builtin_names "bool" list (by decide)
    rw [hdeser] at h
    rw [hser]
    cases obj with
    | boolean b =>
      obtain rfl : Value.bool b = v := Option.some_inj.mp h
      simp [strip, Exact, element, serialiseBuiltin, wsRPCSerialisebool]
    | null | int | float | string | array | object => cases h
  · obtain ⟨hser, hdeser⟩ := builtin_names "int" list (by decide)
    rw [hdeser] at h
    rw [hser]
    cases obj with
    | int n =>
      obtain rfl : Value.int (Int32.ofInt n) = v := Option.some_inj.mp h
      simpa [strip, Exact, element, serialiseBuiltin, wsRPCSerialiseint] using int32_exact_iff n
    | null | boolean | float | string | array | object => cases h
  · obtain ⟨hser, hdeser⟩ := builtin_names "string" list (by decide)
    rw [hdeser] at h
    rw [hser]
    cases obj with
    | string s =>
      obtain rfl : Value.string s = v := Option.some_inj.mp h
      have hnone : cs.meaning d (element { type := "string", list }).deserialiser = none := hmeaning
      simp [strip, Exact, hnone, serialiseBuiltin, wsRPCSerialisestring]
      simp [element]
    | null | boolean | int | float | array | object => cases h

/-- The encoder writes the string of the first entry that has the number. -/
theorem enum_exact_iff {e : Idl.Enumeration} {d' : D} (hmeaning : cs.meaning d t.deserialiser = some d')
    (henum : cs.codec d' = .enum e) (h : (Codec.enum e).deserialise (cs.linked fromString depth d') obj = some v) :
    (Codec.enum e).serialise fromString (cs.linked fromString depth d') v = cs.strip d (element t) obj ↔
      cs.Exact fromString d (element t) obj := by
  obtain ⟨entry, hentry, rfl⟩ := Option.map_eq_some_iff.mp h
  obtain ⟨value, hvalue, hindex⟩ := Option.bind_eq_some_iff.mp hentry
  cases obj with
  | string s =>
    obtain ⟨rfl, hne⟩ := Idl.Enumeration.deserialise_string.mp hvalue
    obtain ⟨told, htold, heq⟩ := Idl.Enumeration.find?_of_fromPSz hne
    have hnumber : ∃ m, e.numbered[entry]? = some m ∧ m.2 = e.fromPSz (cStr s) := by
      obtain ⟨hlt, hp, -⟩ := List.findIdx?_eq_some_iff_getElem.mp hindex
      exact ⟨e.numbered[entry], List.getElem?_eq_getElem hlt, of_decide_eq_true hp⟩
    obtain ⟨m, hm, hsnd⟩ := hnumber
    have helement : cs.meaning d (element t).deserialiser = some d' := hmeaning
    simp only [Codec.serialise, serialiseEnum, hm, Option.bind_some, hsnd, Idl.Enumeration.serialise, strip, Exact,
      helement, Option.map_some, henum]
    simp only [Idl.Enumeration.toPSz, Idl.Enumeration.Keeps, htold, heq, Option.some.injEq, exists_eq_left']
    cases e.numbered.find? fun m => m.2 = told.2 with
    | none => simp
    | some first => simp [element]
  | null | boolean | int | float | array | object => cases hvalue

/-- What the functions for an element of the type do, to a given depth. -/
def ElementExact (cs : Codecs D) (fromString : String → String) (depth : Nat) : Prop :=
  ∀ d t fn obj v, cs.Names d t → fn = t.deserialiser ∨ fn = t.eachDeserialiser →
    (cs.linked fromString depth d).deserialise fn obj = some v →
      ((cs.linked fromString depth d).serialise t.serialiser v = cs.strip d (element t) obj ↔
        cs.Exact fromString d (element t) obj)

theorem deserialiseAll_eq {link : Linked Value} {fn : String} {items : List Ucl} {vs : List Value}
    (h : deserialiseAll link fn items = (vs, true)) :
    List.Forall₂ (fun item v => link.deserialise fn item = some v) items vs := by
  induction items generalizing vs with
  | nil =>
    obtain rfl : [] = vs := congrArg Prod.fst h
    exact .nil
  | cons item items ih =>
    rw [deserialiseAll] at h
    cases hitem : link.deserialise fn item with
    | none =>
      rw [hitem] at h
      cases congrArg Prod.snd h
    | some v =>
      rw [hitem] at h
      obtain rfl : v :: (deserialiseAll link fn items).1 = vs := congrArg Prod.fst h
      have hrest : (deserialiseAll link fn items).2 = true := congrArg Prod.snd h
      exact .cons hitem (ih (Prod.ext rfl hrest))

theorem items_exact_iff (helement : ElementExact cs fromString depth) (hnames : cs.Names d t) {items : List Ucl}
    {vs : List Value} (h : List.Forall₂
      (fun item v => (cs.linked fromString depth d).deserialise t.eachDeserialiser item = some v) items vs) :
    vs.map ((cs.linked fromString depth d).serialise t.serialiser) = cs.stripItems d t items ↔
      cs.ExactItems fromString d t items := by
  induction h with
  | nil => simp [stripItems, ExactItems]
  | cons hitem _ ih =>
    rw [List.map_cons, stripItems, ExactItems, List.cons.injEq, ih, helement d t _ _ _ hnames (Or.inr rfl) hitem]

/-- The code for a member or an argument: what comes back is exact as its elements are, if
a list comes from an array. -/
theorem cell_exact_iff (helement : ElementExact cs fromString depth) (hnames : cs.Names d t) {x : Cell Value}
    (h : t.deserialiseInto (cs.linked fromString depth d) true t.fresh obj = (true, x)) :
    x.Filled ∧ (serialiseCell (cs.linked fromString depth d) t x = some (cs.strip d t obj) ↔
      cs.Exact fromString d t obj) := by
  cases hlist : t.list with
  | false =>
    have hself : element t = t := by
      obtain ⟨type, list, scope⟩ := t
      simpa [element] using hlist.symm
    simp only [TypeRef.deserialiseInto, hlist, Bool.false_eq_true, if_false] at h
    cases hvalue : (cs.linked fromString depth d).deserialise t.deserialiser obj with
    | none =>
      rw [hvalue] at h
      cases congrArg Prod.fst h
    | some v =>
      rw [hvalue] at h
      obtain rfl : Cell.value v = x := congrArg Prod.snd h
      have hexact := helement d t _ _ _ hnames (Or.inl rfl) hvalue
      rw [hself] at hexact
      exact ⟨trivial, by rw [serialiseCell, Option.some_inj]; exact hexact⟩
  | true =>
    simp only [TypeRef.deserialiseInto, TypeRef.fresh, hlist, if_true, Bool.true_and, List.nil_append] at h
    obtain rfl := congrArg Prod.snd h
    refine ⟨trivial, ?_⟩
    have hall := deserialiseAll_eq (Prod.ext rfl (congrArg Prod.fst h))
    rw [serialiseCell, Option.some_inj]
    cases obj with
    | array items =>
      have hitems : ((Ucl.array items).iterate none).map Prod.snd = items := by
        simp [Ucl.iterate, Function.comp_def]
      rw [hitems] at hall ⊢
      rw [strip, if_pos hlist, Exact, and_iff_right hlist, Ucl.array.injEq]
      exact items_exact_iff helement hnames hall
    | object members => simp [strip, Exact, hlist]
    | null | boolean | int | float | string => simp [strip, Exact, hlist]

/-- The members that a struct's decoder leaves, each with what its code was given. -/
theorem deserialiseMembers_eq {link : Linked Value} {decls : List Decl} {members : List (String × Cell Value)}
    (h : deserialiseMembers link obj true decls = some members) :
    ∃ avs : List (Decl × Cell Value), avs.map Prod.fst = decls ∧ (avs.map fun av => (av.1.id, av.2)) = members ∧
      ∀ av ∈ avs, av.1.type.deserialiseInto link true av.1.type.fresh ((obj.lookup av.1.id).getD .null) =
        (true, av.2) := by
  induction decls generalizing members with
  | nil =>
    obtain rfl : [] = members := Option.some_inj.mp h
    exact ⟨[], rfl, rfl, by simp⟩
  | cons decl decls ih =>
    rw [deserialiseMembers] at h
    cases hcode : decl.type.deserialiseInto link true decl.type.fresh ((obj.lookup decl.id).getD .null) with
    | mk suc x =>
      rw [hcode] at h
      cases suc with
      | false => cases h
      | true =>
        obtain ⟨rest, hrest, rfl⟩ := Option.map_eq_some_iff.mp h
        obtain ⟨avs, rfl, rfl, havs⟩ := ih hrest
        exact ⟨(decl, x) :: avs, rfl, rfl, List.forall_mem_cons.mpr ⟨hcode, havs⟩⟩

/-- A struct comes back as it was exactly if each of its members does. -/
theorem struct_exact_iff (hscoped : cs.WellScoped) (helement : ElementExact cs fromString depth)
    {decls : List Decl} {d' : D}
    (hmeaning : cs.meaning d t.deserialiser = some d') (hstruct : cs.codec d' = .struct decls)
    (h : (Codec.struct decls).deserialise (cs.linked fromString depth d') obj = some v) :
    (Codec.struct decls).serialise fromString (cs.linked fromString depth d') v = cs.strip d (element t) obj ↔
      cs.Exact fromString d (element t) obj := by
  obtain ⟨members, hmembers, rfl⟩ := Option.map_eq_some_iff.mp h
  cases obj with
  | object ms =>
    rw [deserialiseStruct] at hmembers
    split at hmembers
    next hall =>
      obtain ⟨avs, rfl, rfl, havs⟩ := deserialiseMembers_eq hmembers
      have hstructScoped := hscoped.structs d' _ hstruct
      have hcells : ∀ av ∈ avs, av.2.Filled ∧
          (serialiseCell (cs.linked fromString depth d') av.1.type av.2 =
              some (cs.strip d' av.1.type (((Ucl.object ms).lookup av.1.id).getD .null)) ↔
            cs.Exact fromString d' av.1.type (((Ucl.object ms).lookup av.1.id).getD .null)) :=
        fun av hav => cell_exact_iff helement (hscoped.names d' _ hstruct av.1 (List.mem_map_of_mem hav)) (havs av hav)
      have hids : ((avs.map Prod.fst).map Decl.id).Nodup :=
        (List.nodup_append.mp (List.nodup_cons.mp hstructScoped.serialise).2).1
      have hfound : ∀ av ∈ avs, ∃ m, (ms.find? fun m => m.1 = av.1.id) = some m := by
        intro av hav
        have hsome := List.all_eq_true.mp hall av.1 (List.mem_map_of_mem hav)
        rw [Ucl.lookup, Option.isSome_map] at hsome
        exact Option.isSome_iff_exists.mp hsome
      have hpick : pick (avs.map Prod.fst) (cs.stripMembers d' (avs.map Prod.fst) ms) =
          avs.map fun av => (av.1.id, cs.strip d' av.1.type (((Ucl.object ms).lookup av.1.id).getD .null)) := by
        rw [pick, List.filterMap_map]
        refine (List.filterMap_congr fun av hav => ?_).trans (congrFun List.filterMap_eq_map avs)
        obtain ⟨m, hm⟩ := hfound av hav
        have hkey : m.1 = av.1.id := by simpa using List.find?_some hm
        simp [find?_stripMembers hids (List.mem_map_of_mem hav), Ucl.lookup, hm, hkey]
      have hself : cs.meaning d (element t).deserialiser = some d' := hmeaning
      have hlist : (element t).list = false := rfl
      rw [Codec.serialise, serialiseStruct_eq hstructScoped fun av hav => (hcells av hav).1]
      simp only [strip, Exact, hlist, hself, hstruct, Bool.false_eq_true, if_false, hpick, Ucl.object.injEq, true_and]
      rw [exactMembers_iff, List.map_inj_left, List.forall_mem_map]
      refine forall₂_congr fun av hav => ?_
      obtain ⟨hfilled, hexact⟩ := hcells av hav
      obtain ⟨m, hm⟩ := hfound av hav
      rw [serialiseCell_encoded hfilled, Option.some_inj, Ucl.lookup, hm, Option.map_some, Option.getD_some] at hexact
      rw [Ucl.lookup, hm, Option.map_some, Option.getD_some, Prod.mk.injEq, and_iff_right rfl, hexact]
      simp
    next => cases hmembers
  | null | boolean | int | float | string | array => cases hmembers

/-- The induction is on the depth of calls. -/
theorem elementExact (hscoped : cs.WellScoped) (depth : Nat) : ElementExact cs fromString depth := by
  induction depth with
  | zero =>
    intro d t fn obj v _ _ h
    cases h
  | succ depth ih =>
    intro d t fn obj v hnames hfn h
    cases hscope : t.scope with
    | none =>
      have heach : t.eachDeserialiser = t.deserialiser := by simp [TypeRef.eachDeserialiser, hscope]
      obtain rfl : fn = t.deserialiser := hfn.elim id fun hfn => hfn.trans heach
      obtain ⟨hdeserialiser, hserialiser, -⟩ := hnames.builtin hscope
      simp only [linked, hdeserialiser] at h
      simp only [linked, hserialiser]
      exact builtin_exact_iff hnames hscope h
    | some scope =>
      obtain ⟨d', hdeserialiser, heach, hserialiser⟩ := hnames.defined scope hscope
      have hmeaning : cs.meaning d fn = some d' := by
        rcases hfn with rfl | rfl
        · exact hdeserialiser
        · exact heach
      simp only [linked, hmeaning] at h
      simp only [linked, hserialiser]
      cases hcodec : cs.codec d' with
      | enum e =>
        rw [hcodec] at h
        exact enum_exact_iff hdeserialiser hcodec h
      | struct decls =>
        rw [hcodec] at h
        exact struct_exact_iff hscoped ih hdeserialiser hcodec h

end Elements

/-- What a decoder takes comes back from the encoder, but for keys that are not declared,
exactly if lists were arrays, integers fit 32 bits, and the library keeps the strings. -/
theorem serialise_deserialise_iff {D : Type} (cs : Codecs D) (fromString : String → String) (hscoped : cs.WellScoped)
    {d : D} {t : TypeRef} (hnames : cs.Names d t) (depth : Nat) {obj : Ucl} {x : Cell Value}
    (h : t.deserialiseInto (cs.linked fromString depth d) true t.fresh obj = (true, x)) :
    serialiseCell (cs.linked fromString depth d) t x = some (cs.strip d t obj) ↔ cs.Exact fromString d t obj :=
  (cell_exact_iff (elementExact hscoped depth) hnames h).2

/-- A struct with a string and a list of integers. -/
def serviceDecls : List Decl :=
  [{ type := { type := "string" }, id := "name" }, { type := { type := "int", list := true }, id := "ports" }]

def serviceCodecs : Codecs Unit where
  codec _ := .struct serviceDecls
  meaning _ fn := if fn = "Service::deserialise" ∨ fn = "Service::serialise" then some () else none

theorem string_names :
    TypeRef.deserialiser { type := "string" } = "wsRPCDeserialisestring" ∧
      TypeRef.serialiser { type := "string" } = "wsRPCSerialisestring" := by
  obtain ⟨hser, hdeser⟩ := builtin_names "string" false (by decide)
  exact ⟨hdeser.trans (by decide), hser.trans (by decide)⟩

theorem int_names (list : Bool) :
    TypeRef.deserialiser { type := "int", list } = "wsRPCDeserialiseint" ∧
      TypeRef.serialiser { type := "int", list } = "wsRPCSerialiseint" := by
  obtain ⟨hser, hdeser⟩ := builtin_names "int" list (by decide)
  exact ⟨hdeser.trans (by decide), hser.trans (by decide)⟩

theorem int_codecs_names (list : Bool) : serviceCodecs.Names () { type := "int", list } where
  defined := fun _ hscope => by cases hscope
  builtin := fun _ => by simp [int_names, serviceCodecs]

theorem serviceCodecs_wellScoped : serviceCodecs.WellScoped where
  structs := by
    intro d decls hdecls
    obtain rfl : serviceDecls = decls := by simpa [serviceCodecs] using hdecls
    exact ⟨by decide, by decide⟩
  names := by
    intro d decls hdecls decl hdecl
    obtain rfl : serviceDecls = decls := by simpa [serviceCodecs] using hdecls
    obtain rfl | rfl := List.mem_pair.mp hdecl
    · exact ⟨fun scope hscope => (by cases hscope), fun _ => by simp [string_names, serviceCodecs]⟩
    · exact int_codecs_names true

def serviceType : TypeRef :=
  { type := "Service", scope := some "Service::" }

theorem serviceType_names : serviceCodecs.Names () serviceType where
  defined := fun _ _ => ⟨(), by decide⟩
  builtin := fun hscope => by cases hscope

/-- An object with a key too many. -/
def sshdObject : Ucl :=
  .object [("ports", .array [.int 22, .int 2222]), ("comment", .null), ("name", .string "sshd")]

theorem serialise_deserialise_sshd : ∃ x,
    serviceType.deserialiseInto (serviceCodecs.linked jsonEscape 2 ()) true serviceType.fresh sshdObject = (true, x) ∧
    serialiseCell (serviceCodecs.linked jsonEscape 2 ()) serviceType x =
      some (.object [("name", .string "sshd"), ("ports", .array [.int 22, .int 2222])]) := by
  have hservice : serviceType.deserialiser = "Service::deserialise" := by decide
  have heach : TypeRef.eachDeserialiser { type := "int", list := true } = "wsRPCDeserialiseint" := (int_names true).1
  have hdecoded : serviceType.deserialiseInto (serviceCodecs.linked jsonEscape 2 ()) true serviceType.fresh sshdObject =
      (true, .value (.struct [("name", .value (.string "sshd")), ("ports", .values [.int 22, .int 2222])])) := by
    have hlist : serviceType.list = false := rfl
    simp [TypeRef.deserialiseInto, hlist, hservice, linked, serviceCodecs, Codec.deserialise,
      deserialiseStruct, serviceDecls, sshdObject, Ucl.lookup, deserialiseMembers, string_names, heach, TypeRef.fresh,
      Ucl.iterate, deserialiseAll, deserialiseBuiltin, wsRPCDeserialisestring, wsRPCDeserialiseint]
  have hexact : serviceCodecs.Exact jsonEscape () serviceType sshdObject := by
    have hkept : jsonEscape (cStr "sshd") = "sshd" := by decide
    have hlist : serviceType.list = false := rfl
    simp [Exact, sshdObject, hlist, hservice, serviceCodecs, ExactMembers, serviceDecls, ExactItems, element, hkept]
  have hstrip : serviceCodecs.strip () serviceType sshdObject =
      .object [("name", .string "sshd"), ("ports", .array [.int 22, .int 2222])] := by
    have hlist : serviceType.list = false := rfl
    simp [strip, sshdObject, hlist, hservice, serviceCodecs, stripMembers, serviceDecls, stripItems, pick]
  rw [← hstrip]
  exact ⟨_, hdecoded,
    (serialise_deserialise_iff serviceCodecs jsonEscape serviceCodecs_wellScoped serviceType_names 2
      hdecoded).mpr hexact⟩

/-- An integer of 33 bits is taken, and comes back as another. -/
theorem serialise_deserialise_wide : serviceCodecs.WellScoped ∧ serviceCodecs.Names () { type := "int" } ∧
    TypeRef.deserialiseInto (serviceCodecs.linked jsonEscape 1 ()) { type := "int" } true .unset (.int 4294967297) =
      (true, .value (.int 1)) ∧
    serialiseCell (serviceCodecs.linked jsonEscape 1 ()) { type := "int" } (.value (.int 1)) = some (.int 1) ∧
    serviceCodecs.strip () { type := "int" } (.int 4294967297) = .int 4294967297 := by
  refine ⟨serviceCodecs_wellScoped, int_codecs_names false, ?_, ?_, by simp [strip]⟩
  · have hwraps : Int32.ofInt 4294967297 = 1 := by decide
    simp [TypeRef.deserialiseInto, int_names, linked, serviceCodecs, deserialiseBuiltin, wsRPCDeserialiseint, hwraps]
  · simp [serialiseCell, int_names, linked, serviceCodecs, serialiseBuiltin, wsRPCSerialiseint]

end Codecs

end ServiceManager.Wsrpcgen
