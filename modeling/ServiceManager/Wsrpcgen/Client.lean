import ServiceManager.Wsrpcgen.Stubs

namespace ServiceManager.Wsrpcgen

open Wsrpc

/-- A statement of the code that makes an object of the values of some declarations. -/
inductive CallStmt where
  /-- `ucl_object_t * id;` -/
  | declareObj (id : String)
  /-- `out = ..(&in);`, or a loop that appends to `out` -/
  | serialiseInto (type : TypeRef) (uIn out : String)
  /-- `ucl_object_insert_key(params, obj, "key", 0, false);` -/
  | insertKey (obj key : String)

/-- The code for the members of a struct, and for the arguments of a call. -/
def genSerialiseDecls (decls : List Decl) : List CallStmt :=
  decls.map (fun decl => .declareObj ("u" ++ decl.id)) ++
    (decls.map (fun decl => .serialiseInto decl.type decl.id ("u" ++ decl.id)) ++
      decls.map fun decl => .insertKey ("u" ++ decl.id) decl.id)

/-- What the synchronous and the asynchronous call of a method have in common. -/
def Method.genClientCallCommonPartImpl (m : Method) : List CallStmt :=
  genSerialiseDecls m.args

/-- The variables that the code sees, and the members of the object it makes. -/
structure CallFrame (V : Type) where
  vars : String → Option (Cell V)
  params : List (String × Ucl) := []

section Run

variable {V : Type} (link : Linked V)

namespace CallFrame

variable (f : CallFrame V)

def set (name : String) (cell : Cell V) : CallFrame V :=
  { f with vars := fun x => if x = name then some cell else f.vars x }

def obj (name : String) : Option Ucl :=
  match f.vars name with
  | some (.obj o) => some o
  | _ => none

end CallFrame

def CallStmt.exec (f : CallFrame V) : CallStmt → CallFrame V
  | .declareObj id => f.set id .unset
  | .serialiseInto type uIn out =>
    match (f.vars uIn).bind (serialiseCell link type) with
    | some o => f.set out (.obj o)
    | none => f
  | .insertKey obj key =>
    match f.obj obj with
    | some o => { f with params := f.params ++ [(key, o)] }
    | none => f

namespace Method

variable (m : Method)

/-- The parameters of the generated function with the values they are called with. -/
def callFrame (values : List (Cell V)) : CallFrame V where
  vars name := ((m.args.zip values).find? fun av => av.1.id = name).map Prod.snd

/-- The request that the generated call sends. -/
def clientRequest (ver : Nat) (id : Int32) (values : List (Cell V)) : Req where
  id
  methodName := m.implFunName ver
  params := some (.object (m.genClientCallCommonPartImpl.foldl (CallStmt.exec link) (m.callFrame values)).params)

/-- Each name is declared once in the block of the generated call, the parameters of the
function included; and so in that of the asynchronous one. -/
def ClientScoped : Prop :=
  (["xprt", "werr", "comp", "params"] ++ (if m.retType.isVoid then [] else ["rval"]) ++
    (m.args.map Decl.id ++ m.args.map fun arg => "u" ++ arg.id)).Nodup ∧
  (["xprt", "delegate", "comp", "params"] ++
    (m.args.map Decl.id ++ m.args.map fun arg => "u" ++ arg.id)).Nodup

instance : Decidable m.ClientScoped :=
  inferInstanceAs (Decidable (_ ∧ _))

end Method

end Run

/-- A value of the type that comes back from its encoder through its decoder. -/
def TypeRef.Inverse {V : Type} (link : Linked V) (t : TypeRef) : Cell V → Prop
  | .value v => t.list = false ∧ link.deserialise t.deserialiser (link.serialise t.serialiser v) = some v
  | .values vs => t.list = true ∧
      ∀ v ∈ vs, link.deserialise t.eachDeserialiser (link.serialise t.serialiser v) = some v
  | _ => False

section Params

variable {V : Type} {link : Linked V} {f : CallFrame V} {avs : List (Decl × Cell V)}

/-- An argument as it is sent. -/
def encoded (link : Linked V) (av : Decl × Cell V) : Ucl :=
  (serialiseCell link av.1.type av.2).getD .null

/-- The cell holds a value, or a list of them. -/
def Cell.Filled : Cell V → Prop
  | .value _ => True
  | .values _ => True
  | _ => False

theorem TypeRef.Inverse.filled {t : TypeRef} {x : Cell V} (h : t.Inverse link x) : x.Filled := by
  cases x with
  | value v => trivial
  | values vs => trivial
  | unset | obj | flag => exact h.elim

theorem serialiseCell_encoded {av : Decl × Cell V} (h : av.2.Filled) :
    serialiseCell link av.1.type av.2 = some (encoded link av) := by
  obtain ⟨arg, x⟩ := av
  cases x with
  | value v => rfl
  | values vs => rfl
  | unset | obj | flag => exact h.elim

theorem CallFrame.vars_set_of_ne {name x : String} (hne : x ≠ name) (cell : Cell V) :
    (f.set name cell).vars x = f.vars x :=
  if_neg hne

theorem CallFrame.obj_set_of_ne {name x : String} (hne : x ≠ name) (cell : Cell V) :
    (f.set name cell).obj x = f.obj x := by
  simp only [obj, vars_set_of_ne hne]

/-- The declarations leave the parameters of the function alone. -/
theorem exec_declareObj {x : String} (args : List Decl) (hx : ∀ arg ∈ args, x ≠ "u" ++ arg.id) :
    ((args.map fun arg => .declareObj ("u" ++ arg.id)).foldl (CallStmt.exec link) f).vars x = f.vars x := by
  induction args generalizing f with
  | nil => rfl
  | cons arg args ih =>
    obtain ⟨hne, hx⟩ := List.forall_mem_cons.mp hx
    exact (ih hx).trans (CallFrame.vars_set_of_ne hne _)

theorem exec_declareObj_params (args : List Decl) :
    ((args.map fun arg => .declareObj ("u" ++ arg.id)).foldl (CallStmt.exec link) f).params = f.params := by
  induction args generalizing f with
  | nil => rfl
  | cons arg args ih => exact ih

theorem exec_serialiseInto_one {av : Decl × Cell V} (hvar : f.vars av.1.id = some av.2)
    (hfilled : av.2.Filled) :
    CallStmt.exec link f (.serialiseInto av.1.type av.1.id ("u" ++ av.1.id)) =
      f.set ("u" ++ av.1.id) (.obj (encoded link av)) := by
  simp only [CallStmt.exec, hvar, Option.bind_some, serialiseCell_encoded hfilled]

/-- After the second loop each argument stands encoded in its variable. -/
theorem exec_serialiseInto (hvars : ∀ av ∈ avs, f.vars av.1.id = some av.2)
    (hfilled : ∀ av ∈ avs, av.2.Filled) (hnodup : (avs.map fun av => "u" ++ av.1.id).Nodup)
    (hapart : ∀ av ∈ avs, ∀ av' ∈ avs, av.1.id ≠ "u" ++ av'.1.id) :
    ∀ f', f' = (avs.map fun av => .serialiseInto av.1.type av.1.id ("u" ++ av.1.id)).foldl (CallStmt.exec link) f →
      f'.params = f.params ∧ (∀ av ∈ avs, f'.obj ("u" ++ av.1.id) = some (encoded link av)) ∧
        ∀ x, (∀ av ∈ avs, x ≠ "u" ++ av.1.id) → f'.obj x = f.obj x := by
  induction avs generalizing f with
  | nil =>
    rintro _ rfl
    exact ⟨rfl, by simp, fun _ _ => rfl⟩
  | cons av avs ih =>
    rintro _ rfl
    obtain ⟨hvar, hvars⟩ := List.forall_mem_cons.mp hvars
    obtain ⟨hfill, hfilled⟩ := List.forall_mem_cons.mp hfilled
    obtain ⟨hnew, hnodup⟩ := List.nodup_cons.mp hnodup
    rw [List.map_cons, List.foldl_cons, exec_serialiseInto_one hvar hfill]
    have hvars' : ∀ av' ∈ avs, (f.set ("u" ++ av.1.id) (.obj (encoded link av))).vars av'.1.id = some av'.2 := by
      intro av' hav'
      rw [CallFrame.vars_set_of_ne (hapart av' (List.mem_cons_of_mem _ hav') av List.mem_cons_self)]
      exact hvars av' hav'
    obtain ⟨hparams, hobj, hrest⟩ := ih hvars' hfilled hnodup
      (fun a ha b hb => hapart a (List.mem_cons_of_mem _ ha) b (List.mem_cons_of_mem _ hb)) _ rfl
    refine ⟨hparams, List.forall_mem_cons.mpr ⟨?_, hobj⟩, fun x hx => ?_⟩
    · rw [hrest]
      · simp [CallFrame.obj, CallFrame.set]
      · intro av' hav' heq
        exact hnew (List.mem_map.mpr ⟨av', hav', heq.symm⟩)
    · obtain ⟨hne, hx⟩ := List.forall_mem_cons.mp hx
      rw [hrest x hx, CallFrame.obj_set_of_ne hne]

/-- After the third the parameters have a member for each argument. -/
theorem exec_insertKey (hobj : ∀ av ∈ avs, f.obj ("u" ++ av.1.id) = some (encoded link av)) :
    ((avs.map fun av => .insertKey ("u" ++ av.1.id) av.1.id).foldl (CallStmt.exec link) f).params =
      f.params ++ avs.map fun av => (av.1.id, encoded link av) := by
  induction avs generalizing f with
  | nil => simp
  | cons av avs ih =>
    obtain ⟨hav, hobj⟩ := List.forall_mem_cons.mp hobj
    have hexec : CallStmt.exec link f (.insertKey ("u" ++ av.1.id) av.1.id) =
        { f with params := f.params ++ [(av.1.id, encoded link av)] } := by
      simp only [CallStmt.exec, hav]
    have hrest := ih (f := { f with params := f.params ++ [(av.1.id, encoded link av)] }) hobj
    rw [List.map_cons, List.foldl_cons, hexec, hrest]
    simp

/-- The object has a member for each declaration, if the names of the variables are told
from each other. -/
theorem exec_genSerialiseDecls (link : Linked V) (hparams : f.params = [])
    (hvars : ∀ av ∈ avs, f.vars av.1.id = some av.2)
    (hfilled : ∀ av ∈ avs, av.2.Filled) (hnodup : (avs.map fun av => "u" ++ av.1.id).Nodup)
    (hapart : ∀ av ∈ avs, ∀ av' ∈ avs, av.1.id ≠ "u" ++ av'.1.id) :
    ((genSerialiseDecls (avs.map Prod.fst)).foldl (CallStmt.exec link) f).params =
      avs.map fun av => (av.1.id, encoded link av) := by
  let declared := ((avs.map Prod.fst).map fun decl => CallStmt.declareObj ("u" ++ decl.id)).foldl (CallStmt.exec link) f
  have hvars' : ∀ av ∈ avs, declared.vars av.1.id = some av.2 := by
    intro av hav
    have hdecl : ∀ decl ∈ avs.map Prod.fst, av.1.id ≠ "u" ++ decl.id := by
      intro decl hmem
      obtain ⟨av', hav', rfl⟩ := List.mem_map.mp hmem
      exact hapart av hav av' hav'
    rw [exec_declareObj _ hdecl]
    exact hvars av hav
  have hdeclared : declared.params = [] := (exec_declareObj_params _).trans hparams
  obtain ⟨hsame, hobj, _⟩ := exec_serialiseInto hvars' hfilled hnodup hapart _ rfl
  have hinsert := exec_insertKey hobj
  rw [hsame, hdeclared, List.nil_append] at hinsert
  rw [← hinsert]
  simp only [genSerialiseDecls, List.foldl_append, List.map_map, Function.comp_def, declared]

/-- The names of a well-scoped call: arguments are told from each other, and from the
variables of their encoded values. -/
theorem Method.ClientScoped.names {m : Method} (h : m.ClientScoped) :
    (m.args.map Decl.id).Nodup ∧ (m.args.map fun arg => "u" ++ arg.id).Nodup ∧
      ∀ arg ∈ m.args, ∀ arg' ∈ m.args, arg.id ≠ "u" ++ arg'.id := by
  have hnames := (List.nodup_append.mp h.1).2.1
  obtain ⟨hids, huids, hapart⟩ := List.nodup_append.mp hnames
  exact ⟨hids, huids, fun arg harg arg' harg' => hapart _ (List.mem_map_of_mem harg) _ (List.mem_map_of_mem harg')⟩

/-- In a list without doubles, the first that has a key is the one that has it. -/
theorem find?_of_nodup {α β : Type} [DecidableEq β] {key : α → β} {l : List α} (hnodup : (l.map key).Nodup) {a : α}
    (ha : a ∈ l) : (l.find? fun b => key b = key a) = some a := by
  induction l with
  | nil => simp at ha
  | cons b l ih =>
    obtain ⟨hnew, hnodup⟩ := List.nodup_cons.mp hnodup
    rcases List.mem_cons.mp ha with rfl | ha
    · simp
    · have hne : key b ≠ key a := fun heq => hnew (List.mem_map.mpr ⟨a, ha, heq.symm⟩)
      rw [List.find?_cons_of_neg (by simpa using hne)]
      exact ih hnodup ha

theorem find?_map_of_nodup {β : Type} (g : Decl × Cell V → β) {avs : List (Decl × Cell V)}
    (hnodup : (avs.map fun av => av.1.id).Nodup) {av : Decl × Cell V} (hav : av ∈ avs) :
    ((avs.map fun av => (av.1.id, g av)).find? fun m => m.1 = av.1.id).map Prod.snd = some (g av) := by
  have hfind : (avs.find? fun av' => av'.1.id = av.1.id) = some av := find?_of_nodup hnodup hav
  simp only [List.find?_map, Function.comp_def, hfind, Option.map_some]

/-- The request of a call has its arguments, each encoded under its name. -/
theorem clientRequest_params {m : Method} (ver : Nat) (id : Int32) (hscoped : m.ClientScoped)
    (hargs : m.args = avs.map Prod.fst) (hinverse : ∀ av ∈ avs, av.1.type.Inverse link av.2) :
    (m.clientRequest link ver id (avs.map Prod.snd)).params =
      some (.object (avs.map fun av => (av.1.id, encoded link av))) := by
  obtain ⟨hids, huids, hapart⟩ := hscoped.names
  have hzip : m.args.zip (avs.map Prod.snd) = avs := by
    rw [hargs, List.zip_map', List.map_id']
  rw [hargs, List.map_map] at hids huids
  have hvars : ∀ av ∈ avs, (m.callFrame (avs.map Prod.snd)).vars av.1.id = some av.2 := by
    intro av hav
    have hfind : (avs.find? fun av' => av'.1.id = av.1.id) = some av := find?_of_nodup hids hav
    simp only [Method.callFrame, hzip, hfind, Option.map_some]
  have hparams := exec_genSerialiseDecls link (f := m.callFrame (avs.map Prod.snd)) rfl hvars
    (fun av hav => (hinverse av hav).filled) huids (fun av hav av' hav' => ?_)
  · rw [← hparams, ← hargs]
    rfl
  · refine hapart av.1 ?_ av'.1 ?_ <;> rw [hargs] <;> exact List.mem_map_of_mem ‹_›

end Params

end ServiceManager.Wsrpcgen
