import Mathlib.Data.List.Forall2
import ServiceManager.Wsrpcgen.Borrow
import ServiceManager.Wsrpcgen.Client

namespace ServiceManager.Wsrpcgen

open Wsrpc

namespace Stmt

/-- The names that a statement declares in the block of its case. -/
def declares : Stmt → List String
  | .declareObj id => [id]
  | .declare _ id => [id]
  | .deserialiseEach .. => ["it", "uEl"]
  | _ => []

/-- The flags that a statement sets or tests. -/
def flags : Stmt → List String
  | .deserialise suc .. => [suc]
  | .deserialiseEach suc .. => [suc]
  | .check suc => [suc]
  | .callImpl suc .. => [suc]
  | .serialise suc .. => [suc]
  | _ => []

/-- What a loop appends its elements to. -/
def appendsTo : Stmt → List String
  | .deserialiseEach _ _ _ out => [out]
  | _ => []

end Stmt

/-- The names of a case are each declared once and hide none that its own code uses, and
its flags are declared. The element of a loop is called `outEl` in it. -/
structure CaseScoped (body : List Stmt) : Prop where
  nodup : (body.flatMap Stmt.declares).Nodup
  apart : ∀ name ∈ ["req", "vt", "succeeded"], name ∉ body.flatMap Stmt.declares
  flags : ∀ name ∈ body.flatMap Stmt.flags, name = "succeeded" ∨ name ∈ body.flatMap Stmt.declares
  element : "outEl" ∉ body.flatMap Stmt.appendsTo

/-- The code generated for the program is well-scoped, on both sides, and finds what it takes
from the header. -/
def Program.Compiles (header : Header) (p : Program) : Prop :=
  ∀ v ∈ p.versions, ∀ m ∈ v.methods, m.ClientScoped ∧ CaseScoped (m.genBody v.num) ∧ m.Supplied header

namespace Method

variable (m : Method)

/-- The variables of the method's case. -/
def caseNames : List String :=
  (m.args.flatMap fun arg => [arg.id ++ "_obj", arg.id]) ++ if m.retType.isVoid then [] else ["rval"]

/-- The method's arguments as its case can have them: distinct from each other and from
the names that the generated code uses, and at most one of them a list, whose elements
are of a type that the IDL defines. -/
structure ServerScoped : Prop where
  nodup : m.caseNames.Nodup
  apart : ∀ name ∈ ["req", "vt", "succeeded"], name ∉ m.caseNames
  lists : (m.args.filter fun arg => arg.type.list).length ≤ 1
  loop : (∃ arg ∈ m.args, arg.type.list = true) → "it" ∉ m.caseNames ∧ "uEl" ∉ m.caseNames
  defined : ∀ arg ∈ m.args, arg.type.list = true → arg.type.scope = none → "suc" ∈ m.caseNames
  element : ∀ arg ∈ m.args, arg.type.list = true → arg.id ≠ "outEl"

end Method

section Scoped

variable {m : Method}

theorem declares_genArgument (arg : Decl) :
    (Method.genArgument arg).flatMap Stmt.declares = if arg.type.list then ["it", "uEl"] else [] := by
  unfold Method.genArgument TypeRef.genDeserialiseInto
  split
  · cases arg.type.scope <;> rfl
  · rfl

theorem declares_genBody (m : Method) (ver : Nat) :
    (m.genBody ver).flatMap Stmt.declares =
      m.caseNames ++ m.args.flatMap fun arg => if arg.type.list then ["it", "uEl"] else [] := by
  have hcall : (m.genCall ver ++ [Stmt.gotoEnd]).flatMap Stmt.declares = [] := by
    unfold Method.genCall
    split <;> rfl
  have hdeclarations : m.genDeclarations.flatMap Stmt.declares = m.caseNames := by
    unfold Method.genDeclarations Method.caseNames
    rw [List.flatMap_append, List.flatMap_assoc]
    congr 1
    split <;> rfl
  rw [Method.genBody, List.flatMap_append, List.flatMap_append, hcall, hdeclarations, List.flatMap_assoc,
    List.append_nil]
  simp only [declares_genArgument]

/-- The flag of a list whose elements are of a builtin type is one of its own. -/
theorem mem_flags_genArgument (arg : Decl) (name : String) :
    name ∈ (Method.genArgument arg).flatMap Stmt.flags ↔
      name = "succeeded" ∨ name = "suc" ∧ arg.type.list = true ∧ arg.type.scope = none := by
  unfold Method.genArgument TypeRef.genDeserialiseInto
  cases hlist : arg.type.list with
  | false => simp [Stmt.flags]
  | true =>
    cases hscope : arg.type.scope with
    | none => simp [Stmt.flags, or_comm]
    | some scope => simp [Stmt.flags]

/-- The flags that a case sets: one for the call, one in the loops over lists of builtin types. -/
theorem mem_flags_genBody (m : Method) (ver : Nat) (name : String) :
    name ∈ (m.genBody ver).flatMap Stmt.flags ↔
      name = "succeeded" ∨ name = "suc" ∧ ∃ arg ∈ m.args, arg.type.list = true ∧ arg.type.scope = none := by
  have hdeclarations : m.genDeclarations.flatMap Stmt.flags = [] := by
    unfold Method.genDeclarations
    rw [List.flatMap_append, List.flatMap_assoc]
    split <;> simp [Stmt.flags]
  have hcall : name ∈ (m.genCall ver ++ [Stmt.gotoEnd]).flatMap Stmt.flags ↔ name = "succeeded" := by
    unfold Method.genCall
    split <;> simp [Stmt.flags]
  have harguments : name ∈ (m.args.flatMap Method.genArgument).flatMap Stmt.flags ↔
      ∃ arg ∈ m.args, name = "succeeded" ∨ name = "suc" ∧ arg.type.list = true ∧ arg.type.scope = none := by
    simp only [List.flatMap_assoc, List.mem_flatMap (l := m.args), mem_flags_genArgument]
  rw [Method.genBody, List.flatMap_append, List.flatMap_append, hdeclarations, List.nil_append, List.mem_append,
    hcall, harguments]
  constructor
  · rintro (⟨arg, harg, hname | ⟨hname, hlist⟩⟩ | hname)
    · exact Or.inl hname
    · exact Or.inr ⟨hname, arg, harg, hlist⟩
    · exact Or.inl hname
  · rintro (hname | ⟨hname, arg, harg, hlist⟩)
    · exact Or.inr hname
    · exact Or.inl ⟨arg, harg, Or.inr ⟨hname, hlist⟩⟩

theorem mem_appendsTo_genBody (m : Method) (ver : Nat) (name : String) :
    name ∈ (m.genBody ver).flatMap Stmt.appendsTo ↔ ∃ arg ∈ m.args, arg.type.list = true ∧ arg.id = name := by
  have hdeclarations : m.genDeclarations.flatMap Stmt.appendsTo = [] := by
    unfold Method.genDeclarations
    rw [List.flatMap_append, List.flatMap_assoc]
    split <;> simp [Stmt.appendsTo]
  have hcall : (m.genCall ver ++ [Stmt.gotoEnd]).flatMap Stmt.appendsTo = [] := by
    unfold Method.genCall
    split <;> rfl
  have hargument : ∀ arg, name ∈ (Method.genArgument arg).flatMap Stmt.appendsTo ↔
      arg.type.list = true ∧ arg.id = name := by
    intro arg
    unfold Method.genArgument TypeRef.genDeserialiseInto
    cases hlist : arg.type.list with
    | false => simp [Stmt.appendsTo]
    | true => cases arg.type.scope <;> simp [Stmt.appendsTo, eq_comm]
  rw [Method.genBody, List.flatMap_append, List.flatMap_append, hdeclarations, hcall, List.nil_append, List.append_nil,
    List.flatMap_assoc, List.mem_flatMap]
  exact exists_congr fun arg => and_congr_right fun _ => hargument arg

/-- Two lists in one case declare the names of their loops twice. -/
theorem nodup_loops (args : List Decl) :
    (args.flatMap fun arg => if arg.type.list then ["it", "uEl"] else []).Nodup ↔
      (args.filter fun arg => arg.type.list).length ≤ 1 := by
  induction args with
  | nil => simp
  | cons arg args ih =>
    cases hlist : arg.type.list with
    | false => simpa [hlist] using ih
    | true =>
      simp only [List.flatMap_cons, hlist, if_true, List.filter_cons, List.length_cons]
      constructor
      · intro hnodup
        have hdisjoint := (List.nodup_append.mp hnodup).2.2
        have hnone : args.filter (fun arg => arg.type.list) = [] := by
          rw [List.filter_eq_nil_iff]
          intro arg' harg' hlist'
          refine hdisjoint "it" (by simp) "it" ?_ rfl
          exact List.mem_flatMap.mpr ⟨arg', harg', by simp [hlist']⟩
        simp [hnone]
      · intro hlength
        have hnone : args.filter (fun arg => arg.type.list) = [] := List.length_eq_zero_iff.mp (by omega)
        have hempty : (args.flatMap fun arg => if arg.type.list then ["it", "uEl"] else []) = [] := by
          rw [List.flatMap_eq_nil_iff]
          intro arg' harg'
          simpa using List.filter_eq_nil_iff.mp hnone arg' harg'
        rw [hempty]
        decide

theorem mem_loops {args : List Decl} {name : String} :
    name ∈ (args.flatMap fun arg => if arg.type.list then ["it", "uEl"] else []) ↔
      (∃ arg ∈ args, arg.type.list = true) ∧ (name = "it" ∨ name = "uEl") := by
  rw [List.mem_flatMap]
  constructor
  · rintro ⟨arg, harg, hname⟩
    cases hlist : arg.type.list with
    | false => simp [hlist] at hname
    | true => exact ⟨⟨arg, harg, hlist⟩, by simpa [hlist] using hname⟩
  · rintro ⟨⟨arg, harg, hlist⟩, hname⟩
    exact ⟨arg, harg, by simpa [hlist] using hname⟩

/-- Which methods have a well-scoped case. -/
theorem caseScoped_genBody_iff (m : Method) (ver : Nat) : CaseScoped (m.genBody ver) ↔ m.ServerScoped := by
  have hdeclares := declares_genBody m ver
  constructor
  · rintro ⟨hnodup, hapart, hflags, helement⟩
    rw [hdeclares] at hnodup hapart hflags
    obtain ⟨hnames, hloops, hdisjoint⟩ := List.nodup_append.mp hnodup
    refine ⟨hnames, fun name hname hmem => hapart name hname (List.mem_append_left _ hmem), (nodup_loops _).mp hloops,
      fun hlist => ⟨fun hmem => ?_, fun hmem => ?_⟩, fun arg harg hlist hscope => ?_, fun arg harg hlist hid => ?_⟩
    · exact hdisjoint _ hmem _ (mem_loops.mpr ⟨hlist, Or.inl rfl⟩) rfl
    · exact hdisjoint _ hmem _ (mem_loops.mpr ⟨hlist, Or.inr rfl⟩) rfl
    · have hsuc := hflags "suc" ((mem_flags_genBody m ver "suc").mpr (Or.inr ⟨rfl, arg, harg, hlist, hscope⟩))
      rw [List.mem_append, mem_loops] at hsuc
      simpa using hsuc
    · exact helement ((mem_appendsTo_genBody m ver _).mpr ⟨arg, harg, hlist, hid⟩)
  · rintro ⟨hnames, hapart, hlists, hloop, hdefined, helement⟩
    constructor
    · rw [hdeclares, List.nodup_append]
      refine ⟨hnames, (nodup_loops _).mpr hlists, ?_⟩
      rintro name hmem _ hmem' rfl
      obtain ⟨hlist, rfl | rfl⟩ := mem_loops.mp hmem'
      · exact (hloop hlist).1 hmem
      · exact (hloop hlist).2 hmem
    · intro name hname hmem
      rw [hdeclares, List.mem_append, mem_loops] at hmem
      rcases hmem with hmem | ⟨_, rfl | rfl⟩
      · exact hapart name hname hmem
      · simp at hname
      · simp at hname
    · intro name hname
      rcases (mem_flags_genBody m ver name).mp hname with rfl | ⟨rfl, arg, harg, hlist, hscope⟩
      · exact Or.inl rfl
      · rw [hdeclares]
        exact Or.inr (List.mem_append_left _ (hdefined arg harg hlist hscope))
    · intro hmem
      obtain ⟨arg, harg, hlist, hid⟩ := (mem_appendsTo_genBody m ver _).mp hmem
      exact helement arg harg hlist hid

end Scoped

section Arguments

variable {V : Type} {link : Linked V} {req : Req} {f : Frame V} {av : Decl × Cell V} {avs done : List (Decl × Cell V)}

theorem deserialiseAll_serialised {t : TypeRef} {vs : List V}
    (h : ∀ v ∈ vs, link.deserialise t.eachDeserialiser (link.serialise t.serialiser v) = some v) :
    deserialiseAll link t.eachDeserialiser (vs.map (link.serialise t.serialiser)) = (vs, true) := by
  induction vs with
  | nil => rfl
  | cons v vs ih =>
    obtain ⟨hv, hvs⟩ := List.forall_mem_cons.mp h
    simp [deserialiseAll, hv, ih hvs]

/-- A case under way that has read some of its arguments and called nothing yet. No
variable of it hides the flag of the function. -/
structure Holding (req : Req) (b : Bool) (done : List (Decl × Cell V)) (f : Frame V) : Prop where
  req_eq : f.req = req
  calls_eq : f.calls = []
  shown : f.vars "succeeded" = none
  succeeded_eq : f.succeeded = b
  values : ∀ av ∈ done, f.vars av.1.id = some av.2

namespace Holding

variable {b : Bool} (h : Holding req b done f)

include h

theorem flag_eq : f.flag "succeeded" = b := by
  simp only [Frame.flag, h.shown, h.succeeded_eq]

theorem setFlag (b' : Bool) : Holding req b' done (f.setFlag "succeeded" b') := by
  have hset : f.setFlag "succeeded" b' = { f with succeeded := b' } := by
    rw [Frame.setFlag, h.shown]
    rfl
  rw [hset]
  exact ⟨h.req_eq, h.calls_eq, h.shown, rfl, h.values⟩

theorem set {name : String} (hname : name ≠ "succeeded") (hdone : ∀ av ∈ done, av.1.id ≠ name) (cell : Cell V) :
    Holding req b done (f.set name cell) where
  req_eq := h.req_eq
  calls_eq := h.calls_eq
  shown := (if_neg hname.symm).trans h.shown
  succeeded_eq := h.succeeded_eq
  values := fun av hav => (if_neg (hdone av hav)).trans (h.values av hav)

/-- A variable of its own is set to the argument's value. -/
theorem bind (hname : av.1.id ≠ "succeeded") (hdone : ∀ av' ∈ done, av'.1.id ≠ av.1.id) :
    Holding req b (done ++ [av]) (f.set av.1.id av.2) := by
  have hset := h.set hname hdone av.2
  refine ⟨hset.req_eq, hset.calls_eq, hset.shown, hset.succeeded_eq, fun av' hav' => ?_⟩
  rcases List.mem_append.mp hav' with hold | hnew
  · exact hset.values av' hold
  · obtain rfl := List.mem_singleton.mp hnew
    simp [Frame.set]

end Holding

theorem genArgument_value {arg : Decl} (hlist : arg.type.list = false) :
    Method.genArgument arg = [.lookup (arg.id ++ "_obj") arg.id,
      .deserialise "succeeded" arg.type.deserialiser (arg.id ++ "_obj") arg.id, .check "succeeded"] := by
  simp [Method.genArgument, TypeRef.genDeserialiseInto, hlist]

theorem genArgument_list {arg : Decl} (hlist : arg.type.list = true) :
    ∃ suc, Method.genArgument arg = [.lookup (arg.id ++ "_obj") arg.id,
      .deserialiseEach suc arg.type.eachDeserialiser (arg.id ++ "_obj") arg.id, .check "succeeded"] := by
  unfold Method.genArgument TypeRef.genDeserialiseInto TypeRef.eachDeserialiser
  rw [if_pos hlist]
  cases arg.type.scope with
  | none => exact ⟨_, rfl⟩
  | some scope => exact ⟨_, rfl⟩

/-- The names of the argument are its own. -/
structure Fresh (done : List (Decl × Cell V)) (av : Decl × Cell V) : Prop where
  id : av.1.id ≠ "succeeded"
  ids : ∀ av' ∈ done, av'.1.id ≠ av.1.id
  objs : ∀ av' ∈ done, av'.1.id ≠ av.1.id ++ "_obj"

section Argument

variable {b : Bool} (h : Holding req b done f) (hfresh : Fresh done av)
  (hlookup : req.params.bind (·.lookup av.1.id) = some (encoded link av)) (hinverse : av.1.type.Inverse link av.2)

include h hfresh hlookup

theorem run_lookup (stmts : List Stmt) :
    ∃ f', run link (.lookup (av.1.id ++ "_obj") av.1.id :: stmts) f = run link stmts f' ∧
      Holding req b done f' ∧ f'.obj (av.1.id ++ "_obj") = some (encoded link av) := by
  refine ⟨f.set (av.1.id ++ "_obj") (.obj (encoded link av)), ?_, h.set (obj_ne_succeeded _) hfresh.objs _,
    Frame.obj_set _ _ _⟩
  simp only [run, Stmt.exec, h.req_eq, hlookup]

include hinverse

/-- A value that is no list sets the flag. -/
theorem run_value (hlist : av.1.type.list = false) :
    ∃ f', run link (Method.genArgument av.1) f = .next f' ∧ Holding req true (done ++ [av]) f' := by
  obtain ⟨arg, x⟩ := av
  cases x with
  | value v =>
    obtain ⟨f₁, hrun, hholding, hobj⟩ := run_lookup h hfresh hlookup
      [.deserialise "succeeded" arg.type.deserialiser (arg.id ++ "_obj") arg.id, .check "succeeded"]
    have hbound := (hholding.bind hfresh.id hfresh.ids).setFlag true
    refine ⟨_, ?_, hbound⟩
    have hdeserialise : (f₁.obj (arg.id ++ "_obj")).bind (link.deserialise arg.type.deserialiser) = some v := by
      rw [hobj]
      exact hinverse.2
    have hflag := hbound.flag_eq
    rw [genArgument_value hlist, hrun]
    simp only at hflag
    simp only [run, Stmt.exec, hdeserialise, hflag, if_true]
  | values vs => exact absurd (hinverse.1.symm.trans hlist) (by decide)
  | unset | obj | flag => exact hinverse.elim

/-- A list leaves the flag as it is, which is then tested. -/
theorem run_list (hlist : av.1.type.list = true) :
    ∃ f', run link (Method.genArgument av.1) f = (if b then .next f' else .goto f'.invalidParams) ∧
      Holding req b (done ++ [av]) f' := by
  obtain ⟨arg, x⟩ := av
  cases x with
  | values vs =>
    have hall := deserialiseAll_serialised hinverse.2
    obtain ⟨suc, hargument⟩ := genArgument_list hlist
    obtain ⟨f₁, hrun, hholding, hobj⟩ := run_lookup h hfresh hlookup
      [.deserialiseEach suc arg.type.eachDeserialiser (arg.id ++ "_obj") arg.id, .check "succeeded"]
    have hbound := hholding.bind hfresh.id hfresh.ids
    refine ⟨_, ?_, hbound⟩
    have hitems : ((encoded link (arg, .values vs)).iterate none).map Prod.snd =
        vs.map (link.serialise arg.type.serialiser) := by
      simp [encoded, serialiseCell, Ucl.iterate]
    have hflag := hbound.flag_eq
    rw [hargument, hrun]
    simp only at hobj hflag
    simp only [run, Stmt.exec, hobj, Option.getD_some, hitems, hall, if_true, hflag]
    cases b <;> rfl
  | value v => exact absurd (hinverse.1.symm.trans hlist) (by decide)
  | unset | obj | flag => exact hinverse.elim

end Argument

theorem fresh_of_nodup (avs : List (Decl × Cell V))
    (hnodup : ((done ++ av :: avs).flatMap fun av => [av.1.id ++ "_obj", av.1.id]).Nodup)
    (hid : av.1.id ≠ "succeeded") : Fresh done av := by
  rw [List.flatMap_append, List.nodup_append] at hnodup
  obtain ⟨_, _, hdisjoint⟩ := hnodup
  have hmem : ∀ av' ∈ done, av'.1.id ∈ done.flatMap fun av => [av.1.id ++ "_obj", av.1.id] :=
    fun av' hav' => List.mem_flatMap.mpr ⟨av', hav', by simp⟩
  exact ⟨hid, fun av' hav' => hdisjoint _ (hmem av' hav') _ (by simp),
    fun av' hav' => hdisjoint _ (hmem av' hav') _ (by simp)⟩

section All

variable (hnodup : ((done ++ avs).flatMap fun av => [av.1.id ++ "_obj", av.1.id]).Nodup)
  (hids : ∀ av ∈ avs, av.1.id ≠ "succeeded")
  (hlookup : ∀ av ∈ avs, req.params.bind (·.lookup av.1.id) = some (encoded link av))
  (hinverse : ∀ av ∈ avs, av.1.type.Inverse link av.2)

include hnodup hids hlookup hinverse

/-- Once the flag is up it stays up. -/
theorem run_arguments_up (h : Holding req true done f) :
    ∃ f', run link (avs.flatMap fun av => Method.genArgument av.1) f = .next f' ∧
      Holding req true (done ++ avs) f' := by
  induction avs generalizing f done with
  | nil => exact ⟨f, rfl, by simpa using h⟩
  | cons av avs ih =>
    obtain ⟨hid, hids⟩ := List.forall_mem_cons.mp hids
    obtain ⟨hlookup₁, hlookup⟩ := List.forall_mem_cons.mp hlookup
    obtain ⟨hinverse₁, hinverse⟩ := List.forall_mem_cons.mp hinverse
    have hfresh := fresh_of_nodup avs hnodup hid
    have hstep : ∃ f', run link (Method.genArgument av.1) f = .next f' ∧ Holding req true (done ++ [av]) f' := by
      cases hlist : av.1.type.list with
      | false => exact run_value h hfresh hlookup₁ hinverse₁ hlist
      | true => exact run_list h hfresh hlookup₁ hinverse₁ hlist
    obtain ⟨f₁, hrun, hholding⟩ := hstep
    obtain ⟨f₂, hrun₂, hholding₂⟩ := ih (by simpa using hnodup) hids hlookup hinverse hholding
    refine ⟨f₂, ?_, by simpa using hholding₂⟩
    rw [List.flatMap_cons, run_append_of_next hrun, hrun₂]

end All

section Body

variable {m : Method} (ver : Nat) (hscoped : m.ServerScoped) (hargs : m.args = avs.map Prod.fst)

include hscoped hargs

theorem ServerScoped.arguments :
    (avs.flatMap fun av => [av.1.id ++ "_obj", av.1.id]).Nodup ∧ ∀ av ∈ avs, av.1.id ≠ "succeeded" := by
  have hnames : (m.args.flatMap fun arg => [arg.id ++ "_obj", arg.id]) =
      avs.flatMap fun av => [av.1.id ++ "_obj", av.1.id] := by
    rw [hargs, List.flatMap_map]
  have hnodup := (List.nodup_append.mp hscoped.nodup).1
  rw [hnames] at hnodup
  refine ⟨hnodup, fun av hav hid => hscoped.apart "succeeded" (by simp) (List.mem_append_left _ ?_)⟩
  rw [hnames]
  exact List.mem_flatMap.mpr ⟨av, hav, by simp [hid]⟩

theorem run_declarations_holding (link : Linked V) (req : Req) :
    ∃ f, run link m.genDeclarations { req } = .next f ∧ Holding req false [] f := by
  obtain ⟨f, hrun, hready⟩ := run_declarations link m req
  have hshown : (m.args.any fun arg => arg.id = "succeeded") = false := by
    rw [List.any_eq_false]
    intro arg harg
    rw [hargs] at harg
    obtain ⟨av, hav, rfl⟩ := List.mem_map.mp harg
    simpa using (ServerScoped.arguments hscoped hargs).2 av hav
  rw [hshown] at hready
  have hnone : f.vars "succeeded" = none := by simpa using hready.hidden_eq
  exact ⟨f, hrun, hready.req_eq, hready.calls_eq, hnone, by simpa using hready.succeeded_eq, by simp⟩

variable (hlookup : ∀ av ∈ avs, req.params.bind (·.lookup av.1.id) = some (encoded link av))
  (hinverse : ∀ av ∈ avs, av.1.type.Inverse link av.2)

include hlookup hinverse

/-- The case gets to the call of the implementation with its arguments read. -/
theorem run_arguments_held (hfirst : ∀ arg, m.args.head? = some arg → arg.type.list = false) :
    ∃ b f, Holding req b avs f ∧
      run link (m.genBody ver) { req } = run link (m.genCall ver ++ [.gotoEnd]) f := by
  obtain ⟨hnodup, hids⟩ := ServerScoped.arguments hscoped hargs
  obtain ⟨f₁, hrun₁, hholding₁⟩ := run_declarations_holding hscoped hargs link req
  have harguments : ∃ b f₂, run link (m.args.flatMap Method.genArgument) f₁ = .next f₂ ∧ Holding req b avs f₂ := by
    rw [hargs, List.flatMap_map]
    cases havs : avs with
    | nil => exact ⟨false, f₁, rfl, hholding₁⟩
    | cons av rest =>
      subst havs
      obtain ⟨hid, hids⟩ := List.forall_mem_cons.mp hids
      obtain ⟨hlookup₁, hlookup⟩ := List.forall_mem_cons.mp hlookup
      obtain ⟨hinverse₁, hinverse⟩ := List.forall_mem_cons.mp hinverse
      obtain ⟨f₂, hrun₂, hholding₂⟩ := run_value hholding₁ (fresh_of_nodup rest (by simpa using hnodup) hid)
        hlookup₁ hinverse₁ (hfirst av.1 (by rw [hargs]; rfl))
      obtain ⟨f₃, hrun₃, hholding₃⟩ := run_arguments_up (by simpa using hnodup) hids hlookup hinverse hholding₂
      exact ⟨true, f₃, by rw [List.flatMap_cons, run_append_of_next hrun₂, hrun₃], by simpa using hholding₃⟩
  obtain ⟨b, f₂, hrun₂, hholding₂⟩ := harguments
  exact ⟨b, f₂, hholding₂, by rw [Method.genBody, run_append_of_next hrun₁, run_append_of_next hrun₂]⟩

omit hscoped hlookup hinverse in
/-- The arguments that a case has read are those that it calls the implementation with. -/
theorem Holding.arguments_eq {b : Bool} (h : Holding req b avs f) :
    (m.args.map fun arg => (f.vars arg.id).getD .unset) = avs.map Prod.snd := by
  rw [hargs, List.map_map]
  apply List.map_congr_left
  intro av hav
  simp [h.values av hav]

theorem run_body_delivered (hfirst : ∀ arg, m.args.head? = some arg → arg.type.list = false) :
    ∃ f, run link (m.genBody ver) { req } = .goto f ∧ f.calls = [⟨m.implFunName ver, m.args, avs.map Prod.snd⟩] := by
  obtain ⟨b, f₂, hholding₂, hrun₂⟩ := run_arguments_held ver hscoped hargs hlookup hinverse hfirst
  obtain ⟨f₃, hrun₃, hcalls⟩ := run_call link m ver hholding₂.calls_eq
  refine ⟨f₃, hrun₂.trans hrun₃, ?_⟩
  rw [hcalls, hholding₂.arguments_eq hargs]

/-- The flag is down where a list is the first argument, and it is taken for refused. -/
theorem run_body_list_first {arg : Decl} (hfirst : m.args.head? = some arg) (hlist : arg.type.list = true) :
    ∃ f, run link (m.genBody ver) { req } = .goto f ∧ f.calls = [] := by
  obtain ⟨hnodup, hids⟩ := ServerScoped.arguments hscoped hargs
  obtain ⟨f₁, hrun₁, hholding₁⟩ := run_declarations_holding hscoped hargs link req
  cases avs with
  | nil => simp [hargs] at hfirst
  | cons av rest =>
    obtain rfl : av.1 = arg := by simpa [hargs] using hfirst
    obtain ⟨f₂, hrun₂, hholding₂⟩ := run_list hholding₁
      (fresh_of_nodup rest (by simpa using hnodup) (hids av List.mem_cons_self))
      (hlookup av List.mem_cons_self) (hinverse av List.mem_cons_self) hlist
    refine ⟨f₂.invalidParams, ?_, hholding₂.calls_eq⟩
    rw [Method.genBody, run_append_of_next hrun₁]
    apply run_append_of_goto
    rw [hargs, List.flatMap_map, List.flatMap_cons]
    exact run_append_of_goto hrun₂

end Body

/-- Calls are made of the case's own implementation. -/
theorem exec_calls_args (link : Linked V) {args : List Decl} (stmt : Stmt)
    (hstmt : ∀ suc fn rval as, stmt = .callImpl suc fn rval as → as = args)
    (h : ∀ call ∈ f.calls, call.args = args) : ∀ call ∈ (stmt.exec link f).frame.calls, call.args = args := by
  cases stmt with
  | callImpl suc fn rval as =>
    obtain rfl := hstmt suc fn rval as rfl
    intro call hcall
    have hcalls : call ∈ f.calls ++ [⟨fn, as, as.map fun arg => (f.vars arg.id).getD .unset⟩] := by
      cases rval <;> simpa [Stmt.exec, Step.frame] using hcall
    rcases List.mem_append.mp hcalls with hold | hnew
    · exact h call hold
    · rw [List.mem_singleton.mp hnew]
  | lookup | deserialise | deserialiseEach | check | serialise =>
    simp only [Stmt.exec]
    split <;> simpa [Step.frame, Frame.invalidParams] using h
  | declareObj | declare | gotoEnd => exact h

theorem run_calls_args {args : List Decl} {body : List Stmt}
    (hbody : ∀ suc fn rval as, .callImpl suc fn rval as ∈ body → as = args) (h : ∀ call ∈ f.calls, call.args = args) :
    ∀ call ∈ (run link body f).frame.calls, call.args = args := by
  induction body generalizing f with
  | nil => exact h
  | cons stmt body ih =>
    have hexec := exec_calls_args link stmt
      (fun suc fn rval as heq => hbody suc fn rval as (heq ▸ List.mem_cons_self)) h
    unfold run
    cases hstep : stmt.exec link f with
    | next f' =>
      rw [hstep] at hexec
      exact ih (fun suc fn rval as hmem => hbody suc fn rval as (List.mem_cons_of_mem _ hmem)) hexec
    | goto f' =>
      rw [hstep] at hexec
      exact hexec

theorem run_body_calls_args (link : Linked V) (m : Method) (ver : Nat) (req : Req) :
    ∀ call ∈ (run link (m.genBody ver) { req }).frame.calls, call.args = m.args := by
  refine run_calls_args (fun suc fn rval as hmem => ?_) (by simp)
  simp only [Method.genBody, Method.genDeclarations, Method.genCall, List.mem_append, List.mem_flatMap] at hmem
  rcases hmem with (⟨arg, _, hmem⟩ | hmem) | ⟨arg, _, hmem⟩ | hmem | hmem
  · simp at hmem
  · split at hmem <;> simp at hmem
  · cases hlist : arg.type.list with
    | false => simp [genArgument_value hlist] at hmem
    | true =>
      obtain ⟨suc, hargument⟩ := genArgument_list hlist
      simp [hargument] at hmem
  · split at hmem <;> simp at hmem <;> exact hmem.2.2.2
  · simp at hmem

end Arguments

/-- What the call of a method sends, its implementation is called with, once. -/
structure Delivers {V : Type} (link : Linked V) (header : Header) (p : Program) (v : Version) (m : Method) (id : Int32)
    (values : List (Cell V)) : Prop where
  compiles : p.Compiles header
  calls : (handleReq link p (m.clientRequest link v.num id values)).calls = [⟨m.implFunName v.num, m.args, values⟩]

section Delivers

variable {V : Type} {link : Linked V}

theorem clientRequest_lookup {m : Method} {avs : List (Decl × Cell V)} (ver : Nat) (id : Int32)
    (hscoped : m.ClientScoped)
    (hargs : m.args = avs.map Prod.fst) (hinverse : ∀ av ∈ avs, av.1.type.Inverse link av.2) :
    ∀ av ∈ avs, (m.clientRequest link ver id (avs.map Prod.snd)).params.bind (·.lookup av.1.id) =
      some (encoded link av) := by
  intro av hav
  have hids := hscoped.names.1
  rw [hargs, List.map_map] at hids
  rw [clientRequest_params ver id hscoped hargs hinverse]
  exact find?_map_of_nodup _ hids hav

/-- A call is delivered exactly if the program's code is well-scoped, what it takes from the
header is declared there and hidden nowhere, the dispatcher gets to the method, and its first
argument is not a list. -/
theorem clientRequest_delivered_iff (link : Linked V) (header : Header) (p : Program) (v : Version) (m : Method)
    (id : Int32) (values : List (Cell V)) (hv : v ∈ p.versions) (hm : m ∈ v.methods)
    (hinverse : List.Forall₂ (fun arg x => arg.type.Inverse link x) m.args values) :
    Delivers link header p v m id values ↔
      (∀ v' ∈ p.versions, ∀ m' ∈ v'.methods, m'.ClientScoped ∧ m'.ServerScoped ∧ m'.Supplied header) ∧
        (∃ v' m', p.dispatched (m.implFunName v.num) = some (v', m') ∧ m'.args = m.args) ∧
          ∀ arg, m.args.head? = some arg → arg.type.list = false := by
  let avs := m.args.zip values
  have hlength : m.args.length = values.length := hinverse.length_eq
  have hargs : m.args = avs.map Prod.fst := (List.map_fst_zip (Nat.le_of_eq hlength)).symm
  have hvalues : avs.map Prod.snd = values := List.map_snd_zip (Nat.le_of_eq hlength.symm)
  have hinverse' : ∀ av ∈ avs, av.1.type.Inverse link av.2 :=
    fun _ hav => (List.forall₂_iff_zip.mp hinverse).2 hav
  have hcompiles : p.Compiles header ↔
      ∀ v' ∈ p.versions, ∀ m' ∈ v'.methods, m'.ClientScoped ∧ m'.ServerScoped ∧ m'.Supplied header := by
    simp only [Program.Compiles, caseScoped_genBody_iff]
  constructor
  · rintro ⟨hscoped, hcalls⟩
    rw [hcompiles] at hscoped
    have hlookup := clientRequest_lookup v.num id (hscoped v hv m hm).1 hargs hinverse'
    rw [handleReq_eq] at hcalls
    cases hdispatched : p.dispatched (m.clientRequest link v.num id values).methodName with
    | none => simp [hdispatched] at hcalls
    | some found =>
      obtain ⟨v', m'⟩ := found
      simp only [hdispatched] at hcalls
      have hsame : m'.args = m.args := by
        have hargs' := run_body_calls_args link m' v'.num (m.clientRequest link v.num id values)
        rw [hcalls] at hargs'
        exact (hargs' _ List.mem_cons_self).symm
      refine ⟨hscoped, ⟨v', m', hdispatched, hsame⟩, fun arg hfirst => ?_⟩
      by_contra hlist
      obtain ⟨hv', hm', _⟩ := dispatched_name hdispatched
      rw [hvalues] at hlookup
      obtain ⟨f, hrun, hnone⟩ :=
        run_body_list_first v'.num (hscoped v' hv' m' hm').2.1 (hsame.trans hargs) hlookup hinverse'
        (hsame.symm ▸ hfirst) (by simpa using hlist)
      simp [hrun, Step.frame, hnone] at hcalls
  · rintro ⟨hscoped, ⟨v', m', hdispatched, hsame⟩, hfirst⟩
    refine ⟨hcompiles.mpr hscoped, ?_⟩
    obtain ⟨hv', hm', hname⟩ := dispatched_name hdispatched
    have hlookup := clientRequest_lookup v.num id (hscoped v hv m hm).1 hargs hinverse'
    obtain ⟨f, hrun, hcalls⟩ :=
      run_body_delivered v'.num (hscoped v' hv' m' hm').2.1 (hsame.trans hargs) hlookup hinverse'
      (hsame.symm ▸ hfirst)
    rw [hvalues, hname, hsame] at hcalls
    rw [hvalues] at hrun
    have hdispatched' : p.dispatched (m.clientRequest link v.num id values).methodName = some (v', m') := hdispatched
    rw [handleReq_eq, hdispatched']
    simp only [hrun, Step.frame, hcalls]

end Delivers

/-- The names that the generated code has from the header where it includes that of the
transport alone. -/
def libraryNames : List String :=
  ["bool", "fprintf", "int", "std::", "ucl_array_append", "ucl_iterate_object", "ucl_object_insert_key",
    "ucl_object_iter_t", "ucl_object_lookup", "ucl_object_t", "ucl_object_typed_new", "UCL_ARRAY", "UCL_OBJECT",
    "WSRPCCompletion", "WSRPCError", "WSRPCError::", "WSRPCReq", "WSRPCTransport", "WSRPCVTable",
    "wsRPCDeserialisebool", "wsRPCDeserialiseint", "wsRPCDeserialisestring", "wsRPCSerialisebool",
    "wsRPCSerialiseint", "wsRPCSerialisestring"]

/-- A header with some types of the IDL, each with its qualified prefix. -/
def headerWith (types : List (String × String)) : Header :=
  let known (n : Needed) : Bool :=
    match n.2 with
    | none => libraryNames.contains n.1
    | some scope => types.any fun t => t.2 = scope && (n.1 = t.1 || n.1 = scope)
  { client := known, delegate := known, server := known }

theorem clientRequest_delivered_setProperty :
    Delivers builtin (headerWith []) oneVersion firstVersion setProperty 7 [.value (.string "port"),
      .value (.int 22)] :=
  (clientRequest_delivered_iff builtin (headerWith []) oneVersion firstVersion setProperty 7
    [.value (.string "port"), .value (.int 22)] (List.mem_singleton_self _)
    (List.mem_singleton_self _)
    (.cons ⟨rfl, by with_unfolding_all rfl⟩ (.cons ⟨rfl, by with_unfolding_all rfl⟩ .nil))).mpr
    ⟨by
      intro v hv m hm
      obtain rfl := List.mem_singleton.mp hv
      obtain rfl := List.mem_singleton.mp hm
      exact ⟨by decide, ⟨by decide, by decide, by decide, by decide, by decide, by decide⟩, by decide +kernel⟩,
     ⟨firstVersion, setProperty, rfl, rfl⟩, by decide⟩

/-- A method whose first argument is a list of a type that the IDL defines. -/
def setProperties : Method where
  retType := { type := "void" }
  name := "setProperties"
  args := [{ type := { type := "Property", list := true, scope := some "Property::" }, id := "props" }]

def listVersion : Version where
  num := 1
  methods := [setProperties]
  methods_ne_nil := by decide

def listProgram : Program where
  versions := [listVersion]
  versions_ne_nil := by simp

/-- Deserialisers that take an object for what it is. -/
def verbatim : Linked Ucl where
  deserialise _ obj := some obj
  serialise _ v := v
  impl _ req := { succeeded := true, rval := .unset, req }

theorem clientRequest_not_delivered :
    List.Forall₂ (fun arg x => arg.type.Inverse verbatim x) setProperties.args [.values [.string "port"]] ∧
      listProgram.Compiles (headerWith [("Property", "Property::")]) ∧
        ¬Delivers verbatim (headerWith [("Property", "Property::")]) listProgram listVersion setProperties 7
          [.values [.string "port"]] := by
  refine ⟨.cons ⟨rfl, fun _ _ => rfl⟩ .nil, ?_, fun h => ?_⟩
  · intro v hv m hm
    obtain rfl := List.mem_singleton.mp hv
    obtain rfl := List.mem_singleton.mp hm
    exact ⟨by decide, (caseScoped_genBody_iff _ _).mpr ⟨by decide,
      by decide, by decide, by decide, by decide, by decide⟩,
      by decide⟩
  · have hcalls := congrArg List.length h.calls
    exact absurd hcalls (by decide +kernel)

end ServiceManager.Wsrpcgen
