import ServiceManager.Wsrpcgen.Dispatch

namespace ServiceManager.Wsrpcgen

open Wsrpc

variable {V : Type} {link : Linked V} {f f' : Frame V} {req : Req}

theorem run_append (xs ys : List Stmt) (f : Frame V) :
    run link (xs ++ ys) f =
      match run link xs f with
      | .next f' => run link ys f'
      | .goto f' => .goto f' := by
  induction xs generalizing f with
  | nil => rfl
  | cons stmt xs ih =>
    simp only [List.cons_append, run]
    cases stmt.exec link f with
    | next f' => exact ih f'
    | goto f' => rfl

theorem run_append_of_next {xs ys : List Stmt} (h : run link xs f = .next f') :
    run link (xs ++ ys) f = run link ys f' := by
  rw [run_append, h]

theorem run_append_of_goto {xs ys : List Stmt} (h : run link xs f = .goto f') :
    run link (xs ++ ys) f = .goto f' := by
  rw [run_append, h]

theorem run_gotoEnd (link : Linked V) (xs : List Stmt) (f : Frame V) :
    ∃ f', run link (xs ++ [.gotoEnd]) f = .goto f' := by
  cases h : run link xs f with
  | next f' => exact ⟨f', by rw [run_append_of_next h]; rfl⟩
  | goto f' => exact ⟨f', run_append_of_goto h⟩

/-- A case is not left at its closing brace. -/
theorem run_genBody (link : Linked V) (m : Method) (ver : Nat) (f : Frame V) :
    ∃ f', run link (m.genBody ver) f = .goto f' := by
  have hend := run_gotoEnd link (m.genDeclarations ++ (m.args.flatMap Method.genArgument ++ m.genCall ver)) f
  simpa [Method.genBody] using hend

theorem Frame.flag_setFlag (f : Frame V) (b : Bool) : (f.setFlag "succeeded" b).flag "succeeded" = b := by
  unfold setFlag
  split
  · simp [flag, set]
  · rename_i h
    simp only [if_true, flag]
    rw [Option.not_isSome_iff_eq_none.mp h]

theorem Frame.obj_set (f : Frame V) (name : String) (o : Ucl) : (f.set name (.obj o)).obj name = some o := by
  simp [obj, set]

/-- The name of an object's variable is never that of the flag. -/
theorem obj_ne_succeeded (id : String) : id ++ "_obj" ≠ "succeeded" := by
  intro h
  have hlast := congrArg (fun s => s.toList.getLast?) h
  simp [String.toList_append] at hlast

/-- A case under way that has called nothing yet. Its flag was last set to `b`: the one of
the function, unless an argument hides it. -/
structure Ready (req : Req) (hidden b : Bool) (f : Frame V) : Prop where
  req_eq : f.req = req
  calls_eq : f.calls = []
  hidden_eq : (f.vars "succeeded").isSome = hidden
  succeeded_eq : f.succeeded = (b && !hidden)

namespace Ready

variable {hidden b : Bool} (hready : Ready req hidden b f)

include hready

theorem set {name : String} (hname : name = "succeeded" → hidden = true) (cell : Cell V) :
    Ready req hidden b (f.set name cell) where
  req_eq := hready.req_eq
  calls_eq := hready.calls_eq
  hidden_eq := by
    by_cases heq : "succeeded" = name
    · simp [Frame.set, heq, hname heq.symm]
    · simp [Frame.set, heq, hready.hidden_eq]
  succeeded_eq := hready.succeeded_eq

theorem setFlag (b' : Bool) : Ready req hidden b' (f.setFlag "succeeded" b') := by
  cases hhidden : hidden with
  | true =>
    have hset : f.setFlag "succeeded" b' = f.set "succeeded" (.flag b') :=
      if_pos (hready.hidden_eq.trans hhidden)
    have hready' : Ready req hidden b (f.set "succeeded" (.flag b')) := hready.set (fun _ => hhidden) _
    rw [hhidden] at hready'
    rw [hset]
    exact ⟨hready'.req_eq, hready'.calls_eq, hready'.hidden_eq, by simp [hready'.succeeded_eq]⟩
  | false =>
    have hnone : ¬(f.vars "succeeded").isSome := by simp [hready.hidden_eq, hhidden]
    have hset : f.setFlag "succeeded" b' = { f with succeeded := b' } := by
      rw [Frame.setFlag, if_neg hnone, if_pos rfl]
    rw [hset]
    exact ⟨hready.req_eq, hready.calls_eq, hready.hidden_eq.trans hhidden, by simp⟩

end Ready

/-- The argument is there. -/
def Present (req : Req) (arg : Decl) : Prop :=
  (req.params.bind (·.lookup arg.id)).isSome

/-- The argument is there, and its deserialiser accepts it. -/
def Accepts (link : Linked V) (req : Req) (arg : Decl) : Prop :=
  ((req.params.bind (·.lookup arg.id)).bind (link.deserialise arg.type.deserialiser)).isSome

instance (req : Req) (arg : Decl) : Decidable (Present req arg) :=
  inferInstanceAs (Decidable (_ = true))

instance (link : Linked V) (req : Req) (arg : Decl) : Decidable (Accepts link req arg) :=
  inferInstanceAs (Decidable (_ = true))

section Argument

variable {hidden b : Bool} {arg : Decl} (hready : Ready req hidden b f) (hplain : arg.type.list = false)
  (harg : arg.id = "succeeded" → hidden = true)

include hready

theorem run_missing (h : ¬Present req arg) : run link (Method.genArgument arg) f = .goto f.invalidParams := by
  have hlookup : f.req.params.bind (·.lookup arg.id) = none := by
    rw [hready.req_eq]
    exact Option.not_isSome_iff_eq_none.mp h
  simp [Method.genArgument, run, Stmt.exec, hlookup]

include hplain

theorem run_present {o : Ucl} (h : req.params.bind (·.lookup arg.id) = some o) :
    run link (Method.genArgument arg) f =
      run link [.deserialise "succeeded" arg.type.deserialiser (arg.id ++ "_obj") arg.id, .check "succeeded"]
        (f.set (arg.id ++ "_obj") (.obj o)) := by
  have hlookup : f.req.params.bind (·.lookup arg.id) = some o := by
    rw [hready.req_eq]
    exact h
  simp [Method.genArgument, TypeRef.genDeserialiseInto, hplain, run, Stmt.exec, hlookup]

theorem run_rejected (hpresent : Present req arg) (h : ¬Accepts link req arg) :
    ∃ f', run link (Method.genArgument arg) f = .goto f'.invalidParams ∧ Ready req hidden false f' := by
  obtain ⟨o, ho⟩ := Option.isSome_iff_exists.mp hpresent
  have hnone : link.deserialise arg.type.deserialiser o = none := by
    simpa [Accepts, ho] using h
  have hready₁ := hready.set (fun heq => absurd heq (obj_ne_succeeded arg.id)) (.obj o)
  refine ⟨_, ?_, hready₁.setFlag false⟩
  rw [run_present hready hplain ho]
  simp [run, Stmt.exec, Frame.obj_set, hnone, Frame.flag_setFlag]

include harg

theorem run_accepted (h : Accepts link req arg) :
    ∃ f', run link (Method.genArgument arg) f = .next f' ∧ Ready req hidden true f' := by
  obtain ⟨v, hv⟩ := Option.isSome_iff_exists.mp h
  obtain ⟨o, ho, hv⟩ := Option.bind_eq_some_iff.mp hv
  have hready₁ := hready.set (fun heq => absurd heq (obj_ne_succeeded arg.id)) (.obj o)
  have hready₂ := hready₁.set harg (.value v)
  refine ⟨_, ?_, hready₂.setFlag true⟩
  rw [run_present hready hplain ho]
  simp [run, Stmt.exec, Frame.obj_set, hv, Frame.flag_setFlag]

end Argument

/-- The arguments are refused as they should be: the first that is missing or rejected
is there, or there is none before it. An argument that hides the flag of the function
leaves that one as it was. -/
def Refused (link : Linked V) (req : Req) (args : List Decl) : Prop :=
  ∃ good arg rest, args = good ++ arg :: rest ∧ (∀ a ∈ good, Accepts link req a) ∧ ¬Accepts link req arg ∧
    (Present req arg ∨ good = [] ∨ ∃ a ∈ args, a.id = "succeeded")

section Arguments

variable {hidden b : Bool} {args : List Decl} (hready : Ready req hidden b f)
  (hplain : ∀ arg ∈ args, arg.type.list = false) (hhidden : ∀ arg ∈ args, arg.id = "succeeded" → hidden = true)

include hready hplain hhidden

theorem run_arguments_accepted (h : ∀ arg ∈ args, Accepts link req arg) :
    ∃ f', run link (args.flatMap Method.genArgument) f = .next f' ∧
      Ready req hidden (b || !args.isEmpty) f' := by
  induction args generalizing f b with
  | nil => exact ⟨f, rfl, by simpa using hready⟩
  | cons arg args ih =>
    obtain ⟨harg, hargs⟩ := List.forall_mem_cons.mp h
    obtain ⟨hplain₀, hplain⟩ := List.forall_mem_cons.mp hplain
    obtain ⟨hhidden₀, hhidden⟩ := List.forall_mem_cons.mp hhidden
    obtain ⟨f₁, hrun, hready₁⟩ := run_accepted hready hplain₀ hhidden₀ harg
    obtain ⟨f₂, hrun₂, hready₂⟩ := ih hready₁ hplain hhidden hargs
    refine ⟨f₂, ?_, by simpa using hready₂⟩
    rw [List.flatMap_cons, run_append_of_next hrun, hrun₂]

/-- The flag that a faulty argument leaves is that of the argument before it where it is
missing. -/
theorem run_arguments_faulty {good rest : List Decl} {arg : Decl} (hargs : args = good ++ arg :: rest)
    (hgood : ∀ a ∈ good, Accepts link req a) (hfaulty : ¬Accepts link req arg) :
    ∃ f', run link (args.flatMap Method.genArgument) f = .goto f'.invalidParams ∧
      Ready req hidden (!decide (Present req arg) && (b || !good.isEmpty)) f' := by
  subst hargs
  rw [List.flatMap_append, List.flatMap_cons]
  obtain ⟨f₁, hrun, hready₁⟩ := run_arguments_accepted hready
    (fun a ha => hplain a (List.mem_append_left _ ha)) (fun a ha => hhidden a (List.mem_append_left _ ha)) hgood
  have hmem : arg ∈ good ++ arg :: rest := List.mem_append_right _ List.mem_cons_self
  rw [run_append_of_next hrun]
  by_cases hpresent : Present req arg
  · obtain ⟨f₂, hrun₂, hready₂⟩ := run_rejected hready₁ (hplain arg hmem) hpresent hfaulty
    exact ⟨f₂, run_append_of_goto hrun₂, by simpa [hpresent] using hready₂⟩
  · exact ⟨f₁, run_append_of_goto (run_missing hready₁ hpresent), by simpa [hpresent] using hready₁⟩

end Arguments

theorem exists_first_faulty {args : List Decl} (h : ∃ arg ∈ args, ¬Accepts link req arg) :
    ∃ good arg rest, args = good ++ arg :: rest ∧ (∀ a ∈ good, Accepts link req a) ∧ ¬Accepts link req arg := by
  induction args with
  | nil => simp at h
  | cons arg args ih =>
    by_cases harg : Accepts link req arg
    · obtain ⟨arg', hmem, hfaulty⟩ := h
      have hne : arg' ≠ arg := fun heq => hfaulty (heq ▸ harg)
      obtain ⟨good, bad, rest, rfl, hgood, hbad⟩ := ih ⟨arg', (List.mem_cons.mp hmem).resolve_left hne, hfaulty⟩
      exact ⟨arg :: good, bad, rest, rfl, List.forall_mem_cons.mpr ⟨harg, hgood⟩, hbad⟩
    · exact ⟨[], arg, args, rfl, by simp, harg⟩

/-- A declaration may hide the flag of the function, which is not set before. -/
theorem Ready.declare {hidden : Bool} (hready : Ready req hidden false f) (name : String) (cell : Cell V) :
    Ready req (hidden || decide (name = "succeeded")) false (f.set name cell) where
  req_eq := hready.req_eq
  calls_eq := hready.calls_eq
  hidden_eq := by
    by_cases heq : "succeeded" = name
    · simp [Frame.set, heq]
    · simp [Frame.set, heq, hready.hidden_eq, Ne.symm heq]
  succeeded_eq := by simpa [Frame.set] using hready.succeeded_eq

theorem run_declare_arguments (link : Linked V) (args : List Decl) {hidden : Bool} (hready : Ready req hidden false f) :
    ∃ f', run link (args.flatMap fun arg => [.declareObj (arg.id ++ "_obj"), .declare arg.type arg.id]) f = .next f' ∧
      Ready req (hidden || args.any fun arg => arg.id = "succeeded") false f' := by
  induction args generalizing f hidden with
  | nil => exact ⟨f, rfl, by simpa using hready⟩
  | cons arg args ih =>
    have hready₁ := (hready.declare (arg.id ++ "_obj") .unset).declare arg.id
      (if arg.type.list then .values [] else .unset)
    obtain ⟨f', hrun, hready'⟩ := ih hready₁
    refine ⟨f', ?_, ?_⟩
    · rw [List.flatMap_cons, ← hrun]
      rfl
    · simpa [obj_ne_succeeded, Bool.or_assoc] using hready'

theorem run_declarations (link : Linked V) (m : Method) (req : Req) :
    ∃ f', run link m.genDeclarations { req } = .next f' ∧
      Ready req (m.args.any fun arg => arg.id = "succeeded") false f' := by
  have hready : Ready req false false ({ req } : Frame V) := ⟨rfl, rfl, rfl, rfl⟩
  obtain ⟨f₁, hrun, hready₁⟩ := run_declare_arguments link m.args hready
  unfold Method.genDeclarations
  rw [run_append_of_next hrun]
  by_cases hvoid : m.retType.isVoid
  · exact ⟨f₁, by simp [hvoid, run], by simpa using hready₁⟩
  · have hready₂ := hready₁.declare "rval" (if m.retType.list then .values [] else .unset)
    exact ⟨_, by simp only [hvoid]; rfl, by simpa using hready₂⟩

/-- The call of the implementation is the only one of a case. -/
theorem run_call (link : Linked V) (m : Method) (ver : Nat) (hcalls : f.calls = []) :
    ∃ f', run link (m.genCall ver ++ [.gotoEnd]) f = .goto f' ∧
      f'.calls = [⟨m.implFunName ver, m.args, m.args.map fun arg => (f.vars arg.id).getD .unset⟩] := by
  unfold Method.genCall
  by_cases hvoid : m.retType.isVoid
  · rw [if_pos hvoid]
    exact ⟨_, rfl, by simp [hcalls]⟩
  · rw [if_neg hvoid]
    simp only [List.cons_append, List.nil_append, run, Stmt.exec]
    split
    · rename_i h
      split at h
      · cases h
        exact ⟨_, rfl, by simp [hcalls]⟩
      · cases h
        exact ⟨_, rfl, by simp [hcalls]⟩
    · rename_i h
      split at h <;> cases h

/-- The first element that fails is told by what comes before it. -/
theorem first_unique {α : Type} {P : α → Prop} {xs ys zs ws : List α} {x y : α}
    (h : xs ++ x :: ys = zs ++ y :: ws) (hxs : ∀ a ∈ xs, P a) (hx : ¬P x) (hzs : ∀ a ∈ zs, P a) (hy : ¬P y) :
    xs = zs ∧ x = y := by
  induction xs generalizing zs with
  | nil =>
    cases zs with
    | nil => exact ⟨rfl, List.head_eq_of_cons_eq h⟩
    | cons z zs =>
      obtain rfl : x = z := List.head_eq_of_cons_eq h
      exact absurd (hzs x List.mem_cons_self) hx
  | cons a xs ih =>
    cases zs with
    | nil =>
      obtain rfl : a = y := List.head_eq_of_cons_eq h
      exact absurd (hxs a List.mem_cons_self) hy
    | cons z zs =>
      obtain ⟨rfl, htail⟩ := List.cons.inj h
      obtain ⟨rfl, rfl⟩ := ih htail (fun b hb => hxs b (List.mem_cons_of_mem _ hb))
        fun b hb => hzs b (List.mem_cons_of_mem _ hb)
      exact ⟨rfl, rfl⟩

section Case

variable {m : Method} (ver : Nat) (hplain : ∀ arg ∈ m.args, arg.type.list = false)

include hplain

theorem run_body_accepted (h : ∀ arg ∈ m.args, Accepts link req arg) :
    ∃ f' call, run link (m.genBody ver) { req } = .goto f' ∧ f'.calls = [call] ∧
      call.fn = m.implFunName ver ∧ call.args = m.args := by
  obtain ⟨f₁, hrun₁, hready₁⟩ := run_declarations link m req
  obtain ⟨f₂, hrun₂, hready₂⟩ := run_arguments_accepted hready₁ hplain
    (fun arg harg hid => List.any_eq_true.mpr ⟨arg, harg, decide_eq_true hid⟩) h
  obtain ⟨f₃, hrun₃, hcalls⟩ := run_call link m ver hready₂.calls_eq
  refine ⟨f₃, _, ?_, hcalls, rfl, rfl⟩
  rw [Method.genBody, run_append_of_next hrun₁, run_append_of_next hrun₂, hrun₃]

/-- The code that a faulty argument leads to is right exactly if the flag is down. -/
theorem run_body_faulty (h : ∃ arg ∈ m.args, ¬Accepts link req arg) :
    ∃ f', run link (m.genBody ver) { req } = .goto f' ∧ f'.calls = [] ∧ f'.req.err = Error.invalidParams ∧
      (f'.succeeded = false ↔ Refused link req m.args) := by
  obtain ⟨good, arg, rest, hargs, hgood, hfaulty⟩ := exists_first_faulty h
  obtain ⟨f₁, hrun₁, hready₁⟩ := run_declarations link m req
  obtain ⟨f₂, hrun₂, hready₂⟩ := run_arguments_faulty hready₁ hplain
    (fun arg harg hid => List.any_eq_true.mpr ⟨arg, harg, decide_eq_true hid⟩) hargs hgood hfaulty
  refine ⟨f₂.invalidParams, ?_, hready₂.calls_eq, rfl, ?_⟩
  · rw [Method.genBody, run_append_of_next hrun₁, run_append_of_goto hrun₂]
  · have hflag : f₂.succeeded = false ↔ Present req arg ∨ good = [] ∨ ∃ a ∈ m.args, a.id = "succeeded" := by
      simp only [hready₂.succeeded_eq, Bool.and_eq_false_iff]
      simp [List.any_eq_true, or_assoc]
    constructor
    · intro hsucceeded
      exact ⟨good, arg, rest, hargs, hgood, hfaulty, hflag.mp hsucceeded⟩
    · rintro ⟨good', arg', rest', hargs', hgood', hfaulty', hrefused⟩
      obtain ⟨rfl, rfl⟩ := first_unique (hargs.symm.trans hargs') hgood hfaulty hgood' hfaulty'
      exact hflag.mpr hrefused

end Case

/-- The cases of a version: the first of the name is run to its end, and there is no
way past them. -/
theorem dispatch_cases (ver : Nat) {methods : List Method} (hne : methods ≠ []) (rest : List Clause) (f : Frame V) :
    dispatch link (methods.map (·.genServerImplCase ver) ++ .elseReturn :: rest) f =
      (methods.find? fun m => m.implFunName ver = f.req.methodName).map fun m =>
        (run link (m.genBody ver) f).frame := by
  induction methods with
  | nil => exact absurd rfl hne
  | cons m methods ih =>
    by_cases hname : m.implFunName ver = f.req.methodName
    · obtain ⟨f', hrun⟩ := run_genBody link m ver f
      simp [Method.genServerImplCase, dispatch, hname, hrun, Step.frame]
    · cases methods with
      | nil => simp [Method.genServerImplCase, dispatch, hname, Ne.symm hname]
      | cons m' methods =>
        have hnext := ih (List.cons_ne_nil _ _)
        simp only [List.map_cons, List.cons_append, Method.genServerImplCase] at hnext ⊢
        rw [List.find?_cons_of_neg (by simpa using hname), ← hnext, dispatch, if_neg (Ne.symm hname)]
        intro tail htail
        cases htail

/-- The method that a request is dispatched to: only the first version is looked at. -/
def Program.dispatched (p : Program) (name : String) : Option (Version × Method) :=
  p.versions.head?.bind fun v => (v.methods.find? fun m => m.implFunName v.num = name).map fun m => (v, m)

theorem handleReq_eq (link : Linked V) (p : Program) (req : Req) :
    handleReq link p req =
      match p.dispatched req.methodName with
      | none => { code := -1, req, calls := [] }
      | some (v, m) =>
        let f := (run link (m.genBody v.num) { req }).frame
        { code := if f.succeeded then 0 else 1, req := f.req, calls := f.calls } := by
  cases hversions : p.versions with
  | nil => exact absurd hversions p.versions_ne_nil
  | cons v versions =>
    have hserver : p.genServer =
        v.methods.map (·.genServerImplCase v.num) ++ .elseReturn :: versions.flatMap Version.genServerImplCases := by
      simp [Program.genServer, hversions, Version.genServerImplCases]
    unfold handleReq Program.dispatched
    rw [hserver, dispatch_cases v.num v.methods_ne_nil, hversions]
    cases hfind : v.methods.find? fun m => m.implFunName v.num = req.methodName with
    | none => simp [hfind]
    | some m => simp [hfind]

/-- A dispatcher calls the implementation of the method exactly if each of its arguments
is there and accepted, and says so if not. -/
structure Validates (link : Linked V) (p : Program) (v : Version) (m : Method) (req : Req) : Prop where
  invokes : (∃ call ∈ (handleReq link p req).calls, call.fn = m.implFunName v.num ∧ call.args = m.args) ↔
    ∀ arg ∈ m.args, Accepts link req arg
  refuses : (∃ arg ∈ m.args, ¬Accepts link req arg) →
    (handleReq link p req).calls = [] ∧ (handleReq link p req).code = 1 ∧
      (handleReq link p req).req.err = Error.invalidParams

theorem dispatched_name {p : Program} {name : String} {v : Version} {m : Method}
    (h : p.dispatched name = some (v, m)) : v ∈ p.versions ∧ m ∈ v.methods ∧ m.implFunName v.num = name := by
  obtain ⟨v', hhead, h⟩ := Option.bind_eq_some_iff.mp h
  obtain ⟨m', hfind, heq⟩ := Option.map_eq_some_iff.mp h
  obtain ⟨rfl, rfl⟩ := Prod.mk.inj heq
  exact ⟨List.mem_of_mem_head? hhead, List.mem_of_find?_eq_some hfind, by simpa using List.find?_some hfind⟩

section Handled

variable {p : Program} {v : Version} {m : Method} (hdispatched : p.dispatched req.methodName = some (v, m))
  (hplain : ∀ arg ∈ m.args, arg.type.list = false)

include hdispatched hplain

theorem handled_accepted (h : ∀ arg ∈ m.args, Accepts link req arg) :
    ∃ call, (handleReq link p req).calls = [call] ∧ call.fn = req.methodName ∧ call.args = m.args := by
  obtain ⟨f, call, hrun, hcalls, hfn, hargs⟩ := run_body_accepted v.num hplain h
  rw [handleReq_eq, hdispatched]
  exact ⟨call, by simp [hrun, Step.frame, hcalls], hfn.trans (dispatched_name hdispatched).2.2, hargs⟩

theorem handled_faulty (h : ∃ arg ∈ m.args, ¬Accepts link req arg) :
    (handleReq link p req).calls = [] ∧ (handleReq link p req).req.err = Error.invalidParams ∧
      ((handleReq link p req).code = 1 ↔ Refused link req m.args) := by
  obtain ⟨f, hrun, hcalls, herr, hrefused⟩ := run_body_faulty v.num hplain h
  rw [handleReq_eq, hdispatched, ← hrefused]
  refine ⟨by simp [hrun, Step.frame, hcalls], by simp [hrun, Step.frame, herr], ?_⟩
  simp only [hrun, Step.frame]
  cases f.succeeded <;> simp

end Handled

theorem Refused.faulty {args : List Decl} (h : Refused link req args) : ∃ arg ∈ args, ¬Accepts link req arg := by
  obtain ⟨good, arg, rest, rfl, _, hfaulty, _⟩ := h
  exact ⟨arg, List.mem_append_right _ List.mem_cons_self, hfaulty⟩

section Dispatched

variable {p : Program} {v : Version} {m : Method}

theorem not_validates (hdispatched : p.dispatched req.methodName = none) : ¬Validates link p v m req := by
  have hhandled := handleReq_eq link p req
  rw [hdispatched] at hhandled
  rintro ⟨hinvokes, hrefuses⟩
  rw [hhandled] at hinvokes hrefuses
  by_cases hall : ∀ arg ∈ m.args, Accepts link req arg
  · obtain ⟨call, hcall, _⟩ := hinvokes.mpr hall
    exact List.not_mem_nil hcall
  · have hcode := (hrefuses (by simpa using hall)).2.1
    exact absurd hcode (by simp)

variable {v' : Version} {m' : Method} (hdispatched : p.dispatched req.methodName = some (v', m'))
  (hplain : ∀ arg ∈ m'.args, arg.type.list = false)

include hdispatched hplain

theorem validates_iff_of_accepted (hname : req.methodName = m.implFunName v.num)
    (h : ∀ arg ∈ m'.args, Accepts link req arg) :
    Validates link p v m req ↔ m'.args = m.args ∧ ∀ arg ∈ m.args, Accepts link req arg := by
  obtain ⟨call, hcalls, hfn, hargs⟩ := handled_accepted hdispatched hplain h
  constructor
  · rintro ⟨hinvokes, hrefuses⟩
    rw [hcalls] at hinvokes hrefuses
    by_cases hall : ∀ arg ∈ m.args, Accepts link req arg
    · obtain ⟨call', hcall', _, hargs'⟩ := hinvokes.mpr hall
      obtain rfl := List.mem_singleton.mp hcall'
      exact ⟨hargs.symm.trans hargs', hall⟩
    · exact absurd (hrefuses (by simpa using hall)).1 (List.cons_ne_nil _ _)
  · rintro ⟨hsame, hall⟩
    refine ⟨iff_of_true ⟨call, ?_, hfn.trans hname, hargs.trans hsame⟩ hall, ?_⟩
    · rw [hcalls]
      exact List.mem_singleton_self call
    · rintro ⟨arg, harg, hfaulty⟩
      exact absurd (hall arg harg) hfaulty

theorem validates_iff_of_faulty (h : ∃ arg ∈ m'.args, ¬Accepts link req arg) :
    Validates link p v m req ↔ (∃ arg ∈ m.args, ¬Accepts link req arg) ∧ Refused link req m'.args := by
  obtain ⟨hcalls, herr, hcode⟩ := handled_faulty hdispatched hplain h
  constructor
  · rintro ⟨hinvokes, hrefuses⟩
    rw [hcalls] at hinvokes
    by_cases hall : ∀ arg ∈ m.args, Accepts link req arg
    · obtain ⟨call, hcall, _⟩ := hinvokes.mpr hall
      exact absurd hcall List.not_mem_nil
    · have hfaulty : ∃ arg ∈ m.args, ¬Accepts link req arg := by simpa using hall
      exact ⟨hfaulty, hcode.mp (hrefuses hfaulty).2.1⟩
  · rintro ⟨⟨arg, harg, hnot⟩, hrefused⟩
    refine ⟨iff_of_false ?_ fun hall => hnot (hall arg harg), fun _ => ⟨hcalls, hcode.mpr hrefused, herr⟩⟩
    rintro ⟨call, hcall, _⟩
    rw [hcalls] at hcall
    exact List.not_mem_nil hcall

end Dispatched

/-- A dispatcher validates the arguments of a method exactly if the request gets to a
method, and either that is this one and all its arguments are good, or some of them are
not and it is refused as it should be. -/
theorem handleReq_validates_iff (link : Linked V) (p : Program) (v : Version) (m : Method) (req : Req)
    (hname : req.methodName = m.implFunName v.num)
    (hplain : ∀ v' ∈ p.versions, ∀ m' ∈ v'.methods, m'.implFunName v'.num = req.methodName →
      ∀ arg ∈ m'.args, arg.type.list = false) :
    Validates link p v m req ↔ ∃ v' m', p.dispatched req.methodName = some (v', m') ∧
      ((m'.args = m.args ∧ ∀ arg ∈ m.args, Accepts link req arg) ∨
        (∃ arg ∈ m.args, ¬Accepts link req arg) ∧ Refused link req m'.args) := by
  cases hdispatched : p.dispatched req.methodName with
  | none => exact iff_of_false (not_validates hdispatched) (by simp)
  | some found =>
    obtain ⟨v', m'⟩ := found
    obtain ⟨hv', hm', hname'⟩ := dispatched_name hdispatched
    have hplain' := hplain v' hv' m' hm' hname'
    by_cases hall' : ∀ arg ∈ m'.args, Accepts link req arg
    · rw [validates_iff_of_accepted hdispatched hplain' hname hall']
      refine ⟨fun h => ⟨v', m', rfl, Or.inl h⟩, ?_⟩
      rintro ⟨v'', m'', heq, h⟩
      obtain ⟨rfl, rfl⟩ := Prod.mk.inj (Option.some_inj.mp heq)
      rcases h with hsame | ⟨_, hrefused⟩
      · exact hsame
      · obtain ⟨arg, harg, hfaulty⟩ := hrefused.faulty
        exact absurd (hall' arg harg) hfaulty
    · rw [validates_iff_of_faulty hdispatched hplain' (by simpa using hall')]
      refine ⟨fun h => ⟨v', m', rfl, Or.inr h⟩, ?_⟩
      rintro ⟨v'', m'', heq, h⟩
      obtain ⟨rfl, rfl⟩ := Prod.mk.inj (Option.some_inj.mp heq)
      rcases h with ⟨hsame, hall⟩ | hrefused
      · exact absurd (hsame ▸ hall) hall'
      · exact hrefused

/-- A method with two arguments, as a service's IDL would declare it. -/
def setProperty : Method where
  retType := { type := "void" }
  name := "setProperty"
  args := [{ type := { type := "string" }, id := "key" }, { type := { type := "int" }, id := "value" }]

def firstVersion : Version where
  num := 1
  methods := [setProperty]
  methods_ne_nil := by decide

def oneVersion : Program where
  versions := [firstVersion]
  versions_ne_nil := by simp

/-- The builtin deserialisers of the two types, over the objects themselves, and an
implementation that always succeeds. -/
def builtin : Linked Ucl where
  deserialise fn obj :=
    match fn, obj with
    | "wsRPCDeserialisestring", .string s => some (.string s)
    | "wsRPCDeserialiseint", .int n => some (.int n)
    | _, _ => none
  serialise _ v := v
  impl _ req := { succeeded := true, rval := .unset, req }

def requestWith (params : List (String × Ucl)) : Req where
  id := 1
  methodName := "setProperty_v1"
  params := some (.object params)

theorem handleReq_validates_setProperty :
    Validates builtin oneVersion firstVersion setProperty (requestWith [("key", .string "port"), ("value", .int 22)]) :=
  (handleReq_validates_iff _ _ _ _ _ (by decide) (by decide)).mpr
    ⟨firstVersion, setProperty, rfl, Or.inl ⟨rfl, by decide +kernel⟩⟩

theorem handleReq_not_validates :
    ¬Validates builtin oneVersion firstVersion setProperty (requestWith [("key", .string "port")]) := by
  intro h
  have hcode := (h.refuses (by decide +kernel)).2.1
  exact absurd hcode (by decide +kernel)

end ServiceManager.Wsrpcgen
