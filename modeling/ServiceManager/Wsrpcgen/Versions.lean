import Mathlib.Algebra.GroupWithZero.Nat
import ServiceManager.Wsrpcgen.Validation

namespace ServiceManager.Wsrpcgen

open Wsrpc

/-- The name of a method declared in version `ver`, as the number is written. -/
def Method.declaredName (m : Method) (ver : Nat) : String :=
  m.name ++ "_v" ++ toString ver

/-- The digits after the last `_v` of a name are the version. -/
theorem declaredName_inj {m m' : Method} {ver ver' : Nat} (h : m.declaredName ver = m'.declaredName ver') :
    m.name = m'.name ∧ ver = ver' := by
  have hlists : m.name.toList ++ ['_', 'v'] ++ Nat.toDigits 10 ver =
      m'.name.toList ++ ['_', 'v'] ++ Nat.toDigits 10 ver' := by
    have hchars := congrArg String.toList h
    simpa [Method.declaredName, String.toList_append, Nat.toString_eq_ofList_toDigits] using hchars
  have hdigits : ∀ n, ∀ c ∈ (Nat.toDigits 10 n).reverse, c.isDigit = true := by
    intro n c hc
    exact Nat.isDigit_of_mem_toDigits (by decide) (by decide) (List.mem_reverse.mp hc)
  have htake : ∀ (name : List Char) n,
      (name ++ ['_', 'v'] ++ Nat.toDigits 10 n).reverse.takeWhile Char.isDigit = (Nat.toDigits 10 n).reverse := by
    intro name n
    rw [List.reverse_append, List.takeWhile_append_of_pos (hdigits n)]
    simp
  have hsame : Nat.toDigits 10 ver = Nat.toDigits 10 ver' := by
    have hreverse := congrArg (fun l => (l.reverse.takeWhile Char.isDigit).reverse) hlists
    simpa only [htake, List.reverse_reverse] using hreverse
  constructor
  · rw [hsame] at hlists
    exact String.toList_inj.mp (List.append_cancel_right (List.append_cancel_right hlists))
  · rw [← Nat.ofDigitChars_ten_toDigits (n := ver), hsame, Nat.ofDigitChars_ten_toDigits]

/-- The number in a method's name is that of its version, unless an `int` is too small
for it. -/
theorem implFunName_eq_declaredName_iff {m : Method} {ver : Nat} :
    m.implFunName ver = m.declaredName ver ↔ ver < 2 ^ 31 := by
  constructor
  · intro h
    have hnum : toString (Machine.int32 ver) = toString ver := by
      have hchars := congrArg String.toList h
      simp only [Method.implFunName, Method.declaredName, String.toList_append] at hchars
      exact String.toList_inj.mp (List.append_cancel_left hchars)
    have hlt := Machine.int32_lt ver
    cases hint : Machine.int32 ver with
    | ofNat n =>
      rw [hint] at hnum hlt
      change toString n = toString ver at hnum
      have hdigits : Nat.toDigits 10 n = Nat.toDigits 10 ver := by
        have hchars := congrArg String.toList hnum
        simpa [Nat.toString_eq_ofList_toDigits] using hchars
      have hsame : n = ver := by
        rw [← Nat.ofDigitChars_ten_toDigits (n := n), hdigits, Nat.ofDigitChars_ten_toDigits]
      have hcast : Int.ofNat n = n := rfl
      omega
    | negSucc n =>
      rw [hint] at hnum
      -- no digit is a minus sign
      have hminus : '-' ∈ (toString ver).toList := by
        rw [← hnum]
        change '-' ∈ ("-" ++ toString (n + 1)).toList
        simp
      rw [Nat.toString_eq_ofList_toDigits, String.toList_ofList] at hminus
      exact absurd (Nat.isDigit_of_mem_toDigits (by decide) (by decide) hminus) (by decide)
  · intro h
    unfold Method.implFunName Method.declaredName
    rw [Machine.int32_natCast h]
    rfl

section Run

variable {V : Type} (link : Linked V)

/-- The cases that a run of `handleReq` enters, by their places among its clauses. -/
def casesRun : Nat → List Clause → Frame V → List Nat
  | _, [], _ => []
  | i, .case name body :: rest, f =>
    if f.req.methodName = name then
      i ::
        match run link body f with
        | .goto _ => []
        | .next f' => casesRun (i + 1) rest { f' with vars := fun _ => none }
    else
      match rest with
      | .elseReturn :: _ => []
      | _ => casesRun (i + 1) rest f
  | i, .elseReturn :: rest, f => casesRun (i + 1) rest f

/-- Of the cases of a version, the first of the name is entered, and nothing after them. -/
theorem casesRun_cases (ver i : Nat) {methods : List Method} (hne : methods ≠ []) (rest : List Clause) (f : Frame V) :
    casesRun link i (methods.map (·.genServerImplCase ver) ++ .elseReturn :: rest) f =
      ((methods.findIdx? fun m => m.implFunName ver = f.req.methodName).map fun j => i + j).toList := by
  induction methods generalizing i with
  | nil => exact absurd rfl hne
  | cons m methods ih =>
    by_cases hname : m.implFunName ver = f.req.methodName
    · obtain ⟨f', hrun⟩ := run_genBody link m ver f
      simp [Method.genServerImplCase, casesRun, hname, hrun, List.findIdx?_cons]
    · cases methods with
      | nil => simp [Method.genServerImplCase, casesRun, hname, Ne.symm hname, List.findIdx?_cons]
      | cons m' methods =>
        have hnext := ih (i + 1) (List.cons_ne_nil _ _)
        have hfind : ((m :: m' :: methods).findIdx? fun m => m.implFunName ver = f.req.methodName) =
            ((m' :: methods).findIdx? fun m => m.implFunName ver = f.req.methodName).map (· + 1) := by
          rw [List.findIdx?_cons, decide_eq_false hname]
          rfl
        simp only [List.map_cons, List.cons_append, Method.genServerImplCase] at hnext ⊢
        rw [casesRun, if_neg (Ne.symm hname), hnext, hfind, Option.map_map]
        · simp only [Function.comp_def, Nat.add_assoc, Nat.add_comm 1]
        · intro tail htail
          cases htail

end Run

namespace Program

variable (p : Program)

/-- The place of the first case of the version at place `a`. -/
def offset (a : Nat) : Nat :=
  ((p.versions.take a).map fun v => v.methods.length + 1).sum

/-- Some version declares a method of the name. -/
def Declares (name : String) : Prop :=
  ∃ v ∈ p.versions, ∃ m ∈ v.methods, name = m.declaredName v.num

/-- The name is declared in the first version, whose number fits an `int`, or it is
declared in no version and generated for none of the first. -/
def Reaches (name : String) : Prop :=
  ∃ v, p.versions.head? = some v ∧
    ((v.num < 2 ^ 31 ∧ ∃ m ∈ v.methods, name = m.declaredName v.num) ∨
      (¬p.Declares name ∧ ∀ m ∈ v.methods, name ≠ m.implFunName v.num))

variable {p} {v : Version} {m : Method} {a b : Nat}

theorem offset_succ (hv : p.versions.head? = some v) (a : Nat) : v.methods.length < p.offset (a + 1) := by
  obtain ⟨versions, hversions⟩ := List.head?_eq_some_iff.mp hv
  simp only [offset, hversions, List.take_succ_cons, List.map_cons, List.sum_cons]
  omega

theorem casesRun_genServer {V : Type} (link : Linked V) (hv : p.versions.head? = some v) (req : Req) :
    casesRun link 0 p.genServer { req } =
      (v.methods.findIdx? fun m => m.implFunName v.num = req.methodName).toList := by
  obtain ⟨versions, hversions⟩ := List.head?_eq_some_iff.mp hv
  have hserver : p.genServer =
      v.methods.map (·.genServerImplCase v.num) ++ .elseReturn :: versions.flatMap Version.genServerImplCases := by
    simp [genServer, hversions, Version.genServerImplCases]
  rw [hserver, casesRun_cases link v.num 0 v.methods_ne_nil]
  simp

theorem handleReq_code_iff {V : Type} (link : Linked V) (hv : p.versions.head? = some v) (req : Req) :
    (handleReq link p req).code = -1 ↔ ∀ m ∈ v.methods, req.methodName ≠ m.implFunName v.num := by
  rw [handleReq_eq, dispatched, hv, Option.bind_some]
  cases hfind : v.methods.find? fun m => m.implFunName v.num = req.methodName with
  | none =>
    refine iff_of_true rfl fun m hm hname => ?_
    exact absurd hname.symm (by simpa using List.find?_eq_none.mp hfind m hm)
  | some m =>
    refine iff_of_false ?_ fun hnone => ?_
    · simp only [Option.map_some]
      split <;> decide
    · have hname : m.implFunName v.num = req.methodName := by simpa using List.find?_some hfind
      exact hnone m (List.mem_of_find?_eq_some hfind) hname.symm

end Program

/-- A dispatcher runs the case of the method that is asked for and no other, and returns
-1 exactly if there is none. -/
structure Dispatches {V : Type} (link : Linked V) (p : Program) (req : Req) : Prop where
  runs : ∀ a b v m, p.versions[a]? = some v → v.methods[b]? = some m → req.methodName = m.declaredName v.num →
    casesRun link 0 p.genServer { req } = [p.offset a + b]
  unknown : (handleReq link p req).code = -1 ↔ ¬p.Declares req.methodName

section Dispatches

variable {V : Type} {link : Linked V} {p : Program} {req : Req} {v : Version} {m : Method} {a b : Nat}

/-- A method whose case is the one that is run is declared in the first version. -/
theorem casesRun_eq_place (hfirst : p.versions.head? = some v)
    (hv : ∃ v', p.versions[a]? = some v' ∧ v'.methods[b]? = some m)
    (hrun : casesRun link 0 p.genServer { req } = [p.offset a + b]) :
    a = 0 ∧ m ∈ v.methods ∧ m.implFunName v.num = req.methodName := by
  rw [Program.casesRun_genServer link hfirst] at hrun
  have hfind : (v.methods.findIdx? fun m => m.implFunName v.num = req.methodName) = some (p.offset a + b) := by
    cases hfound : v.methods.findIdx? fun m => m.implFunName v.num = req.methodName <;> simp_all
  obtain ⟨hlt, hname, _⟩ := List.findIdx?_eq_some_iff_getElem.mp hfind
  obtain ⟨v', hv, hm⟩ := hv
  cases a with
  | zero =>
    obtain rfl : v' = v := by
      rw [List.head?_eq_getElem?, hv] at hfirst
      exact Option.some_inj.mp hfirst
    have hb : v'.methods[b]? = some v'.methods[p.offset 0 + b] := by
      have hoffset : p.offset 0 + b = b := by simp [Program.offset]
      rw [List.getElem?_eq_some_iff]
      simp only [hoffset]
      exact ⟨by omega, trivial⟩
    obtain rfl := Option.some_inj.mp (hm.symm.trans hb)
    exact ⟨rfl, List.getElem_mem _, by simpa using hname⟩
  | succ a =>
    have hoffset := Program.offset_succ hfirst a
    omega

/-- The methods that versions of distinct numbers declare, with distinct names in each,
have distinct names. -/
theorem declared_place (hversions : (p.versions.map Version.num).Nodup)
    (hmethods : ∀ v ∈ p.versions, (v.methods.map Method.name).Nodup) {v' : Version} {m' : Method} {a' b' : Nat}
    (hv : p.versions[a]? = some v) (hm : v.methods[b]? = some m) (hv' : p.versions[a']? = some v')
    (hm' : v'.methods[b']? = some m') (hname : m.declaredName v.num = m'.declaredName v'.num) : a = a' ∧ b = b' := by
  obtain ⟨hmname, hnum⟩ := declaredName_inj hname
  have ha : a = a' := by
    have hlt : a < (p.versions.map Version.num).length := by
      rw [List.length_map]
      exact (List.getElem?_eq_some_iff.mp hv).1
    exact (List.getElem?_inj hlt hversions).mp (by simp [hv, hv', hnum])
  subst ha
  obtain rfl := Option.some_inj.mp (hv.symm.trans hv')
  have hlt : b < (v.methods.map Method.name).length := by
    rw [List.length_map]
    exact (List.getElem?_eq_some_iff.mp hm).1
  exact ⟨rfl, (List.getElem?_inj hlt (hmethods v (List.mem_of_getElem? hv))).mp (by simp [hm, hm', hmname])⟩

/-- Of methods of distinct names, the case of the one that is asked for is run. -/
theorem casesRun_of_declared (hfirst : p.versions.head? = some v) (hnum : v.num < 2 ^ 31)
    (hmethods : (v.methods.map Method.name).Nodup) (hm : v.methods[b]? = some m)
    (hname : req.methodName = m.declaredName v.num) : casesRun link 0 p.genServer { req } = [b] := by
  rw [Program.casesRun_genServer link hfirst]
  obtain ⟨hlt, rfl⟩ := List.getElem?_eq_some_iff.mp hm
  have hfind : (v.methods.findIdx? fun m => m.implFunName v.num = req.methodName) = some b := by
    rw [List.findIdx?_eq_some_iff_getElem]
    refine ⟨hlt, by simpa [hname] using implFunName_eq_declaredName_iff.mpr hnum, fun j hj hfound => ?_⟩
    rw [decide_eq_true_eq, implFunName_eq_declaredName_iff.mpr hnum, hname] at hfound
    have hsame := (declaredName_inj hfound).1
    have hindex := (List.getElem?_inj (by simp; omega) hmethods).mp
      (show (v.methods.map Method.name)[j]? = (v.methods.map Method.name)[b]? by
        rw [List.getElem?_map, List.getElem?_map, List.getElem?_eq_getElem (Nat.lt_trans hj hlt), hm]
        exact congrArg some hsame)
    omega
  rw [hfind]
  rfl

/-- A dispatcher does what it is for exactly if the name is one of the first version. -/
theorem handleReq_dispatches_iff (link : Linked V) (p : Program) (req : Req)
    (hversions : (p.versions.map Version.num).Nodup)
    (hmethods : ∀ v ∈ p.versions, (v.methods.map Method.name).Nodup) :
    Dispatches link p req ↔ p.Reaches req.methodName := by
  obtain ⟨v, hfirst⟩ : ∃ v, p.versions.head? = some v := by
    cases hversions' : p.versions with
    | nil => exact absurd hversions' p.versions_ne_nil
    | cons v versions => exact ⟨v, rfl⟩
  have hv : p.versions[0]? = some v := by rw [← List.head?_eq_getElem?, hfirst]
  have hmem : v ∈ p.versions := List.mem_of_getElem? hv
  constructor
  · intro h
    refine ⟨v, hfirst, ?_⟩
    by_cases hdeclares : p.Declares req.methodName
    · obtain ⟨v', hv', m, hm, hname⟩ := id hdeclares
      obtain ⟨a, ha⟩ := List.getElem?_of_mem hv'
      obtain ⟨b, hb⟩ := List.getElem?_of_mem hm
      obtain ⟨rfl, hmem', hfun⟩ := casesRun_eq_place hfirst ⟨v', ha, hb⟩ (h.runs a b v' m ha hb hname)
      obtain rfl := Option.some_inj.mp (hv.symm.trans ha)
      exact Or.inl ⟨implFunName_eq_declaredName_iff.mp (hfun.trans hname), m, hmem', hname⟩
    · exact Or.inr ⟨hdeclares, (Program.handleReq_code_iff link hfirst req).mp (h.unknown.mpr hdeclares)⟩
  · rintro ⟨v', hfirst', hreaches⟩
    obtain rfl := Option.some_inj.mp (hfirst.symm.trans hfirst')
    rcases hreaches with ⟨hnum, m, hm, hname⟩ | ⟨hnone, hcase⟩
    · obtain ⟨b, hb⟩ := List.getElem?_of_mem hm
      constructor
      · intro a' b' v' m' hv' hm' hname'
        obtain ⟨rfl, rfl⟩ := declared_place hversions hmethods hv hb hv' hm' (hname.symm.trans hname')
        rw [casesRun_of_declared hfirst hnum (hmethods v hmem) hb hname]
        simp [Program.offset]
      · rw [Program.handleReq_code_iff link hfirst]
        refine iff_of_false (fun hcase => ?_) (not_not_intro ⟨v, hmem, m, hm, hname⟩)
        exact hcase m hm (hname.trans (implFunName_eq_declaredName_iff.mpr hnum).symm)
    · constructor
      · intro a b v' m hv' hm hname
        exact absurd ⟨v', List.mem_of_getElem? hv', m, List.mem_of_getElem? hm, hname⟩ hnone
      · rw [Program.handleReq_code_iff link hfirst]
        exact iff_of_true hcase hnone

end Dispatches

/-- A later version of the program, with a method of its own. -/
def secondVersion : Version where
  num := 2
  methods := [{ retType := { type := "void" }, name := "removeProperty", args := [] }]
  methods_ne_nil := by decide

def twoVersions : Program where
  versions := [firstVersion, secondVersion]
  versions_ne_nil := by simp

theorem handleReq_dispatches_setProperty : Dispatches builtin twoVersions (requestWith []) :=
  (handleReq_dispatches_iff builtin twoVersions (requestWith []) (by decide) (by decide)).mpr
    ⟨firstVersion, rfl, Or.inl ⟨by decide, setProperty, by decide, by decide⟩⟩

theorem handleReq_not_dispatches :
    ¬Dispatches builtin twoVersions { id := 1, methodName := "removeProperty_v2", params := none } := by
  intro h
  have hrun := h.runs 1 0 secondVersion _ rfl rfl (by decide)
  exact absurd hrun (by decide)

end ServiceManager.Wsrpcgen
