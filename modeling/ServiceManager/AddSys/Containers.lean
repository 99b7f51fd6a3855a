import ServiceManager.AddSys.Effect

namespace ServiceManager

open Sql

namespace AddSys

/-- Where the members of a list of properties are put: below the service, an
instance, or a page. -/
inductive Container (P : Type) where
  | service
  | nst (name : String)
  | page (p : P)
  deriving DecidableEq

section

variable {P : Type}

mutual

/-- The pages of a property with their members, `step` telling where a page of a
given key is found below another. -/
def propPages (step : P → String → P) (p : P) : Property → List (P × List Property)
  | .string _ _ => []
  | .page key properties => (step p key, properties) :: propsPages step (step p key) properties

def propsPages (step : P → String → P) (p : P) : List Property → List (P × List Property)
  | [] => []
  | prop :: rest => propPages step p prop ++ propsPages step p rest

end

/-- A list of properties and the pages below it. -/
def containersAt (step : P → String → P) (root : P) (top : Container P) (props : List Property) :
    List (Container P × List Property) :=
  (top, props) :: (propsPages step root props).map fun c => (.page c.1, c.2)

def Container.map {P Q : Type} (f : P → Q) : Container P → Container Q
  | .service => .service
  | .nst name => .nst name
  | .page p => .page (f p)

/-- All lists of properties of a class. -/
def classContainers (step : P → String → P) (root : P) (klass : Class) : List (Container P × List Property) :=
  containersAt step root .service klass.properties ++
    klass.instances.flatMap fun inst => containersAt step root (.nst inst.name) inst.properties

section

variable {Q : Type} {step : P → String → P} {step' : Q → String → Q} {f : P → Q}

mutual

/-- A map that respects where pages are found takes pages to pages. -/
theorem propPages_map (hf : ∀ p key, f (step p key) = step' (f p) key) (p : P) (prop : Property) :
    propPages step' (f p) prop = (propPages step p prop).map fun c => (f c.1, c.2) := by
  cases prop with
  | string key value => rfl
  | page key properties => rw [propPages, propPages, List.map_cons, ← hf, propsPages_map hf]

theorem propsPages_map (hf : ∀ p key, f (step p key) = step' (f p) key) (p : P) (props : List Property) :
    propsPages step' (f p) props = (propsPages step p props).map fun c => (f c.1, c.2) := by
  cases props with
  | nil => rfl
  | cons prop rest => rw [propsPages, propsPages, List.map_append, propPages_map hf, propsPages_map hf]

end

theorem containersAt_map (hf : ∀ p key, f (step p key) = step' (f p) key) (root : P) (top : Container P)
    (props : List Property) : containersAt step' (f root) (top.map f) props =
      (containersAt step root top props).map fun c => (c.1.map f, c.2) := by
  rw [containersAt, containersAt, propsPages_map hf, List.map_cons, List.map_map, List.map_map]
  rfl

theorem classContainers_map (hf : ∀ p key, f (step p key) = step' (f p) key) (root : P) (klass : Class) :
    classContainers step' (f root) klass =
      (classContainers step root klass).map fun c => (c.1.map f, c.2) := by
  rw [classContainers, classContainers, List.map_append, List.map_flatMap, ← containersAt_map hf]
  congr 2
  funext inst
  rw [← containersAt_map hf]
  rfl

end

end

section

variable (affinity : String → SqlValue) (find : GroupKey → Option Nat) (findInst : InstanceKey → Option Nat) (svc : Nat)

/-- The group of a page of the given key below another page. -/
def pageGroup (page : Nat) (key : String) : Nat :=
  (find ⟨groupParent svc page, affinity key⟩).getD 0

/-- The page number that `importProp` has when it imports the members of a container. -/
def Container.pageId : Container Nat → Nat
  | .service => 0
  | .nst _ => 0
  | .page p => p

def Container.parent : Container Nat → PropertyParent
  | .service => .service svc
  | .nst name => .nst ((findInst ⟨svc, name⟩).getD 0)
  | .page p => .group p

def memberContent (page : Nat) : Property → Content
  | .string _ value => .string value
  | .page key _ => .page (pageGroup affinity find svc page key)

/-- The entries of a list of properties without those of the pages below. -/
def memberEntries (parent : PropertyParent) (page : Nat) (props : List Property) : List Entry :=
  props.map fun prop => ⟨parent, prop.key, memberContent affinity find svc page prop⟩

/-- The entries of the pages of a list of properties. -/
def pageEntries (pages : List (Nat × List Property)) : List Entry :=
  pages.flatMap fun c => memberEntries affinity find svc (.group c.1) c.1 c.2

def Container.entries (c : Container Nat × List Property) : List Entry :=
  memberEntries affinity find svc (c.1.parent findInst svc) c.1.pageId c.2

end

section

variable {affinity : String → SqlValue} {find : GroupKey → Option Nat} {findInst : InstanceKey → Option Nat}
  {svc inst : Nat}

/-- The entries of a list of properties are those of the list itself and those
of each of its pages, interleaved. -/
structure LaidOut (affinity : String → SqlValue) (find : GroupKey → Option Nat) (svc : Nat) (own : List Entry)
    (pages : List (Nat × List Property)) (es : List Entry) : Prop where
  top : own.Sublist es
  page : ∀ c ∈ pages, (memberEntries affinity find svc (.group c.1) c.1 c.2).Sublist es
  perm : es.Perm (own ++ pageEntries affinity find svc pages)

theorem propertyParent_page {page : Nat} (h : page ≠ 0) : propertyParent svc inst page = .group page := by
  simp [propertyParent, h]

theorem LaidOut.append {own own' es es' : List Entry} {pages pages' : List (Nat × List Property)}
    (h : LaidOut affinity find svc own pages es) (h' : LaidOut affinity find svc own' pages' es') :
    LaidOut affinity find svc (own ++ own') (pages ++ pages') (es ++ es') where
  top := h.top.append h'.top
  page := by
    intro c hc
    rcases List.mem_append.mp hc with hc | hc
    · exact (h.page c hc).trans (List.sublist_append_left es es')
    · exact (h'.page c hc).trans (List.sublist_append_right es es')
  perm := by
    have hpages : pageEntries affinity find svc (pages ++ pages') =
        pageEntries affinity find svc pages ++ pageEntries affinity find svc pages' := by
      simp [pageEntries]
    rw [hpages]
    refine (h.perm.append h'.perm).trans ?_
    rw [List.append_assoc, List.append_assoc]
    refine List.Perm.append_left own ?_
    rw [← List.append_assoc, ← List.append_assoc]
    exact List.Perm.append_right _ List.perm_append_comm

mutual

/-- A property is laid out in its container, and the members of a page in one of their own. -/
theorem flattenProp_laidOut (hfind : ∀ k id, find k = some id → id ≠ 0) {page : Nat} {prop : Property}
    {es : List Entry} (h : flattenProp affinity find svc inst page prop = some es) :
    LaidOut affinity find svc (memberEntries affinity find svc (propertyParent svc inst page) page [prop])
      (propPages (pageGroup affinity find svc) page prop) es := by
  cases prop with
  | string key value =>
    simp only [flattenProp, Option.some.injEq] at h
    subst h
    exact ⟨List.Sublist.refl _, by simp [propPages], by simp [propPages, pageEntries, memberEntries, memberContent,
      Property.key]⟩
  | page key properties =>
    obtain ⟨pageID, hpage, members, hmembers, rfl⟩ := flattenProp_page_eq_some h
    have hlaid := flattenProps_laidOut hfind hmembers
    have hstep : pageGroup affinity find svc page key = pageID := by simp [pageGroup, hpage]
    rw [propertyParent_page (hfind _ _ hpage)] at hlaid
    have hown : memberEntries affinity find svc (propertyParent svc inst page) page [.page key properties] =
        [⟨propertyParent svc inst page, key, .page pageID⟩] := by
      simp [memberEntries, memberContent, Property.key, hstep]
    rw [hown, propPages, hstep]
    constructor
    · exact List.sublist_append_right _ _
    · intro c hc
      rcases List.mem_cons.mp hc with rfl | hc
      · exact hlaid.top.trans (List.sublist_append_left _ _)
      · exact (hlaid.page c hc).trans (List.sublist_append_left _ _)
    · refine List.perm_append_comm.trans (List.Perm.append_left _ ?_)
      simpa [pageEntries] using hlaid.perm

theorem flattenProps_laidOut (hfind : ∀ k id, find k = some id → id ≠ 0) {page : Nat} {props : List Property}
    {es : List Entry} (h : flattenProps affinity find svc inst page props = some es) :
    LaidOut affinity find svc (memberEntries affinity find svc (propertyParent svc inst page) page props)
      (propsPages (pageGroup affinity find svc) page props) es := by
  cases props with
  | nil =>
    simp only [flattenProps, Option.some.injEq] at h
    subst h
    exact ⟨List.Sublist.refl _, by simp [propsPages], by simp [propsPages, pageEntries, memberEntries]⟩
  | cons prop rest =>
    obtain ⟨fs, hfs, gs, hgs, rfl⟩ := flattenProps_cons_eq_some h
    exact (flattenProp_laidOut hfind hfs).append (flattenProps_laidOut hfind hgs)

end

/-- The entries of a class are those of its containers, interleaved. -/
structure ClassLaidOut (affinity : String → SqlValue) (find : GroupKey → Option Nat)
    (findInst : InstanceKey → Option Nat) (svc : Nat) (containers : List (Container Nat × List Property))
    (es : List Entry) : Prop where
  sublist : ∀ c ∈ containers, (Container.entries affinity find findInst svc c).Sublist es
  perm : es.Perm (containers.flatMap (Container.entries affinity find findInst svc))

theorem ClassLaidOut.append {es es' : List Entry} {cs cs' : List (Container Nat × List Property)}
    (h : ClassLaidOut affinity find findInst svc cs es) (h' : ClassLaidOut affinity find findInst svc cs' es') :
    ClassLaidOut affinity find findInst svc (cs ++ cs') (es ++ es') where
  sublist := by
    intro c hc
    rcases List.mem_append.mp hc with hc | hc
    · exact (h.sublist c hc).trans (List.sublist_append_left es es')
    · exact (h'.sublist c hc).trans (List.sublist_append_right es es')
  perm := by
    rw [List.flatMap_append]
    exact h.perm.append h'.perm

/-- The containers of one list of top-level properties. -/
theorem LaidOut.containers {props : List Property} {es : List Entry} {top : Container Nat} (htop : top.pageId = 0)
    (h : LaidOut affinity find svc (memberEntries affinity find svc (top.parent findInst svc) 0 props)
      (propsPages (pageGroup affinity find svc) 0 props) es) :
    ClassLaidOut affinity find findInst svc (containersAt (pageGroup affinity find svc) 0 top props) es := by
  have hown : Container.entries affinity find findInst svc (top, props) =
      memberEntries affinity find svc (top.parent findInst svc) 0 props := by
    rw [Container.entries, htop]
  constructor
  · intro c hc
    rcases List.mem_cons.mp hc with rfl | hc
    · rw [hown]
      exact h.top
    · obtain ⟨page, hpage, rfl⟩ := List.mem_map.mp hc
      exact h.page page hpage
  · rw [containersAt, List.flatMap_cons, hown, List.flatMap_map]
    exact h.perm

theorem flattenInstances_laidOut (hfind : ∀ k id, find k = some id → id ≠ 0)
    (hfindInst : ∀ k id, findInst k = some id → id ≠ 0) {insts : List Instance} {es : List Entry}
    (h : flattenInstances affinity find findInst svc insts = some es) :
    ClassLaidOut affinity find findInst svc
      (insts.flatMap fun inst => containersAt (pageGroup affinity find svc) 0 (.nst inst.name) inst.properties) es := by
  induction insts generalizing es with
  | nil =>
    simp only [flattenInstances, Option.some.injEq] at h
    subst h
    exact ⟨by simp, by simp⟩
  | cons inst rest ih =>
    obtain ⟨instId, hid, fs, hfs, gs, hgs, rfl⟩ := flattenInstances_cons_eq_some h
    have hparent : propertyParent svc instId 0 = (Container.nst inst.name).parent findInst svc := by
      simp [propertyParent, hfindInst _ _ hid, Container.parent, hid]
    have hlaid := flattenProps_laidOut hfind hfs
    rw [hparent] at hlaid
    exact (hlaid.containers rfl).append (ih hgs)

theorem flattenClass_laidOut (hfind : ∀ k id, find k = some id → id ≠ 0)
    (hfindInst : ∀ k id, findInst k = some id → id ≠ 0) {klass : Class} {es : List Entry}
    (h : flattenClass affinity find findInst svc klass = some es) :
    ClassLaidOut affinity find findInst svc (classContainers (pageGroup affinity find svc) 0 klass) es := by
  obtain ⟨fs, hfs, gs, hgs, rfl⟩ := flattenClass_eq_some h
  have hlaid : LaidOut affinity find svc
      (memberEntries affinity find svc (Container.service.parent findInst svc) 0 klass.properties)
      (propsPages (pageGroup affinity find svc) 0 klass.properties) fs := flattenProps_laidOut hfind hfs
  exact (hlaid.containers rfl).append (flattenInstances_laidOut hfind hfindInst hgs)

theorem flattenInstances_found {insts : List Instance} {es : List Entry}
    (h : flattenInstances affinity find findInst svc insts = some es) :
    ∀ inst ∈ insts, ∃ instId, findInst ⟨svc, inst.name⟩ = some instId := by
  induction insts generalizing es with
  | nil => simp
  | cons inst rest ih =>
    obtain ⟨instId, hid, -, -, gs, hgs, -⟩ := flattenInstances_cons_eq_some h
    rw [List.forall_mem_cons]
    exact ⟨⟨instId, hid⟩, ih hgs⟩

theorem flattenClass_found {klass : Class} {es : List Entry}
    (h : flattenClass affinity find findInst svc klass = some es) :
    ∀ inst ∈ klass.instances, ∃ instId, findInst ⟨svc, inst.name⟩ = some instId := by
  obtain ⟨-, -, gs, hgs, -⟩ := flattenClass_eq_some h
  exact flattenInstances_found hgs

end

end AddSys

end ServiceManager
