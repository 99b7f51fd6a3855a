import ServiceManager.AddSys.Import
import ServiceManager.Ucl

namespace ServiceManager

namespace AddSys

/-- A loop that appends to a list. A run that fails an assertion or makes a
string from NULL yields nothing. -/
def processEach {α β : Type} (f : α → Option (List β)) : List α → Option (List β)
  | [] => some []
  | x :: rest => (f x).bind fun ys => (processEach f rest).map fun zs => ys ++ zs

/-- The inner loop of `processDeps`. The strings it makes for the instance and for
the direction are not added to the page. -/
def processDep (depType : Option String) (uclDep : Ucl) : Option (List Property) :=
  uclDep.toString?.bind fun nstName =>
    depType.map fun depType => [.page ("dependency_" ++ depType ++ nstName) []]

def processDeps (key : Option String) (obj : Ucl) (_isDependents : Bool) : Option (List Property) :=
  processEach (fun arr => processEach (fun dep => processDep arr.1 dep.2) (arr.2.iterate arr.1)) (obj.iterate key)

mutual

/-- The test of `type` is the wrong way round: the page of a method gets no type,
and any other page makes a string from NULL. -/
def processPage (key type : Option String) : Ucl → Option Property
  | .object members =>
    if type.isNone then none
    else key.bind fun key => (processMembers members).map fun properties => .page key properties
  | _ => none

/-- The loop of `processPage`: what is not a string is a page without a type. -/
def processMembers : List (String × Ucl) → Option (List Property)
  | [] => some []
  | (key, .string s) :: rest => (processMembers rest).map fun props => .string key s :: props
  | (key, member) :: rest =>
    (processPage (some key) none member).bind fun page => (processMembers rest).map fun props => page :: props

end

def processProp (key : Option String) : Ucl → Option (List Property)
  | .string s => key.map fun key => [.string key s]
  | obj => (processPage key none obj).map fun page => [page]

/-- The methods of a class or an instance, one page each. -/
def processMethods (key : Option String) (obj : Ucl) : Option (List Property) :=
  processEach (fun page => (processPage page.1 (some "method") page.2).map fun page => [page]) (obj.iterate key)

/-- Keys that an instance does not know are reported and left out. -/
def processInst (key : Option String) (inst : Ucl) : Option Instance :=
  key.bind fun name =>
    (processEach (fun elt => elt.1.bind fun key =>
      match key with
      | "depends" => processDeps elt.1 elt.2 false
      | "dependents" => processDeps elt.1 elt.2 true
      | "methods" => processMethods elt.1 elt.2
      | _ => some []) (inst.iterate key)).map fun properties => { name, properties }

/-- The body of the loop in `process`. -/
def processElement (cls : Class) (elt : Option String × Ucl) : Option Class :=
  elt.1.bind fun key =>
    match key with
    | "name" => elt.2.toString?.map fun name => { cls with name }
    | "depends" =>
      (processDeps elt.1 elt.2 false).map fun props => { cls with properties := cls.properties ++ props }
    | "dependents" =>
      (processDeps elt.1 elt.2 true).map fun props => { cls with properties := cls.properties ++ props }
    | "instances" =>
      (processEach (fun inst => (processInst inst.1 inst.2).map fun inst => [inst]) (elt.2.iterate elt.1)).map
        fun insts => { cls with instances := cls.instances ++ insts }
    | "methods" =>
      (processMethods elt.1 elt.2).map fun props => { cls with properties := cls.properties ++ props }
    | _ => (processProp elt.1 elt.2).map fun props => { cls with properties := cls.properties ++ props }

/-- The class that a bundle describes. -/
def process (uclCls : Ucl) : Option Class :=
  (uclCls.iterate none).foldlM processElement ⟨"", [], []⟩

end AddSys

end ServiceManager
