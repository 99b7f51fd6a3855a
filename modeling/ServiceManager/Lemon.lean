import Mathlib.Control.Basic

namespace ServiceManager.Lemon

/-- What the tables of a parser say to do. The number of a state on its stack is one of them
too: a reduction or acceptance can wait there in place of a state. -/
inductive Action (S R : Type) where
  | shift (state : S)
  | shiftReduce (rule : R)
  | error
  | accept
  | reduce (rule : R)
deriving DecidableEq

/-- An entry of the stack. Of the values, only those of tokens are kept. -/
structure Entry (S R V : Type) where
  stateno : Action S R
  minor : V

/-- The entries above the first one, which is never popped, the last one first. -/
abbrev Stack (S R V : Type) := List (Entry S R V)

/-- `YYSTACKDEPTH`, where the grammar does not set it. -/
def stackDepth : Nat := 100

/-- There is no entry left. -/
def Stack.isFull {S R V : Type} (stack : Stack S R V) : Bool :=
  stackDepth ≤ stack.length + 1

/-- `yy_shift`. Where there is no room, the whole stack is popped. -/
def Stack.shift {S R V : Type} (newState : Action S R) (minor : V) (stack : Stack S R V) : Stack S R V :=
  if stack.isFull then []
  else
    match newState with
    | .shiftReduce rule => { stateno := .reduce rule, minor } :: stack
    | stateno => { stateno, minor } :: stack

/-- A pass of the loop in `yypParser::parse`. -/
inductive Turn (S R V : Type) where
  /-- By the rule, whose right-hand side had these values, the last one first. -/
  | reduced (rule : R) (minors : List V) (stack : Stack S R V)
  | done (stack : Stack S R V)

/-- What is made of a grammar with its states, tokens, nonterminals and rules. -/
structure Tables (S T N R : Type) where
  start : S
  endOfInput : T
  action : S → T → Action S R
  goto : Action S R → N → Action S R
  lhs : R → N
  nrhs : R → Nat

namespace Tables

variable {S T N R V : Type} (t : Tables S T N R)

/-- The state on top, where these are on the stack. -/
def top : List (Action S R) → Action S R
  | [] => .shift t.start
  | stateno :: _ => stateno

/-- `yy_find_shift_action`. -/
def findShiftAction (stateno : Action S R) (token : T) : Action S R :=
  match stateno with
  | .shift state => t.action state token
  | a => a

/-- The states on the stack after a reduction. -/
def reduceStates (rule : R) (states : List (Action S R)) : List (Action S R) :=
  t.goto (t.top (states.drop (t.nrhs rule))) (t.lhs rule) :: states.drop (t.nrhs rule)

variable [Inhabited V]

/-- `yy_reduce`, where there is room. -/
def reduce (rule : R) (stack : Stack S R V) : Stack S R V :=
  let below := stack.drop (t.nrhs rule)
  { stateno := t.goto (t.top (below.map Entry.stateno)) (t.lhs rule), minor := default } :: below

variable [DecidableEq T]

def turn (token : T) (minor : V) (stack : Stack S R V) : Turn S R V :=
  match t.findShiftAction (t.top (stack.map Entry.stateno)) token with
  | .reduce rule =>
    -- only an empty right-hand side needs one more entry
    if t.nrhs rule = 0 && stack.isFull then .done []
    else .reduced rule ((stack.take (t.nrhs rule)).map Entry.minor) (t.reduce rule stack)
  | .accept => .done stack.tail
  | .error => .done (if token = t.endOfInput then [] else stack)
  | newState => .done (stack.shift newState minor)

end Tables

/-- Tables with which the reductions on a token come to an end. -/
structure Parser (S T N R : Type) extends Tables S T N R where
  rank : T → List (Action S R) → Nat
  rank_reduceStates : ∀ token rule states, toTables.findShiftAction (toTables.top states) token = .reduce rule →
    rank token (toTables.reduceStates rule states) < rank token states

namespace Parser

variable {S T N R V : Type} (p : Parser S T N R) [Inhabited V] [DecidableEq T]

theorem rank_turn {token : T} {minor : V} {stack stack' : Stack S R V} {rule : R} {minors : List V}
    (h : p.turn token minor stack = .reduced rule minors stack') :
    p.rank token (stack'.map Entry.stateno) < p.rank token (stack.map Entry.stateno) := by
  unfold Tables.turn at h
  split at h
  next rule' haction =>
    split at h
    · cases h
    · cases h
      have hstates : (p.reduce rule stack).map Entry.stateno = p.reduceStates rule (stack.map Entry.stateno) := by
        simp [Tables.reduce, Tables.reduceStates]
      rw [hstates]
      exact p.rank_reduceStates token rule _ haction
  all_goals cases h

/-- `yypParser::parse`, where the actions of the rules do what `act` says. -/
def parse {m : Type → Type} [Monad m] (act : R → List V → m Unit) (token : T) (minor : V) (stack : Stack S R V) :
    m (Stack S R V) :=
  match _ : p.turn token minor stack with
  | .reduced rule minors stack' => do
    act rule minors
    parse act token minor stack'
  | .done stack' => pure stack'
termination_by p.rank token (stack.map Entry.stateno)
decreasing_by exact p.rank_turn ‹_›

/-- The reductions on a token, and the stack after it. -/
def reductions (token : T) (minor : V) (stack : Stack S R V) : List (R × List V) × Stack S R V :=
  match _ : p.turn token minor stack with
  | .reduced rule minors stack' =>
    let rest := reductions token minor stack'
    ((rule, minors) :: rest.1, rest.2)
  | .done stack' => ([], stack')
termination_by p.rank token (stack.map Entry.stateno)
decreasing_by exact p.rank_turn ‹_›

/-- What the actions do does not change how the parser goes on. -/
theorem parse_eq {m : Type → Type} [Monad m] [LawfulMonad m] (act : R → List V → m Unit) (token : T) (minor : V)
    (stack : Stack S R V) : p.parse act token minor stack =
      ((p.reductions token minor stack).1.forM fun x => act x.1 x.2) >>= fun _ =>
        pure (p.reductions token minor stack).2 := by
  fun_induction p.parse act token minor stack with
  | case1 stack rule minors stack' hturn ih =>
    have hreductions : p.reductions token minor stack =
        ((rule, minors) :: (p.reductions token minor stack').1, (p.reductions token minor stack').2) := by
      rw [reductions, hturn]
    simp only [ih, hreductions, List.forM_eq_forM, List.forM_cons, bind_assoc]
  | case2 stack stack' hturn =>
    have hreductions : p.reductions token minor stack = ([], stack') := by
      rw [reductions, hturn]
    simp only [hreductions, List.forM_eq_forM, List.forM_nil, pure_bind]

end Parser

end ServiceManager.Lemon
