import Mathlib.Data.List.Basic

namespace ServiceManager.Grammar

variable {τ α : Type}

/-- A phrase of a grammar whose productions compute a value. It derives the tokens that
stand before the rest. -/
abbrev Phrase (τ α : Type) : Type := List τ → α → List τ → Prop

/-- A list of one item at least, as a left-recursive phrase: `L ::= item | L sep item`. -/
inductive List1 (sep : List τ) (item : Phrase τ α) : Phrase τ (List α)
  | one {ts a rest} : item ts a rest → List1 sep item ts [a] rest
  | snoc {ts as mid a rest} : List1 sep item ts as (sep ++ mid) → item mid a rest → List1 sep item ts (as ++ [a]) rest

/-- `L ::= | list` -/
inductive Opt (list : Phrase τ (List α)) : Phrase τ (List α)
  | none {ts} : Opt list ts [] ts
  | some {ts as rest} : list ts as rest → Opt list ts as rest

/-- A phrase with a token after it. -/
abbrev Before (t : τ) (phrase : Phrase τ α) : Phrase τ α := fun ts a rest => phrase ts a (t :: rest)

section LeftRecursion

variable {sep : List τ} {item : Phrase τ α} {ts mid rest : List τ} {a : α} {as : List α}

theorem List1.cons (h : item ts a (sep ++ mid)) (hlist : List1 sep item mid as rest) :
    List1 sep item ts (a :: as) rest := by
  induction hlist with
  | one hitem => exact .snoc (.one h) hitem
  | snoc _ hitem ih => exact .snoc (ih h) hitem

/-- A list is its first item, and what comes after the first separator is a list again. -/
theorem List1.cases_cons (h : List1 sep item ts as rest) :
    (∃ a, as = [a] ∧ item ts a rest) ∨
      ∃ a as' mid, as = a :: as' ∧ item ts a (sep ++ mid) ∧ List1 sep item mid as' rest := by
  induction h with
  | one hitem => exact Or.inl ⟨_, rfl, hitem⟩
  | snoc _ hlast ih =>
    obtain ⟨a, rfl, hitem⟩ | ⟨a, as', mid', rfl, hitem, hlist⟩ := ih
    · exact Or.inr ⟨a, _, _, rfl, hitem, .one hlast⟩
    · exact Or.inr ⟨a, _, mid', rfl, hitem, .snoc hlist hlast⟩

end LeftRecursion

/-- A parser that looks at one token at a time. It leaves the tokens that it has not read. -/
abbrev Parser (τ α : Type) : Type := List τ → Option (α × List τ)

section Parsers

variable [DecidableEq τ]

/-- What comes after the separator, if an item begins there. -/
def next (sep : List τ) (first : τ → Bool) (ts : List τ) : Option (List τ) :=
  if sep <+: ts ∧ (ts.drop sep.length).head?.any first then some (ts.drop sep.length) else none

/-- Items for as long as another one begins, with fuel for each. -/
def list1 (sep : List τ) (first : τ → Bool) (p : Parser τ α) : Nat → Parser τ (List α)
  | 0, _ => none
  | n + 1, ts => (p ts).bind fun (a, rest) =>
    match next sep first rest with
    | none => some ([a], rest)
    | some mid => (list1 sep first p n mid).map fun (as, rest) => (a :: as, rest)

/-- The phrase with a token after it. -/
def before (t : τ) (p : Parser τ α) : Parser τ α := fun ts =>
  (p ts).bind fun (a, rest) => if rest.head? = some t then some (a, rest.tail) else none

theorem before_eq_some {t : τ} {p : Parser τ α} {ts rest : List τ} {a : α} :
    before t p ts = some (a, rest) ↔ p ts = some (a, t :: rest) := by
  unfold before
  constructor
  · intro hread
    obtain ⟨⟨a', rest'⟩, hp, hrest⟩ := Option.bind_eq_some_iff.mp hread
    obtain ⟨hhead, hpair⟩ := Option.ite_none_right_eq_some.mp hrest
    obtain ⟨rfl, rfl⟩ := Prod.mk.inj (Option.some.inj hpair)
    obtain ⟨rest, rfl⟩ := List.head?_eq_some_iff.mp hhead
    exact hp
  · intro hp
    rw [hp]
    simp

end Parsers

def optionally (first : τ → Bool) (p : Parser τ (List α)) : Parser τ (List α) := fun ts =>
  if ts.head?.any first then p ts else some ([], ts)

/-- What begins with one of some tokens does not begin with one of others. -/
theorem head_disjoint {f g : τ → Bool} {ts : List τ} (h : ts.head?.any f = true) (hfg : ∀ t, f t = true → g t = false) :
    ts.head?.any g = false := by
  cases ts with
  | nil => rfl
  | cons t ts => exact hfg t h

/-- The parser reads the phrase off texts of a length up to `n`. The phrase derives no empty
text, begins with certain tokens, and is told from what `ends` says can follow it. -/
structure Reads (n : Nat) (first : τ → Bool) (ends : List τ → Prop) (phrase : Phrase τ α) (p : Parser τ α) : Prop where
  sound : ∀ ts a rest, ts.length ≤ n → p ts = some (a, rest) → phrase ts a rest
  complete : ∀ ts a rest, ts.length ≤ n → ends rest → phrase ts a rest → p ts = some (a, rest)
  starts : ∀ ts a rest, ts.length ≤ n → phrase ts a rest → ts.head?.any first = true
  shorter : ∀ ts a rest, ts.length ≤ n → phrase ts a rest → rest.length < ts.length

namespace Reads

variable {n : Nat} {first : τ → Bool} {ends : List τ → Prop} {phrase item : Phrase τ α} {p : Parser τ α}

/-- A text that a phrase derives has one value. -/
theorem unique {ts rest rest' : List τ} {a a' : α} (h : Reads n first ends phrase p) (hn : ts.length ≤ n)
    (hends : ends rest)
    (hends' : ends rest') (ha : phrase ts a rest) (ha' : phrase ts a' rest') : a = a' ∧ rest = rest' := by
  have hread := h.complete ts a rest hn hends ha
  rw [h.complete ts a' rest' hn hends' ha'] at hread
  obtain ⟨rfl, rfl⟩ := Prod.mk.inj (Option.some.inj hread)
  exact ⟨rfl, rfl⟩

section Lists

theorem ends_mono {ends' : List τ → Prop} (h : Reads n first ends phrase p) (hends : ∀ rest, ends' rest → ends rest) :
    Reads n first ends' phrase p :=
  { h with complete := fun ts a rest hn hrest => h.complete ts a rest hn (hends rest hrest) }

variable [DecidableEq τ] {sep : List τ}

/-- With a token after it that tells its end, a phrase is told from anything. -/
theorem before (h : Reads n first ends phrase p) {t : τ} (hends : ∀ rest, ends (t :: rest)) :
    Reads n first (fun _ => True) (Before t phrase) (Grammar.before t p) where
  sound ts a rest hn hread := h.sound _ _ _ hn (before_eq_some.mp hread)
  complete ts a rest hn _ hphrase := before_eq_some.mpr (h.complete _ _ _ hn (hends rest) hphrase)
  starts ts a rest hn hphrase := h.starts _ _ _ hn hphrase
  shorter ts a rest hn hphrase := by
    have hlt := h.shorter _ _ _ hn hphrase
    rw [List.length_cons] at hlt
    omega

theorem next_eq_some {ts mid : List τ} (h : next sep first ts = some mid) :
    ts = sep ++ mid ∧ mid.head?.any first = true := by
  unfold next at h
  obtain ⟨⟨⟨rest, rfl⟩, hfirst⟩, hmid⟩ := Option.ite_none_right_eq_some.mp h
  rw [List.drop_left] at hfirst hmid
  obtain rfl := Option.some.inj hmid
  exact ⟨rfl, hfirst⟩

theorem next_append {mid : List τ} (h : mid.head?.any first = true) : next sep first (sep ++ mid) = some mid := by
  simp [next, h]

theorem next_nil {ts : List τ} : next [] first ts = none ↔ ts.head?.any first = false := by
  simp [next]

theorem next_of_head {t : τ} {ts : List τ} (h : ts.head? ≠ some t) : next [t] first ts = none := by
  refine if_neg fun hprefix => h ?_
  obtain ⟨rest, rfl⟩ := hprefix.1
  rfl

variable (h : Reads n first ends item p) (hsep : ∀ mid, mid.head?.any first = true → ends (sep ++ mid))

include h

omit [DecidableEq τ] in
theorem list1_starts {ts rest : List τ} {as : List α} (hn : ts.length ≤ n) (hlist : List1 sep item ts as rest) :
    ts.head?.any first = true ∧ rest.length < ts.length := by
  induction hlist with
  | one hitem => exact ⟨h.starts _ _ _ hn hitem, h.shorter _ _ _ hn hitem⟩
  | snoc _ hitem ih =>
    obtain ⟨hfirst, hmid⟩ := ih hn
    rw [List.length_append] at hmid
    have hlt := h.shorter _ _ _ (by omega) hitem
    exact ⟨hfirst, by omega⟩

/-- By induction on the fuel, one item for each turn. -/
theorem list1_sound (k : Nat) (hk : k ≤ n) (ts : List τ) (as : List α) (rest : List τ) (hts : ts.length ≤ k)
    (hread : Grammar.list1 sep first p k ts = some (as, rest)) : List1 sep item ts as rest := by
  induction k generalizing ts as with
  | zero => cases hread
  | succ k ih =>
    obtain ⟨⟨a, mid⟩, hp, hrest⟩ := Option.bind_eq_some_iff.mp hread
    have hitem := h.sound _ _ _ (by omega) hp
    cases hnext : next sep first mid with
    | none =>
      simp only [hnext] at hrest
      obtain ⟨rfl, rfl⟩ := Prod.mk.inj (Option.some.inj hrest)
      exact .one hitem
    | some mid' =>
      simp only [hnext] at hrest
      obtain ⟨⟨as', rest'⟩, hlist, hpair⟩ := Option.map_eq_some_iff.mp hrest
      obtain ⟨rfl, rfl⟩ := Prod.mk.inj hpair
      obtain ⟨rfl, _⟩ := next_eq_some hnext
      have hlt := h.shorter _ _ _ (by omega) hitem
      rw [List.length_append] at hlt
      exact .cons hitem (ih (by omega) mid' as' (by omega) hlist)

include hsep

theorem list1_complete (k : Nat) (hk : k ≤ n) (ts : List τ) (as : List α) (rest : List τ) (hts : ts.length ≤ k)
    (hends : ends rest) (hlast : next sep first rest = none) (hlist : List1 sep item ts as rest) :
    Grammar.list1 sep first p k ts = some (as, rest) := by
  induction k generalizing ts as with
  | zero =>
    have hlt := (h.list1_starts (by omega) hlist).2
    omega
  | succ k ih =>
    obtain ⟨a, rfl, hitem⟩ | ⟨a, as', mid, rfl, hitem, hmore⟩ := hlist.cases_cons
    · have hp := h.complete _ _ _ (by omega) hends hitem
      simp [Grammar.list1, hp, hlast]
    · have hlt := h.shorter _ _ _ (by omega) hitem
      rw [List.length_append] at hlt
      have hfirst := (h.list1_starts (by omega) hmore).1
      have hp := h.complete _ _ _ (by omega) (hsep mid hfirst) hitem
      have hrest := ih (by omega) mid as' (by omega) hmore
      simp [Grammar.list1, hp, next_append hfirst, hrest]

/-- A list is told from what can follow its items, unless another item comes next. -/
theorem list1 : Reads n first (fun rest => ends rest ∧ next sep first rest = none) (List1 sep item)
    (Grammar.list1 sep first p n) where
  sound ts as rest hn hread := h.list1_sound n (Nat.le_refl n) ts as rest hn hread
  complete ts as rest hn hends hlist := h.list1_complete hsep n (Nat.le_refl n) ts as rest hn hends.1 hends.2 hlist
  starts _ _ _ hn hlist := (h.list1_starts hn hlist).1
  shorter _ _ _ hn hlist := (h.list1_starts hn hlist).2

omit hsep in
/-- A list whose items have a token after each. -/
theorem terminated {t : τ} (hends : ∀ rest, ends (t :: rest)) :
    Reads n first (fun rest => rest.head?.any first = false) (List1 [] (Before t item))
      (Grammar.list1 [] first (Grammar.before t p) n) :=
  ((h.before hends).list1 fun _ _ => trivial).ends_mono fun _ hrest => ⟨trivial, next_nil.mpr hrest⟩

end Lists

section Opt

variable {list : Phrase τ (List α)} {p : Parser τ (List α)} (h : Reads n first ends list p) {ts rest : List τ}
    {as : List α}

include h

theorem optionally_sound (hn : ts.length ≤ n) (hread : optionally first p ts = some (as, rest)) :
    Opt list ts as rest := by
  unfold optionally at hread
  split at hread
  · exact .some (h.sound _ _ _ hn hread)
  · obtain ⟨rfl, rfl⟩ := Prod.mk.inj (Option.some.inj hread)
    exact .none

theorem optionally_complete (hn : ts.length ≤ n) (hends : ends rest) (hlast : rest.head?.any first = false)
    (hopt : Opt list ts as rest) : optionally first p ts = some (as, rest) := by
  cases hopt with
  | none => exact if_neg (by simp [hlast])
  | some hlist =>
    rw [optionally, if_pos (h.starts _ _ _ hn hlist)]
    exact h.complete _ _ _ hn hends hlist

theorem optionally_shorter (hn : ts.length ≤ n) (hopt : Opt list ts as rest) : rest.length ≤ ts.length := by
  cases hopt with
  | none => exact Nat.le_refl _
  | some hlist => exact Nat.le_of_lt (h.shorter _ _ _ hn hlist)

end Opt

end Reads

/-- One value at least, each with a property. -/
def Items (Q : α → Prop) (as : List α) : Prop :=
  as ≠ [] ∧ ∀ a ∈ as, Q a

/-- The values that are derived from tokens with a property have one, on texts of a length up to `n`. -/
def Keeps (n : Nat) (P : τ → Prop) (phrase : Phrase τ α) (Q : α → Prop) : Prop :=
  ∀ ts a rest, ts.length ≤ n → (∀ t ∈ ts, P t) → phrase ts a rest → Q a ∧ rest <:+ ts

/-- A value with a property is derived from what is printed for it, in tokens with a property. -/
structure Prints (P : τ → Prop) (phrase : Phrase τ α) (Q : α → Prop) (print : α → List τ) : Prop where
  derives : ∀ a, Q a → ∀ rest, phrase (print a ++ rest) a rest
  tokens : ∀ a, Q a → ∀ t ∈ print a, P t

section Values

variable {n : Nat} {P : τ → Prop} {Q : α → Prop} {sep : List τ} {phrase item : Phrase τ α} {print : α → List τ}

/-- What a phrase says of the tokens that it leaves. -/
theorem Keeps.rest {ts rest : List τ} {a : α} (h : Keeps n P phrase Q) (hn : ts.length ≤ n) (hts : ∀ t ∈ ts, P t)
    (hphrase : phrase ts a rest) : Q a ∧ rest.length ≤ n ∧ (∀ t ∈ rest, P t) ∧ rest <:+ ts := by
  obtain ⟨ha, hrest⟩ := h ts a rest hn hts hphrase
  exact ⟨ha, Nat.le_trans hrest.length_le hn, fun t ht => hts t (hrest.subset ht), hrest⟩

theorem Keeps.list1 (h : Keeps n P item Q) : Keeps n P (List1 sep item) (Items Q) := by
  intro ts as rest hn hts hlist
  induction hlist with
  | one hitem =>
    obtain ⟨ha, hrest⟩ := h _ _ _ hn hts hitem
    exact ⟨⟨List.cons_ne_nil _ _, List.forall_mem_singleton.mpr ha⟩, hrest⟩
  | snoc _ hitem ih =>
    obtain ⟨⟨_, has⟩, hmid⟩ := ih hn hts
    have hmid := (List.suffix_append sep _).trans hmid
    obtain ⟨ha, hrest⟩ := h _ _ _ (Nat.le_trans hmid.length_le hn) (fun t ht => hts t (hmid.subset ht)) hitem
    exact ⟨⟨by simp, List.forall_mem_append.mpr ⟨has, List.forall_mem_singleton.mpr ha⟩⟩, hrest.trans hmid⟩

theorem Keeps.before (h : Keeps n P phrase Q) (t : τ) : Keeps n P (Before t phrase) Q := by
  intro ts a rest hn hts hphrase
  obtain ⟨ha, hrest⟩ := h _ _ _ hn hts hphrase
  exact ⟨ha, (List.suffix_cons t rest).trans hrest⟩

theorem Keeps.opt {list : Phrase τ (List α)} (h : Keeps n P list (Items Q)) :
    Keeps n P (Opt list) fun as => ∀ a ∈ as, Q a := by
  intro ts as rest hn hts hopt
  cases hopt with
  | none => exact ⟨List.forall_mem_nil _, List.suffix_rfl⟩
  | some hlist =>
    obtain ⟨has, hrest⟩ := h _ _ _ hn hts hlist
    exact ⟨has.2, hrest⟩

theorem Prints.before (h : Prints P phrase Q print) {t : τ} (ht : P t) :
    Prints P (Before t phrase) Q fun a => print a ++ [t] where
  derives a ha rest := by
    rw [List.append_assoc]
    exact h.derives a ha (t :: rest)
  tokens a ha := List.forall_mem_append.mpr ⟨h.tokens a ha, List.forall_mem_singleton.mpr ht⟩

/-- Items with separators between them print a list of at least one. -/
theorem Prints.list1 (h : Prints P item Q print) (hsep : ∀ t ∈ sep, P t) :
    Prints P (List1 sep item) (Items Q) fun as => sep.intercalate (as.map print) where
  derives as has rest := by
    obtain ⟨hne, has⟩ := has
    induction as with
    | nil => exact absurd rfl hne
    | cons a as ih =>
      obtain ⟨ha, has⟩ := List.forall_mem_cons.mp has
      cases as with
      | nil => exact .one (by simpa using h.derives a ha rest)
      | cons b as =>
        have hlist := ih (List.cons_ne_nil _ _) has
        rw [List.map_cons, List.map_cons, List.intercalate_cons_cons, List.append_assoc, List.append_assoc]
        exact .cons (h.derives a ha _) hlist
  tokens as has := by
    replace has := has.2
    induction as with
    | nil => exact List.forall_mem_nil _
    | cons a as ih =>
      obtain ⟨ha, has⟩ := List.forall_mem_cons.mp has
      cases as with
      | nil => simpa using h.tokens a ha
      | cons b as =>
        rw [List.map_cons, List.map_cons, List.intercalate_cons_cons]
        exact List.forall_mem_append.mpr ⟨List.forall_mem_append.mpr ⟨h.tokens a ha, hsep⟩, ih has⟩

/-- A list whose items have nothing between them. -/
theorem Prints.many (h : Prints P item Q print) : Prints P (List1 [] item) (Items Q) (List.flatMap print) := by
  have hprint : (fun as => [].intercalate (as.map print)) = List.flatMap print := by
    funext as
    induction as with
    | nil => rfl
    | cons a as ih =>
      rw [List.flatMap_cons, ← ih]
      cases as <;> simp
  rw [← hprint]
  exact h.list1 (List.forall_mem_nil _)

theorem Prints.opt {list : Phrase τ (List α)} {print : List α → List τ} (h : Prints P list (Items Q) print)
    (hnil : print [] = []) : Prints P (Opt list) (fun as => ∀ a ∈ as, Q a) print where
  derives as has rest := by
    cases as with
    | nil =>
      rw [hnil]
      exact .none
    | cons a as => exact .some (h.derives _ ⟨List.cons_ne_nil _ _, has⟩ rest)
  tokens as has := by
    cases as with
    | nil =>
      rw [hnil]
      exact List.forall_mem_nil _
    | cons a as => exact h.tokens _ ⟨List.cons_ne_nil _ _, has⟩

end Values

end ServiceManager.Grammar
