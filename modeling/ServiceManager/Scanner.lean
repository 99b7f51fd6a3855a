import ServiceManager.Regex

namespace ServiceManager.Scanner

/-- A rule of a scanner, for a start condition, and perhaps only at the beginning of a line. -/
structure Rule (α S K : Type) where
  start : S
  bol : Bool
  pattern : Regex α
  action : K

/-- What a scanner matches: by the action of a rule, or one symbol where no rule matches.
`rest` is what comes after it. -/
structure Lexeme (α K : Type) where
  action : Option K
  text : List α
  rest : List α

/-- The length that a rule matches, of one symbol at least. -/
def Rule.longest {α S K : Type} [DecidableEq S] (rule : Rule α S K) (start : S) (bol : Bool) (s : List α) :
    Option Nat :=
  if rule.start = start ∧ (rule.bol = true → bol = true) then (rule.pattern.longest s).filter (0 < ·) else none

/-- The longest of some lengths with actions, and of several that are as long the first. -/
def pick {K : Type} : List (Option Nat × K) → Option (Nat × K)
  | [] => none
  | (none, _) :: entries => pick entries
  | (some n, action) :: entries =>
    match pick entries with
    | some (m, action') => if n < m then some (m, action') else some (n, action)
    | none => some (n, action)

section Pick

variable {K : Type} {entries : List (Option Nat × K)} {n : Nat} {action : K}

theorem pick_eq_none_iff : pick entries = none ↔ ∀ e ∈ entries, e.1 = none := by
  induction entries with
  | nil => simp [pick]
  | cons e entries ih =>
    obtain ⟨length, action⟩ := e
    cases length with
    | none => simp [pick, ih]
    | some n =>
      rw [pick]
      split
      · split <;> simp
      · simp

/-- What is picked is one of the entries, and none is longer. -/
theorem pick_spec (h : pick entries = some (n, action)) :
    (some n, action) ∈ entries ∧ ∀ e ∈ entries, ∀ m, e.1 = some m → m ≤ n := by
  induction entries generalizing n action with
  | nil => cases h
  | cons e entries ih =>
    obtain ⟨length, action'⟩ := e
    cases length with
    | none =>
      obtain ⟨hmem, hmax⟩ := ih h
      exact ⟨List.mem_cons_of_mem _ hmem, List.forall_mem_cons.mpr ⟨nofun, hmax⟩⟩
    | some k =>
      rw [pick] at h
      split at h
      · rename_i m action'' hpick
        obtain ⟨hmem, hmax⟩ := ih hpick
        split at h
        · rename_i hlt
          obtain ⟨rfl, rfl⟩ := Prod.mk.inj (Option.some.inj h)
          refine ⟨List.mem_cons_of_mem _ hmem, List.forall_mem_cons.mpr ⟨fun m hm => ?_, hmax⟩⟩
          obtain rfl := Option.some.inj hm
          exact Nat.le_of_lt hlt
        · rename_i hge
          obtain ⟨rfl, rfl⟩ := Prod.mk.inj (Option.some.inj h)
          refine ⟨List.mem_cons_self, List.forall_mem_cons.mpr ⟨fun m hm => ?_, fun e he m hm => ?_⟩⟩
          · exact Nat.le_of_eq (Option.some.inj hm).symm
          · exact Nat.le_trans (hmax e he m hm) (Nat.le_of_not_lt hge)
      · rename_i hpick
        obtain ⟨rfl, rfl⟩ := Prod.mk.inj (Option.some.inj h)
        refine ⟨List.mem_cons_self, List.forall_mem_cons.mpr ⟨fun m hm => ?_, fun e he m hm => ?_⟩⟩
        · exact Nat.le_of_eq (Option.some.inj hm).symm
        · rw [pick_eq_none_iff.mp hpick e he] at hm
          cases hm

/-- What is picked is longer than the entries before it, and no shorter than those after. -/
theorem pick_split (h : pick entries = some (n, action)) :
    ∃ pre post, entries = pre ++ (some n, action) :: post ∧ (∀ e ∈ pre, ∀ m, e.1 = some m → m < n) ∧
      ∀ e ∈ post, ∀ m, e.1 = some m → m ≤ n := by
  induction entries generalizing n action with
  | nil => cases h
  | cons e entries ih =>
    obtain ⟨length, action'⟩ := e
    cases length with
    | none =>
      obtain ⟨pre, post, rfl, hpre, hpost⟩ := ih h
      exact ⟨(none, action') :: pre, post, rfl, List.forall_mem_cons.mpr ⟨nofun, hpre⟩, hpost⟩
    | some k =>
      have hspec := (pick_spec h).2
      rw [pick] at h
      split at h
      · rename_i m action'' hpick
        split at h
        · rename_i hlt
          obtain ⟨rfl, rfl⟩ := Prod.mk.inj (Option.some.inj h)
          obtain ⟨pre, post, rfl, hpre, hpost⟩ := ih hpick
          refine ⟨(some k, action') :: pre, post, rfl, List.forall_mem_cons.mpr ⟨fun m hm => ?_, hpre⟩, hpost⟩
          obtain rfl := Option.some.inj hm
          exact hlt
        · obtain ⟨rfl, rfl⟩ := Prod.mk.inj (Option.some.inj h)
          exact ⟨[], entries, rfl, nofun, fun e he => hspec e (List.mem_cons_of_mem _ he)⟩
      · obtain ⟨rfl, rfl⟩ := Prod.mk.inj (Option.some.inj h)
        exact ⟨[], entries, rfl, nofun, fun e he => hspec e (List.mem_cons_of_mem _ he)⟩

theorem pick_of_split {pre post : List (Option Nat × K)} (hpre : ∀ e ∈ pre, ∀ m, e.1 = some m → m < n)
    (hpost : ∀ e ∈ post, ∀ m, e.1 = some m → m ≤ n) : pick (pre ++ (some n, action) :: post) = some (n, action) := by
  induction pre with
  | nil =>
    rw [List.nil_append, pick]
    split
    · rename_i m action' hpick
      have hle := hpost _ (pick_spec hpick).1 m rfl
      rw [if_neg (Nat.not_lt.mpr hle)]
    · rfl
  | cons e pre ih =>
    obtain ⟨he, hothers⟩ := List.forall_mem_cons.mp hpre
    obtain ⟨length, action'⟩ := e
    cases length with
    | none => exact ih hothers
    | some k =>
      rw [List.cons_append, pick, ih hothers]
      exact if_pos (he k rfl)

end Pick

end Scanner

/-- Rules, the start condition that an action goes to, and the end of a line. -/
structure Scanner (α S K : Type) where
  rules : List (Scanner.Rule α S K)
  begin : K → S → S
  newline : α

namespace Scanner

variable {α S K : Type} [DecidableEq S]

def entries (scanner : Scanner α S K) (start : S) (bol : Bool) (s : List α) : List (Option Nat × K) :=
  scanner.rules.map fun rule => (rule.longest start bol s, rule.action)

def lexeme (scanner : Scanner α S K) (start : S) (bol : Bool) (a : α) (s : List α) : Lexeme α K :=
  match pick (scanner.entries start bol (a :: s)) with
  | some (n, action) => { action := some action, text := a :: s.take (n - 1), rest := s.drop (n - 1) }
  | none => { action := none, text := [a], rest := s }

theorem length_rest_le (scanner : Scanner α S K) (start : S) (bol : Bool) (a : α) (s : List α) :
    (scanner.lexeme start bol a s).rest.length ≤ s.length := by
  unfold lexeme
  split
  · exact (List.drop_sublist _ s).length_le
  · exact Nat.le_refl _

/-- The lexemes of a text, to its end. -/
def scan [DecidableEq α] (scanner : Scanner α S K) (start : S) (bol : Bool) : List α → List (Lexeme α K)
  | [] => []
  | a :: s =>
    let l := scanner.lexeme start bol a s
    l :: scanner.scan (l.action.elim start fun action => scanner.begin action start)
      (l.text.getLast? = some scanner.newline) l.rest
termination_by s => s.length
decreasing_by exact Nat.lt_succ_of_le (scanner.length_rest_le start bol a s)

theorem Rule.longest_eq_some {rule : Rule α S K} {start : S} {bol : Bool} {s : List α} {n : Nat}
    (h : rule.longest start bol s = some n) : rule.start = start ∧ 0 < n ∧ rule.pattern.longest s = some n := by
  unfold Rule.longest at h
  split at h
  · rename_i hrule
    obtain ⟨hn, hpos⟩ := Option.filter_eq_some_iff.mp h
    exact ⟨hrule.1, of_decide_eq_true hpos, hn⟩
  · cases h

theorem Rule.longest_eq {rule : Rule α S K} {start : S} {bol : Bool} {s : List α} {n : Nat}
    (hstart : rule.start = start)
    (hbol : rule.bol = false) (hn : rule.pattern.longest s = some n) (hpos : 0 < n) :
    rule.longest start bol s = some n := by
  rw [Rule.longest, if_pos ⟨hstart, fun h => absurd h (by rw [hbol]; exact Bool.false_ne_true)⟩, hn, Option.filter_some,
    if_pos (decide_eq_true hpos)]

theorem Rule.first_of_longest {rule : Rule α S K} {start : S} {bol : Bool} {a : α} {s : List α} {n : Nat}
    (h : rule.longest start bol (a :: s) = some n) : rule.pattern.first a = true := by
  obtain ⟨_, hpos, hn⟩ := Rule.longest_eq_some h
  obtain ⟨m, rfl⟩ := Nat.exists_eq_add_one.mpr hpos
  exact Regex.first_of_mem (Regex.longest_mem hn).2

section Lexeme

variable {scanner : Scanner α S K} {start : S} {bol : Bool} {a : α} {s : List α}

theorem take_cons_sub {n : Nat} (h : 0 < n) :
    a :: s.take (n - 1) = (a :: s).take n ∧ s.drop (n - 1) = (a :: s).drop n := by
  obtain ⟨m, rfl⟩ := Nat.exists_eq_add_of_lt h
  simp

/-- A rule that matches is taken where none matches more, and no other as much. -/
theorem lexeme_eq {rule : Rule α S K} {n : Nat} (hrule : rule ∈ scanner.rules)
    (hn : rule.longest start bol (a :: s) = some n)
    (hmax : ∀ rule' ∈ scanner.rules, ∀ m, rule'.longest start bol (a :: s) = some m →
      m ≤ n ∧ (m = n → rule'.action = rule.action)) :
    scanner.lexeme start bol a s =
      { action := some rule.action, text := (a :: s).take n, rest := (a :: s).drop n } := by
  have hentry : (some n, rule.action) ∈ scanner.entries start bol (a :: s) :=
    List.mem_map.mpr ⟨rule, hrule, by rw [hn]⟩
  unfold lexeme
  split
  · rename_i m action hpick
    obtain ⟨hmem, hle⟩ := pick_spec hpick
    obtain ⟨rule', hrule', heq⟩ := List.mem_map.mp hmem
    obtain ⟨hm, rfl⟩ := Prod.mk.inj heq
    obtain ⟨hmn, haction⟩ := hmax rule' hrule' m hm
    obtain rfl := Nat.le_antisymm hmn (hle _ hentry n rfl)
    obtain ⟨htake, hdrop⟩ := take_cons_sub (a := a) (s := s) (Rule.longest_eq_some hm).2.1
    rw [haction rfl, htake, hdrop]
  · rename_i hpick
    cases pick_eq_none_iff.mp hpick _ hentry

theorem lexeme_action {rule : Rule α S K} {n : Nat} (hrule : rule ∈ scanner.rules)
    (hn : rule.longest start bol (a :: s) = some n) :
    ∃ action, (scanner.lexeme start bol a s).action = some action := by
  unfold lexeme
  split
  · exact ⟨_, rfl⟩
  · rename_i hpick
    have hnone := pick_eq_none_iff.mp hpick _ (List.mem_map_of_mem hrule)
    rw [hn] at hnone
    cases hnone

/-- The rule of a lexeme matches no less than the others. -/
theorem lexeme_spec {action : K} (h : (scanner.lexeme start bol a s).action = some action) :
    ∃ rule ∈ scanner.rules, ∃ n, rule.longest start bol (a :: s) = some n ∧ rule.action = action ∧
      scanner.lexeme start bol a s = { action := some action, text := (a :: s).take n, rest := (a :: s).drop n } ∧
      ∀ rule' ∈ scanner.rules, ∀ m, rule'.longest start bol (a :: s) = some m → m ≤ n := by
  unfold lexeme at h ⊢
  split at h
  · rename_i n action' hpick
    obtain rfl := Option.some.inj h
    obtain ⟨hmem, hle⟩ := pick_spec hpick
    obtain ⟨rule, hrule, heq⟩ := List.mem_map.mp hmem
    obtain ⟨hn, rfl⟩ := Prod.mk.inj heq
    obtain ⟨htake, hdrop⟩ := take_cons_sub (a := a) (s := s) (Rule.longest_eq_some hn).2.1
    refine ⟨rule, hrule, n, hn, rfl, ?_, fun rule' hrule' m hm => ?_⟩
    · rw [htake, hdrop]
    · exact hle _ (List.mem_map_of_mem hrule') m hm
  · cases h

/-- A word is taken as a whole by the first rule that matches it. -/
theorem lexeme_whole {pre post : List (Rule α S K)} {rule : Rule α S K} (hrules : scanner.rules = pre ++ rule :: post)
    (hs : rule.longest start bol (a :: s) = some (a :: s).length)
    (hpre : ∀ rule' ∈ pre, rule'.longest start bol (a :: s) ≠ some (a :: s).length) :
    scanner.lexeme start bol a s = { action := some rule.action, text := a :: s, rest := [] } := by
  have hle : ∀ rule' : Rule α S K, ∀ m, rule'.longest start bol (a :: s) = some m → m ≤ (a :: s).length :=
    fun rule' m hm => (Regex.longest_mem (Rule.longest_eq_some hm).2.2).1
  have hpick : pick (scanner.entries start bol (a :: s)) = some ((a :: s).length, rule.action) := by
    rw [entries, hrules, List.map_append, List.map_cons, hs]
    apply pick_of_split (List.forall_mem_map.mpr fun rule' h m hm => ?_)
      (List.forall_mem_map.mpr fun rule' _ => hle rule')
    exact Nat.lt_of_le_of_ne (hle rule' m hm) fun heq => hpre rule' h (heq ▸ hm)
  rw [lexeme, hpick]
  simp

/-- What comes after a text makes no difference to it where no rule sees it. -/
theorem lexeme_append {t : List α}
    (hend : ∀ rule ∈ scanner.rules, rule.longest start bol (a :: (s ++ t)) = rule.longest start bol (a :: s)) :
    scanner.lexeme start bol a (s ++ t) =
      { scanner.lexeme start bol a s with rest := (scanner.lexeme start bol a s).rest ++ t } := by
  have hentries : scanner.entries start bol (a :: (s ++ t)) = scanner.entries start bol (a :: s) :=
    List.map_congr_left fun rule hrule => by rw [hend rule hrule]
  unfold lexeme
  rw [hentries]
  cases hpick : pick (scanner.entries start bol (a :: s)) with
  | none => rfl
  | some entry =>
    obtain ⟨n, action⟩ := entry
    obtain ⟨rule, _, hrule⟩ := List.mem_map.mp (pick_spec hpick).1
    have hle := (Regex.longest_mem (Rule.longest_eq_some (Prod.mk.inj hrule).1).2.2).1
    rw [List.length_cons] at hle
    have hn : n - 1 ≤ s.length := by omega
    simp only [List.take_append_of_le_length hn, List.drop_append_of_le_length hn]

theorem lexeme_split {action : K} (h : (scanner.lexeme start bol a s).action = some action) :
    ∃ pre rule post n, scanner.rules = pre ++ rule :: post ∧ rule.longest start bol (a :: s) = some n ∧
      rule.action = action ∧ (scanner.lexeme start bol a s).text = (a :: s).take n ∧
      ∀ rule' ∈ pre, ∀ m, rule'.longest start bol (a :: s) = some m → m < n := by
  unfold lexeme at h ⊢
  split at h
  · rename_i n action' hpick
    obtain rfl := Option.some.inj h
    obtain ⟨pre, post, hentries, hpre, _⟩ := pick_split hpick
    obtain ⟨before, rest, hrules, hbefore, hrest⟩ := List.map_eq_append_iff.mp hentries
    obtain ⟨rule, after, rfl, hrule, _⟩ := List.map_eq_cons_iff.mp hrest
    obtain ⟨hn, haction⟩ := Prod.mk.inj hrule
    rw [← hbefore] at hpre
    refine ⟨before, rule, after, n, hrules, hn, haction, ?_, List.forall_mem_map.mp hpre⟩
    exact (take_cons_sub (Rule.longest_eq_some hn).2.1).1
  · cases h

end Lexeme

theorem scan_cons [DecidableEq α] (scanner : Scanner α S K) (start : S) (bol : Bool) (a : α) (s : List α) :
    let l := scanner.lexeme start bol a s
    scanner.scan start bol (a :: s) =
      l :: scanner.scan (l.action.elim start fun action => scanner.begin action start)
        (l.text.getLast? = some scanner.newline)
        l.rest := by
  rw [scan]

theorem lexeme_text_append (scanner : Scanner α S K) (start : S) (bol : Bool) (a : α) (s : List α) :
    (scanner.lexeme start bol a s).text ++ (scanner.lexeme start bol a s).rest = a :: s := by
  unfold lexeme
  split
  · exact congrArg (a :: ·) (List.take_append_drop _ s)
  · rfl

/-- The lexemes are the text, cut into pieces. -/
theorem scan_flatten [DecidableEq α] (scanner : Scanner α S K) (start : S) (bol : Bool) (s : List α) :
    ((scanner.scan start bol s).map Lexeme.text).flatten = s := by
  induction start, bol, s using scan.induct scanner with
  | case1 start bol => simp [scan]
  | case2 start bol a s l ih =>
    rw [scan_cons, List.map_cons, List.flatten_cons, ih]
    exact scanner.lexeme_text_append start bol a s

/-- What is scanned is matched somewhere. -/
theorem mem_scan [DecidableEq α] {scanner : Scanner α S K} {start : S} {bol : Bool} {s : List α} {l : Lexeme α K}
    (h : l ∈ scanner.scan start bol s) : ∃ start' bol' a s', l = scanner.lexeme start' bol' a s' := by
  induction start, bol, s using scan.induct scanner with
  | case1 start bol =>
    rw [scan] at h
    cases h
  | case2 start bol a s l' ih =>
    rw [scan_cons] at h
    cases h with
    | head => exact ⟨start, bol, a, s, rfl⟩
    | tail _ hrest => exact ih hrest

theorem scan_of_lexeme [DecidableEq α] {scanner : Scanner α S K} {start start' : S} {bol : Bool} {a : α}
    {s text rest : List α}
    {action : K} (h : scanner.lexeme start bol a s = { action := some action, text, rest })
    (hbegin : scanner.begin action start = start') :
    ∃ bol', scanner.scan start bol (a :: s) = { action := some action, text, rest } ::
      scanner.scan start' bol' rest := by
  refine ⟨text.getLast? = some scanner.newline, ?_⟩
  rw [scan_cons, h, ← hbegin]
  rfl

end Scanner

end ServiceManager
