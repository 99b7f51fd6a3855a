import Mathlib.Data.List.Basic
import Mathlib.Data.List.Nodup
import Mathlib.Data.List.Pairwise

namespace ServiceManager.Sql

/-- A table whose integer primary key is declared AUTOINCREMENT. The rows stand
in key order, and `seq` is the largest key ever handed out, so the key of a
deleted row is not given out again. -/
structure Table (ρ : Type) where
  rows : List (Nat × ρ)
  seq : Nat
  increasing : rows.Pairwise (fun a b => a.1 < b.1)
  bounded : ∀ row ∈ rows, 0 < row.1 ∧ row.1 ≤ seq

namespace Table

variable {ρ : Type}

@[ext] theorem ext {t u : Table ρ} (hrows : t.rows = u.rows) (hseq : t.seq = u.seq) : t = u := by
  cases t
  cases u
  simp_all

instance [DecidableEq ρ] : DecidableEq (Table ρ) := fun t u =>
  decidable_of_iff (t.rows = u.rows ∧ t.seq = u.seq)
    ⟨fun h => ext h.1 h.2, fun h => by rw [h]; exact ⟨rfl, rfl⟩⟩

/-- The table as it is created, before the first row. -/
def empty : Table ρ where
  rows := []
  seq := 0
  increasing := List.Pairwise.nil
  bounded := by simp

/-- The keys in use. -/
def ids (t : Table ρ) : List Nat := t.rows.map Prod.fst

/-- The key the next `INSERT` takes, which `last_insert_rowid` then reports. -/
def nextId (t : Table ρ) : Nat := t.seq + 1

/-- `INSERT INTO t VALUES (row)`. -/
def insert (t : Table ρ) (row : ρ) : Table ρ where
  rows := t.rows ++ [(t.nextId, row)]
  seq := t.nextId
  increasing := by
    rw [List.pairwise_append]
    refine ⟨t.increasing, by simp, ?_⟩
    intro a ha b hb
    have hle := (t.bounded a ha).2
    simp only [List.mem_singleton] at hb
    subst hb
    simp only [nextId]
    omega
  bounded := by
    intro r hr
    simp only [List.mem_append, List.mem_singleton] at hr
    rcases hr with hr | rfl
    · have h := t.bounded r hr
      simp only [nextId]
      omega
    · simp [nextId]

/-- `DELETE FROM t WHERE p`. -/
def delete (t : Table ρ) (p : Nat → ρ → Bool) : Table ρ where
  rows := t.rows.filter (fun row => !p row.1 row.2)
  seq := t.seq
  increasing := t.increasing.filter _
  bounded := fun row hrow => t.bounded row (List.mem_of_mem_filter hrow)

/-- The row a `SELECT ... WHERE p` steps to first: without an index SQLite scans
the table in key order. -/
def first (t : Table ρ) (p : ρ → Bool) : Option (Nat × ρ) :=
  t.rows.find? (fun row => p row.2)

/-- The keys of all rows that a `SELECT ... WHERE p` gives. -/
def select (t : Table ρ) (p : ρ → Bool) : List Nat :=
  (t.rows.filter fun row => p row.2).map Prod.fst

/-- The row with a given key. -/
def get? (t : Table ρ) (id : Nat) : Option ρ :=
  (t.rows.find? (fun row => row.1 == id)).map Prod.snd

/-- A run of `INSERT`s, first row first. -/
def insertAll (t : Table ρ) : List ρ → Table ρ
  | [] => t
  | row :: rest => (t.insert row).insertAll rest

@[simp] theorem rows_insert (t : Table ρ) (row : ρ) :
    (t.insert row).rows = t.rows ++ [(t.nextId, row)] := rfl

@[simp] theorem seq_insert (t : Table ρ) (row : ρ) : (t.insert row).seq = t.seq + 1 := rfl

@[simp] theorem rows_delete (t : Table ρ) (p : Nat → ρ → Bool) :
    (t.delete p).rows = t.rows.filter (fun row => !p row.1 row.2) := rfl

@[simp] theorem seq_delete (t : Table ρ) (p : Nat → ρ → Bool) : (t.delete p).seq = t.seq := rfl

@[simp] theorem insertAll_nil (t : Table ρ) : t.insertAll [] = t := rfl

@[simp] theorem insertAll_cons (t : Table ρ) (row : ρ) (rest : List ρ) :
    t.insertAll (row :: rest) = (t.insert row).insertAll rest := rfl

theorem mem_ids {t : Table ρ} {id : Nat} : id ∈ t.ids ↔ ∃ row, (id, row) ∈ t.rows := by
  simp [ids]

theorem mem_insert {t : Table ρ} {row r : ρ} {id : Nat} :
    (id, r) ∈ (t.insert row).rows ↔ (id, r) ∈ t.rows ∨ id = t.nextId ∧ r = row := by
  simp

theorem mem_delete {t : Table ρ} {p : Nat → ρ → Bool} {id : Nat} {row : ρ} :
    (id, row) ∈ (t.delete p).rows ↔ (id, row) ∈ t.rows ∧ p id row = false := by
  simp

theorem le_seq {t : Table ρ} {id : Nat} (h : id ∈ t.ids) : id ≤ t.seq := by
  obtain ⟨row, hrow⟩ := mem_ids.mp h
  exact (t.bounded _ hrow).2

theorem id_pos {t : Table ρ} {id : Nat} (h : id ∈ t.ids) : 0 < id := by
  obtain ⟨row, hrow⟩ := mem_ids.mp h
  exact (t.bounded _ hrow).1

theorem nextId_not_mem (t : Table ρ) : t.nextId ∉ t.ids := by
  intro h
  have := le_seq h
  simp only [nextId] at this
  omega

theorem nodup_ids (t : Table ρ) : t.ids.Nodup := by
  rw [ids, List.nodup_iff_pairwise_ne, List.pairwise_map]
  exact t.increasing.imp (fun h => Nat.ne_of_lt h)

/-- The key is unique: two rows with one key are one row. -/
theorem row_unique {t : Table ρ} {id : Nat} {a b : ρ} (ha : (id, a) ∈ t.rows) (hb : (id, b) ∈ t.rows) :
    a = b := by
  have h := List.inj_on_of_nodup_map t.nodup_ids ha hb rfl
  exact congrArg Prod.snd h

theorem get?_eq_some {t : Table ρ} {id : Nat} {row : ρ} : t.get? id = some row ↔ (id, row) ∈ t.rows := by
  constructor
  · intro h
    obtain ⟨found, hfound, rfl⟩ := Option.map_eq_some_iff.mp h
    have hid : found.1 = id := by simpa using List.find?_some hfound
    subst hid
    exact List.mem_of_find?_eq_some hfound
  · intro h
    cases hfind : t.rows.find? (fun r => r.1 == id) with
    | none =>
      have := List.find?_eq_none.mp hfind _ h
      simp at this
    | some found =>
      have hid : found.1 = id := by simpa using List.find?_some hfind
      have hmem := List.mem_of_find?_eq_some hfind
      subst hid
      have hrow := row_unique hmem h
      simp [get?, hfind, hrow]

theorem first_mem {t : Table ρ} {p : ρ → Bool} {found : Nat × ρ} (h : t.first p = some found) :
    found ∈ t.rows ∧ p found.2 = true :=
  ⟨List.mem_of_find?_eq_some h, List.find?_some (p := fun row : Nat × ρ => p row.2) h⟩

theorem first_eq_none {t : Table ρ} {p : ρ → Bool} :
    t.first p = none ↔ ∀ row ∈ t.rows, p row.2 = false := by
  simp [first]

theorem select_of_first_none {t : Table ρ} {p : ρ → Bool} (h : t.first p = none) : t.select p = [] := by
  rw [select, List.filter_eq_nil_iff.mpr, List.map_nil]
  intro row hrow
  simp [first_eq_none.mp h row hrow]

theorem select_of_first_some {t : Table ρ} {p : ρ → Bool} {found : Nat × ρ} (h : t.first p = some found) :
    ∃ rest, t.select p = found.1 :: rest := by
  have hhead : (t.rows.filter fun row => p row.2).head? = some found := by
    rw [List.head?_filter]
    exact h
  obtain ⟨rest, hrest⟩ := List.head?_eq_some_iff.mp hhead
  exact ⟨rest.map Prod.fst, by rw [select, hrest, List.map_cons]⟩

theorem first_insert (t : Table ρ) (row : ρ) (p : ρ → Bool) :
    (t.insert row).first p = (t.first p).or (if p row then some (t.nextId, row) else none) := by
  simp only [first, rows_insert, List.find?_append]
  cases h : p row <;> simp [h]

/-- The `i`-th of a run of inserted rows takes the `i`-th key after the last one
handed out. -/
theorem rows_insertAll (t : Table ρ) (rs : List ρ) :
    (t.insertAll rs).rows = t.rows ++ rs.mapIdx (fun i row => (t.seq + 1 + i, row)) := by
  induction rs generalizing t with
  | nil => simp
  | cons row rest ih =>
    simp only [insertAll_cons, ih, rows_insert, nextId, seq_insert, List.mapIdx_cons, List.append_assoc,
      List.cons_append, List.nil_append, Nat.add_zero]
    have hkey : ∀ i, t.seq + 1 + 1 + i = t.seq + 1 + (i + 1) := by omega
    simp only [hkey]

theorem mem_insertAll {t : Table ρ} {rs : List ρ} {id : Nat} {row : ρ} :
    (id, row) ∈ (t.insertAll rs).rows ↔
      (id, row) ∈ t.rows ∨ ∃ i, rs[i]? = some row ∧ id = t.seq + 1 + i := by
  rw [rows_insertAll, List.mem_append, List.mem_mapIdx]
  refine or_congr_right ?_
  constructor
  · rintro ⟨i, hi, heq⟩
    simp only [Prod.mk.injEq] at heq
    obtain ⟨rfl, rfl⟩ := heq
    exact ⟨i, List.getElem?_eq_getElem hi, rfl⟩
  · rintro ⟨i, hrow, rfl⟩
    obtain ⟨hi, rfl⟩ := List.getElem?_eq_some_iff.mp hrow
    exact ⟨i, hi, rfl⟩

@[simp] theorem seq_insertAll (t : Table ρ) (rs : List ρ) : (t.insertAll rs).seq = t.seq + rs.length := by
  induction rs generalizing t with
  | nil => rfl
  | cons row rest ih =>
    simp only [insertAll_cons, ih, seq_insert, List.length_cons]
    omega

/-- `u` is `t` with rows added under keys `t` has never handed out. -/
def Grows (t u : Table ρ) : Prop :=
  ∃ added, u.rows = t.rows ++ added ∧ t.seq ≤ u.seq ∧ ∀ row ∈ added, t.seq < row.1

theorem Grows.refl (t : Table ρ) : t.Grows t := ⟨[], by simp, Nat.le_refl _, by simp⟩

theorem Grows.trans {t u v : Table ρ} (htu : t.Grows u) (huv : u.Grows v) : t.Grows v := by
  obtain ⟨xs, hxs, hseq, hnew⟩ := htu
  obtain ⟨ys, hys, hseq', hnew'⟩ := huv
  refine ⟨xs ++ ys, by rw [hys, hxs, List.append_assoc], Nat.le_trans hseq hseq', ?_⟩
  intro row hrow
  rcases List.mem_append.mp hrow with h | h
  · exact hnew row h
  · exact Nat.lt_of_le_of_lt hseq (hnew' row h)

theorem grows_insert (t : Table ρ) (row : ρ) : t.Grows (t.insert row) := by
  refine ⟨[(t.nextId, row)], rfl, Nat.le_succ _, ?_⟩
  intro r hr
  rw [List.mem_singleton] at hr
  subst hr
  exact Nat.lt_succ_self _

theorem Grows.mem {t u : Table ρ} (h : t.Grows u) {row : Nat × ρ} (hrow : row ∈ t.rows) : row ∈ u.rows := by
  obtain ⟨added, hadded, _⟩ := h
  rw [hadded]
  exact List.mem_append_left _ hrow

theorem Grows.mem_ids {t u : Table ρ} (h : t.Grows u) {id : Nat} (hid : id ∈ t.ids) : id ∈ u.ids := by
  obtain ⟨row, hrow⟩ := Table.mem_ids.mp hid
  exact Table.mem_ids.mpr ⟨row, h.mem hrow⟩

/-- A row of the grown table under an old key is a row of the old one. -/
theorem Grows.mem_of_le {t u : Table ρ} (h : t.Grows u) {row : Nat × ρ} (hrow : row ∈ u.rows)
    (hle : row.1 ≤ t.seq) : row ∈ t.rows := by
  obtain ⟨added, hadded, _, hnew⟩ := h
  rw [hadded] at hrow
  rcases List.mem_append.mp hrow with h | h
  · exact h
  · have := hnew row h
    omega

/-- What a query found before stays what it finds first. -/
theorem Grows.first {t u : Table ρ} (h : t.Grows u) {p : ρ → Bool} {found : Nat × ρ}
    (hfound : t.first p = some found) : u.first p = some found := by
  obtain ⟨added, hadded, _⟩ := h
  have hfind : t.rows.find? (fun row => p row.2) = some found := hfound
  simp [Table.first, hadded, List.find?_append, hfind]

end Table

end ServiceManager.Sql
