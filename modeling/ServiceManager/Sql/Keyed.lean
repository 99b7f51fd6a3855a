import ServiceManager.Sql.Table

namespace ServiceManager.Sql.Table

variable {ρ κ : Type} (hit : κ → ρ → Bool) (make : κ → ρ)

/-- The key of the first row that a query for `k` selects. -/
def lookup (t : Table ρ) (k : κ) : Option Nat :=
  (t.first (hit k)).map Prod.fst

/-- Get or create: the row a query for `k` selects, or a new row made for `k`. -/
def getOrCreate (t : Table ρ) (k : κ) : Nat × Table ρ :=
  match t.lookup hit k with
  | some id => (id, t)
  | none => (t.nextId, t.insert (make k))

variable {hit make} {t u : Table ρ} {k l : κ} {id : Nat}

theorem lookup_mem (h : t.lookup hit k = some id) : ∃ row, (id, row) ∈ t.rows ∧ hit k row = true := by
  obtain ⟨⟨found, row⟩, hfound, rfl⟩ := Option.map_eq_some_iff.mp h
  exact ⟨row, first_mem hfound⟩

theorem lookup_mem_ids (h : t.lookup hit k = some id) : id ∈ t.ids := by
  obtain ⟨row, hrow, _⟩ := lookup_mem h
  exact mem_ids.mpr ⟨row, hrow⟩

theorem lookup_ne_zero (h : t.lookup hit k = some id) : id ≠ 0 :=
  Nat.pos_iff_ne_zero.mp (id_pos (lookup_mem_ids h))

theorem lookup_eq_none : t.lookup hit k = none ↔ ∀ row ∈ t.rows, hit k row.2 = false := by
  rw [lookup, Option.map_eq_none_iff, first_eq_none]

theorem Grows.lookup (h : t.Grows u) (hk : t.lookup hit k = some id) : u.lookup hit k = some id := by
  obtain ⟨found, hfound, rfl⟩ := Option.map_eq_some_iff.mp hk
  simp [Table.lookup, h.first hfound]

theorem getOrCreate_of_some (h : t.lookup hit k = some id) : t.getOrCreate hit make k = (id, t) := by
  simp [getOrCreate, h]

theorem getOrCreate_of_none (h : t.lookup hit k = none) :
    t.getOrCreate hit make k = (t.nextId, t.insert (make k)) := by
  simp [getOrCreate, h]

theorem grows_getOrCreate (t : Table ρ) (k : κ) : t.Grows (t.getOrCreate hit make k).2 := by
  cases h : t.lookup hit k with
  | none =>
    rw [getOrCreate_of_none h]
    exact t.grows_insert _
  | some id =>
    rw [getOrCreate_of_some h]
    exact Grows.refl t

theorem seq_getOrCreate_le (t : Table ρ) (k : κ) : (t.getOrCreate hit make k).2.seq ≤ t.seq + 1 := by
  cases h : t.lookup hit k with
  | none =>
    rw [getOrCreate_of_none h]
    exact Nat.le_refl _
  | some id =>
    rw [getOrCreate_of_some h]
    exact Nat.le_succ _

theorem mem_getOrCreate (t : Table ρ) (k : κ) :
    ∀ row ∈ (t.getOrCreate hit make k).2.rows, row ∈ t.rows ∨ row.2 = make k := by
  intro row hrow
  cases h : t.lookup hit k with
  | none =>
    rw [getOrCreate_of_none h] at hrow
    exact (mem_insert.mp hrow).imp_right And.right
  | some id =>
    rw [getOrCreate_of_some h] at hrow
    exact Or.inl hrow

/-- The row it returns is the one a later query for the same key finds. -/
theorem lookup_getOrCreate (hmake : hit k (make k) = true) :
    (t.getOrCreate hit make k).2.lookup hit k = some (t.getOrCreate hit make k).1 := by
  cases h : t.lookup hit k with
  | none =>
    rw [getOrCreate_of_none h]
    have hfirst : t.first (hit k) = none := Option.map_eq_none_iff.mp h
    simp [lookup, first_insert, hfirst, hmake]
  | some id =>
    rw [getOrCreate_of_some h]
    exact h

end ServiceManager.Sql.Table
