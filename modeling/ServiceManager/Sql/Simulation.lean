import Mathlib.Data.List.Perm.Basic
import Mathlib.Logic.Equiv.Basic
import ServiceManager.Sql.Keyed

namespace ServiceManager.Sql

/-- The renumbering that exchanges a block of `m` ids after `s` with the block of
`n` ids that follows it. -/
def exchange (s m n : Nat) : Equiv.Perm Nat where
  toFun id := if id ≤ s then id else if id ≤ s + m then id + n else if id ≤ s + m + n then id - m else id
  invFun id := if id ≤ s then id else if id ≤ s + n then id + m else if id ≤ s + n + m then id - n else id
  left_inv id := by
    simp only
    split_ifs <;> omega
  right_inv id := by
    simp only
    split_ifs <;> omega

theorem exchange_apply (s m n id : Nat) : exchange s m n id =
    if id ≤ s then id else if id ≤ s + m then id + n else if id ≤ s + m + n then id - m else id := rfl

theorem exchange_of_le {s m n id : Nat} (h : id ≤ s) : exchange s m n id = id := by
  simp [exchange_apply, h]

theorem exchange_first {s m n i : Nat} (h : i < m) : exchange s m n (s + 1 + i) = s + n + 1 + i := by
  rw [exchange_apply]
  split_ifs <;> omega

theorem exchange_second {s m n i : Nat} (h : i < n) : exchange s m n (s + m + 1 + i) = s + 1 + i := by
  rw [exchange_apply]
  split_ifs <;> omega

/-- A renumbering that moves a block of ids moves the rows inserted under them. -/
theorem map_inserted {ρ σ : Type} {p : Nat → Nat} {s s' : Nat} {rs : List ρ} (hp : ∀ i < rs.length, p (s + i) = s' + i)
    (g : ρ → σ) :
    (rs.mapIdx fun i row => (s + i, row)).map (fun row => (p row.1, g row.2)) =
      (rs.map g).mapIdx fun i row => (s' + i, row) := by
  apply List.ext_getElem
  · simp
  · intro i hi _
    simp only [List.length_map, List.length_mapIdx] at hi
    simp [hp i hi]

/-- Rows that are got or created under keys which, like the rows, may refer to
rows of the same table. The laws say that a renaming of the ids can be carried
through a query. -/
structure SelfKeyed (κ ρ : Type) where
  hit : κ → ρ → Bool
  make : κ → ρ
  renameKey : (Nat → Nat) → κ → κ
  renameRow : (Nat → Nat) → ρ → ρ
  keyRefs : κ → List Nat
  rowRefs : ρ → List Nat
  hit_make : ∀ {k l}, hit k (make l) = true ↔ k = l
  make_rename : ∀ f k, make (renameKey f k) = renameRow f (make k)
  rowRefs_make : ∀ k, rowRefs (make k) = keyRefs k
  keyRefs_of_hit : ∀ {k row}, hit k row = true → ∀ id ∈ keyRefs k, id ∈ rowRefs row
  hit_rename : ∀ {f : Nat → Nat}, Function.Injective f → ∀ k row, hit (renameKey f k) (renameRow f row) = hit k row
  renameKey_congr : ∀ {f g : Nat → Nat} {k}, (∀ id ∈ keyRefs k, f id = g id) → renameKey f k = renameKey g k
  renameRow_congr : ∀ {f g : Nat → Nat} {row}, (∀ id ∈ rowRefs row, f id = g id) → renameRow f row = renameRow g row
  renameKey_id : ∀ k, renameKey (fun id => id) k = k
  renameRow_id : ∀ row, renameRow (fun id => id) row = row

namespace SelfKeyed

variable {κ ρ : Type} (S : SelfKeyed κ ρ)

/-- No row refers to a row that is not there. -/
def Closed (t : Table ρ) : Prop := ∀ row ∈ t.rows, ∀ id ∈ S.rowRefs row.2, id ∈ t.ids

/-- Under `f` the table `t` is part of the table `u`, and a query of `t` that
finds a row finds the same one in `u`. The rest of `u` was created by key. -/
structure Sim (f : Equiv.Perm Nat) (t u : Table ρ) : Prop where
  zero : f 0 = 0
  closed : S.Closed t
  rows : ∀ id row, (id, row) ∈ t.rows → (f id, S.renameRow f row) ∈ u.rows
  lookup : ∀ k id, t.lookup S.hit k = some id → u.lookup S.hit (S.renameKey f k) = some (f id)
  made : ∀ row ∈ u.rows, (∃ id ∈ t.ids, f id = row.1) ∨ ∃ l, row.2 = S.make l

variable {S} {f g : Equiv.Perm Nat} {t u : Table ρ} {k : κ}

theorem Closed.keyRefs (hclosed : S.Closed t) {id : Nat} (hfound : t.lookup S.hit k = some id) :
    ∀ ref ∈ S.keyRefs k, ref ∈ t.ids := by
  obtain ⟨row, hrow, hhit⟩ := Table.lookup_mem hfound
  exact fun ref href => hclosed _ hrow ref (S.keyRefs_of_hit hhit ref href)

theorem Closed.insert (hclosed : S.Closed t) (hrefs : ∀ id ∈ S.keyRefs k, id ∈ t.ids) :
    S.Closed (t.insert (S.make k)) := by
  rintro ⟨id, row⟩ hrow ref href
  have hgrows := t.grows_insert (S.make k)
  rcases Table.mem_insert.mp hrow with hrow | ⟨-, rfl⟩
  · exact hgrows.mem_ids (hclosed _ hrow ref href)
  · rw [S.rowRefs_make] at href
    exact hgrows.mem_ids (hrefs ref href)

/-- A table is part of every table it grows into. -/
theorem Sim.of_grows (hclosed : S.Closed t) (hgrows : t.Grows u)
    (hmade : ∀ row ∈ u.rows, row ∈ t.rows ∨ ∃ l, row.2 = S.make l) : S.Sim (Equiv.refl Nat) t u where
  zero := rfl
  closed := hclosed
  rows := by
    intro id row hrow
    have hsame : S.renameRow (Equiv.refl Nat) row = row := S.renameRow_id row
    rw [hsame]
    exact hgrows.mem hrow
  lookup := by
    intro k id hfound
    have hsame : S.renameKey (Equiv.refl Nat) k = k := S.renameKey_id k
    rw [hsame]
    exact hgrows.lookup hfound
  made := fun row hrow => (hmade row hrow).imp_left fun h => ⟨row.1, Table.mem_ids.mpr ⟨row.2, h⟩, rfl⟩

/-- A row that `u` gives a key `t` does not find is not the image of a row of `t`. -/
theorem Sim.fresh_target (h : S.Sim f t u) (hnone : t.lookup S.hit k = none) {id : Nat} (hid : id ∈ t.ids) :
    f id ≠ (u.getOrCreate S.hit S.make (S.renameKey f k)).1 := by
  intro heq
  obtain ⟨row, hrow⟩ := Table.mem_ids.mp hid
  have hmem := h.rows id row hrow
  cases hfound : u.lookup S.hit (S.renameKey f k) with
  | none =>
    rw [Table.getOrCreate_of_none hfound] at heq
    change f id = u.nextId at heq
    exact u.nextId_not_mem (heq ▸ Table.mem_ids.mpr ⟨_, hmem⟩)
  | some id' =>
    rw [Table.getOrCreate_of_some hfound] at heq
    obtain ⟨row', hrow', hhit⟩ := Table.lookup_mem hfound
    change f id = id' at heq
    subst heq
    have hsame := Table.row_unique hrow' hmem
    subst hsame
    rw [S.hit_rename f.injective] at hhit
    have := Table.lookup_eq_none.mp hnone _ hrow
    simp [hhit] at this

/-- The row that `u` gives a key `t` does not find is one made for the key. -/
theorem Sim.made_target (h : S.Sim f t u) (hnone : t.lookup S.hit k = none) :
    ((u.getOrCreate S.hit S.make (S.renameKey f k)).1, S.make (S.renameKey f k)) ∈
      (u.getOrCreate S.hit S.make (S.renameKey f k)).2.rows := by
  have hfresh : ∀ id ∈ t.ids, f id ≠ (u.getOrCreate S.hit S.make (S.renameKey f k)).1 :=
    fun id hid => h.fresh_target hnone hid
  cases hfound : u.lookup S.hit (S.renameKey f k) with
  | none =>
    rw [Table.getOrCreate_of_none hfound]
    exact Table.mem_insert.mpr (Or.inr ⟨rfl, rfl⟩)
  | some id =>
    rw [Table.getOrCreate_of_some hfound] at hfresh ⊢
    obtain ⟨row, hrow, hhit⟩ := Table.lookup_mem hfound
    rcases h.made _ hrow with ⟨id', hid', heq⟩ | ⟨l, hl⟩
    · exact absurd heq (hfresh id' hid')
    · change row = S.make l at hl
      subst hl
      obtain rfl := S.hit_make.mp hhit
      exact hrow

/-- The new id of `t` can be sent to a row of `u` that is the image of none. -/
theorem Sim.exists_redirect (h : S.Sim f t u) {target : Nat} (hpos : 0 < target)
    (hfresh : ∀ id ∈ t.ids, f id ≠ target) :
    ∃ g : Equiv.Perm Nat, g 0 = 0 ∧ (∀ id ∈ t.ids, g id = f id) ∧ g t.nextId = target := by
  -- the new id of `t` and its target trade places; no old row is affected
  refine ⟨f.trans (Equiv.swap (f t.nextId) target), ?_, fun id hid => ?_, Equiv.swap_apply_left _ _⟩
  · have hne : f 0 ≠ f t.nextId := fun heq => absurd (f.injective heq) (Nat.succ_ne_zero t.seq).symm
    have hne' : f 0 ≠ target := by rw [h.zero]; omega
    exact (Equiv.swap_apply_of_ne_of_ne hne hne').trans h.zero
  · have hne : f id ≠ f t.nextId := fun heq => t.nextId_not_mem (f.injective heq ▸ hid)
    exact Equiv.swap_apply_of_ne_of_ne hne (hfresh id hid)

/-- A row is created in `t`, and `u` grows to a table that has the one it is sent to. -/
theorem Sim.insert {g : Equiv.Perm Nat} {u' : Table ρ} (h : S.Sim f t u)
    (hrefs : ∀ id ∈ S.keyRefs k, id ∈ t.ids) (hzero : g 0 = 0) (hold : ∀ id ∈ t.ids, g id = f id)
    (hgrows : u.Grows u') (hgot : u'.lookup S.hit (S.renameKey f k) = some (g t.nextId))
    (hmade : (g t.nextId, S.make (S.renameKey f k)) ∈ u'.rows)
    (hcreated : ∀ row ∈ u'.rows, row ∈ u.rows ∨ row.2 = S.make (S.renameKey f k)) :
    S.Sim g (t.insert (S.make k)) u' := by
  have hrow : ∀ row, (∀ id ∈ S.rowRefs row, id ∈ t.ids) → S.renameRow g row = S.renameRow f row :=
    fun row hin => S.renameRow_congr fun id hid => hold id (hin id hid)
  have hkey : ∀ l, (∀ id ∈ S.keyRefs l, id ∈ t.ids) → S.renameKey g l = S.renameKey f l :=
    fun l hin => S.renameKey_congr fun id hid => hold id (hin id hid)
  refine ⟨hzero, h.closed.insert hrefs, ?_, ?_, ?_⟩
  · intro id row hmem
    rcases Table.mem_insert.mp hmem with hmem | ⟨rfl, rfl⟩
    · rw [hold id (Table.mem_ids.mpr ⟨row, hmem⟩), hrow row (h.closed _ hmem)]
      exact hgrows.mem (h.rows id row hmem)
    · rw [← S.make_rename, hkey k hrefs]
      exact hmade
  · intro l id hl
    cases hlt : t.lookup S.hit l with
    | some id' =>
      have hsame := (t.grows_insert (S.make k)).lookup hlt
      rw [hl] at hsame
      cases hsame
      rw [hkey l (h.closed.keyRefs hlt), hold id (Table.lookup_mem_ids hlt)]
      exact hgrows.lookup (h.lookup l id hlt)
    | none =>
      obtain ⟨row, hmem, hhit⟩ := Table.lookup_mem hl
      rcases Table.mem_insert.mp hmem with hmem | ⟨rfl, rfl⟩
      · have := Table.lookup_eq_none.mp hlt _ hmem
        simp [hhit] at this
      · obtain rfl := S.hit_make.mp hhit
        rw [hkey l hrefs]
        exact hgot
  · intro row hmem
    rcases hcreated row hmem with hmem | hmake
    · rcases h.made row hmem with ⟨id, hid, heq⟩ | hmake
      · exact Or.inl ⟨id, (t.grows_insert _).mem_ids hid, (hold id hid).trans heq⟩
      · exact Or.inr hmake
    · exact Or.inr ⟨_, hmake⟩

/-- Getting or creating a row in both tables keeps the one part of the other,
under a renaming that is unchanged on the rows there were. -/
theorem Sim.getOrCreate (h : S.Sim f t u) (hrefs : ∀ id ∈ S.keyRefs k, id ∈ t.ids) :
    ∃ g : Equiv.Perm Nat, (∀ id ∈ t.ids, g id = f id) ∧
      g (t.getOrCreate S.hit S.make k).1 = (u.getOrCreate S.hit S.make (S.renameKey f k)).1 ∧
      S.Sim g (t.getOrCreate S.hit S.make k).2 (u.getOrCreate S.hit S.make (S.renameKey f k)).2 := by
  cases hfound : t.lookup S.hit k with
  | some id =>
    rw [Table.getOrCreate_of_some hfound, Table.getOrCreate_of_some (h.lookup k id hfound)]
    exact ⟨f, fun _ _ => rfl, rfl, h⟩
  | none =>
    rw [Table.getOrCreate_of_none hfound]
    have hgot : (u.getOrCreate S.hit S.make (S.renameKey f k)).2.lookup S.hit (S.renameKey f k) =
        some (u.getOrCreate S.hit S.make (S.renameKey f k)).1 := Table.lookup_getOrCreate (S.hit_make.mpr rfl)
    obtain ⟨g, hzero, hold, hnew⟩ :=
      h.exists_redirect (Table.id_pos (Table.lookup_mem_ids hgot)) fun id hid => h.fresh_target hfound hid
    refine ⟨g, hold, hnew, h.insert hrefs hzero hold (u.grows_getOrCreate _) ?_ ?_ (u.mem_getOrCreate _)⟩
    · rw [hnew]
      exact hgot
    · rw [hnew]
      exact h.made_target hfound

end SelfKeyed

namespace Table

variable {ρ : Type} {p q : Equiv.Perm Nat} {g h : ρ → ρ} {t u : Table ρ}

/-- Renaming ids and rows takes the one table to the other, up to the order of
the rows. -/
structure Renamed (p : Equiv.Perm Nat) (g : ρ → ρ) (t u : Table ρ) : Prop where
  rows : (t.rows.map fun row => (p row.1, g row.2)).Perm u.rows
  seq : u.seq = t.seq

theorem subperm_of_embeds (hembeds : ∀ id row, (id, row) ∈ t.rows → (p id, g row) ∈ u.rows) :
    List.Subperm (t.rows.map fun row => (p row.1, g row.2)) u.rows := by
  refine List.subperm_of_subset ?_ ?_
  · have hids : ((t.rows.map fun row => (p row.1, g row.2)).map Prod.fst).Nodup := by
      have hmap := t.nodup_ids.map p.injective
      rw [ids, List.map_map] at hmap
      rwa [List.map_map]
    exact List.Nodup.of_map _ hids
  · intro row hrow
    obtain ⟨⟨id, row⟩, hmem, rfl⟩ := List.mem_map.mp hrow
    exact hembeds id row hmem

/-- Of two tables that are each part of the other, the renaming takes the one to
the other. -/
theorem Renamed.of_embeds (hembeds : ∀ id row, (id, row) ∈ t.rows → (p id, g row) ∈ u.rows)
    (hembeds' : ∀ id row, (id, row) ∈ u.rows → (q id, h row) ∈ t.rows) (hseq : u.seq = t.seq) : Renamed p g t u := by
  refine ⟨(subperm_of_embeds hembeds).perm_of_length_le ?_, hseq⟩
  have hle := (subperm_of_embeds hembeds').length_le
  simpa using hle

theorem Renamed.refl (hg : ∀ row ∈ t.rows, g row.2 = row.2) (hp : ∀ id ∈ t.ids, p id = id) : Renamed p g t t := by
  have hmap : (t.rows.map fun row => (p row.1, g row.2)) = t.rows := by
    refine (List.map_congr_left fun row hrow => ?_).trans (List.map_id t.rows)
    rw [hg row hrow, hp _ (mem_ids.mpr ⟨row.2, hrow⟩)]
    rfl
  exact ⟨List.Perm.of_eq hmap, rfl⟩

/-- The row under the new id is the renamed row under the old one. -/
theorem Renamed.mem (hren : Renamed p g t u) {id : Nat} {row' : ρ} :
    (p id, row') ∈ u.rows ↔ ∃ row, (id, row) ∈ t.rows ∧ row' = g row := by
  rw [← hren.rows.mem_iff, List.mem_map]
  constructor
  · rintro ⟨⟨id', row⟩, hrow, heq⟩
    simp only [Prod.mk.injEq, EmbeddingLike.apply_eq_iff_eq] at heq
    obtain ⟨rfl, rfl⟩ := heq
    exact ⟨row, hrow, rfl⟩
  · rintro ⟨row, hrow, rfl⟩
    exact ⟨(id, row), hrow, rfl⟩

/-- How many rows were created shows in the counter of keys. -/
def Counts (base t : Table ρ) : Prop := t.seq + base.rows.length = base.seq + t.rows.length

theorem Counts.getOrCreate {κ : Type} {hit : κ → ρ → Bool} {make : κ → ρ} {base : Table ρ} (hcounts : base.Counts t)
    (k : κ) : base.Counts (t.getOrCreate hit make k).2 := by
  cases hfound : t.lookup hit k with
  | some id =>
    rw [getOrCreate_of_some hfound]
    exact hcounts
  | none =>
    rw [getOrCreate_of_none hfound]
    simp only [Counts, seq_insert, rows_insert, List.length_append, List.length_cons, List.length_nil] at *
    omega

theorem Counts.seq_eq {base : Table ρ} (ht : base.Counts t) (hu : base.Counts u)
    (hembeds : ∀ id row, (id, row) ∈ t.rows → (p id, g row) ∈ u.rows)
    (hembeds' : ∀ id row, (id, row) ∈ u.rows → (q id, h row) ∈ t.rows) : u.seq = t.seq := by
  have hle := (subperm_of_embeds hembeds).length_le
  have hge := (subperm_of_embeds hembeds').length_le
  simp only [Counts, List.length_map] at ht hu hle hge
  omega

end Table

end ServiceManager.Sql
