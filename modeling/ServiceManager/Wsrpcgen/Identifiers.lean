import ServiceManager.Wsrpcgen.Lexer

namespace ServiceManager.Wsrpcgen

open Regex

/-- Colons are in pairs, as the separators of a path. -/
def paired : List Byte → Bool
  | [] => true
  | [b] => b ≠ byte ':'
  | b :: b' :: s => if b = byte ':' then b' = byte ':' && paired s else paired (b' :: s)

/-- The identifiers where `(:?` is the group `(?:`, so that no letter has a colon before it. -/
def plain : Regex Byte :=
  ident LTR

def BeginsLetter (s : List Byte) : Prop :=
  ∃ l ∈ LTR.language, l <+: s

/-- After a plain identifier, or where one may begin, there is a colon with a letter after it. -/
def Swallows (v l s : List Byte) : Prop :=
  (v = [] ∨ v ∈ plain.language) ∧ l ∈ LTR.language ∧ v ++ byte ':' :: l <+: s

theorem paired_cons {b : Byte} (h : b ≠ byte ':') (s : List Byte) : paired (b :: s) = paired s := by
  cases s with
  | nil => exact decide_eq_true h
  | cons b' s => rw [paired, if_neg h]

theorem paired_pair (s : List Byte) : paired (byte ':' :: byte ':' :: s) = paired s := by
  rw [paired, if_pos rfl, decide_eq_true rfl, Bool.true_and]

theorem paired_colon {s : List Byte} (h : paired (byte ':' :: s) = true) : ∃ s', s = byte ':' :: s' := by
  cases s with
  | nil => exact absurd rfl (of_decide_eq_true h)
  | cons b s =>
    rw [paired, if_pos rfl, Bool.and_eq_true, decide_eq_true_eq] at h
    exact ⟨s, by rw [h.1]⟩

theorem paired_append_of_notMem {u : List Byte} (hu : byte ':' ∉ u) (s : List Byte) : paired (u ++ s) = paired s := by
  induction u with
  | nil => rfl
  | cons b u ih =>
    obtain ⟨hb, hu⟩ := List.ne_and_not_mem_of_not_mem_cons hu
    rw [List.cons_append, paired_cons (Ne.symm hb), ih hu]

theorem lower_val (b : Byte) : (lower b).val = if 65 ≤ b.val ∧ b.val ≤ 90 then b.val + 32 else b.val := by
  have hval : (lower b).val = if 65 ≤ b.val ∧ b.val ≤ 90 then (b + 32).val else b.val := by
    rw [lower, apply_ite Fin.val]
    rfl
  have hadd : (b + 32).val = (b.val + 32) % 256 := Fin.val_add b 32
  rw [hval, hadd]
  split
  · omega
  · rfl

/-- What is no letter matches itself only. -/
theorem eq_of_lower {b c : Byte} (hc : ¬(97 ≤ (lower c).val ∧ (lower c).val ≤ 122)) (h : lower b = lower c) :
    b = c := by
  have hb := lower_val b
  have hval := lower_val c
  rw [h] at hb
  apply Fin.ext
  split at hb <;> split at hval <;> omega

theorem lower_colon {b : Byte} : lower b = lower (byte ':') → b = byte ':' :=
  eq_of_lower (by decide)

/-- A text matches in either case. -/
theorem mem_text {s : String} {u : List Byte} :
    u ∈ (text s).language ↔ u.map lower = s.toList.map fun c => lower (byte c) := by
  unfold text
  induction s.toList generalizing u with
  | nil => exact List.map_eq_nil_iff.symm
  | cons c cs ih =>
    rw [List.map_cons, List.foldr_cons, language, Language.mem_mul, List.map_cons, List.map_eq_cons_iff]
    constructor
    · rintro ⟨_, ⟨b, hb, rfl⟩, x, hx, rfl⟩
      exact ⟨b, x, rfl, of_decide_eq_true hb, ih.mp hx⟩
    · rintro ⟨b, x, rfl, hb, hx⟩
      exact ⟨[b], ⟨b, decide_eq_true hb, rfl⟩, x, ih.mpr hx, rfl⟩

theorem eq_of_mem_separator {u : List Byte} (hu : u ∈ (text "::").language) : u = [byte ':', byte ':'] := by
  obtain ⟨b, u, rfl, hb, hu⟩ := List.map_eq_cons_iff.mp (mem_text.mp hu)
  obtain ⟨b', u, rfl, hb', hu⟩ := List.map_eq_cons_iff.mp hu
  rw [lower_colon hb, lower_colon hb', List.map_eq_nil_iff.mp hu]

section Words

variable {letter : Regex Byte} {u v l w s : List Byte}

theorem ident_append (hv : v ∈ (ident letter).language) (hu : u ∈ (part letter).language) :
    v ++ u ∈ (ident letter).language := by
  obtain ⟨x, hx, y, hy, rfl⟩ := Language.mem_mul.mp hv
  obtain ⟨words, rfl, hwords⟩ := Language.mem_kstar.mp hy
  rw [List.append_assoc]
  refine Language.append_mem_mul hx (Language.mem_kstar.mpr ⟨words ++ [u], ?_, ?_⟩)
  · rw [List.flatten_append, List.flatten_singleton]
  · exact List.forall_mem_append.mpr ⟨hwords, List.forall_mem_singleton.mpr hu⟩

theorem ident_of_letter (hu : u ∈ letter.language) : u ∈ (ident letter).language := by
  rw [← List.append_nil u]
  exact Language.append_mem_mul hu (Language.nil_mem_kstar _)

theorem IDENT_of_plain (hu : u ∈ plain.language) : u ∈ IDENT.language := by
  have hletter : LTR.language ≤ (seq (opt (one ':')) LTR).language :=
    fun l hl => Language.mem_mul.mpr ⟨[], Or.inr rfl, l, hl, rfl⟩
  have hpart : (part LTR).language ≤ (part (seq (opt (one ':')) LTR)).language := add_le_add hletter le_rfl
  exact mul_le_mul' hletter (kstar_mono hpart) hu

theorem colon_letter (hl : l ∈ LTR.language) : byte ':' :: l ∈ (seq (opt (one ':')) LTR).language :=
  Language.mem_mul.mpr ⟨[byte ':'], Or.inl ⟨byte ':', rfl, rfl⟩, l, hl, rfl⟩

/-- What comes after an identifier does not matter to its colons. -/
theorem paired_append (hu : u ∈ plain.language) (s : List Byte) : paired (u ++ s) = paired s := by
  have hletter : ∀ x ∈ LTR.language, ∀ s, paired (x ++ s) = paired s := fun x hx =>
    paired_append_of_notMem fun hmem => absurd (uses_of_mem hx hmem) (by decide)
  have hpart : ∀ x ∈ (part LTR).language, ∀ s, paired (x ++ s) = paired s := by
    rintro x (hx | hx | hx | hx)
    · exact hletter x hx
    · exact paired_append_of_notMem fun hmem => absurd (uses_of_mem hx hmem) (by decide)
    · exact paired_append_of_notMem fun hmem => absurd (uses_of_mem hx hmem) (by decide)
    · rw [eq_of_mem_separator hx]
      exact paired_pair
  have hwords : ∀ words : List (List Byte), (∀ x ∈ words, x ∈ (part LTR).language) →
      paired (words.flatten ++ s) = paired s := by
    intro words hmem
    induction words with
    | nil => rfl
    | cons x words ih =>
      obtain ⟨hx, hmem⟩ := List.forall_mem_cons.mp hmem
      rw [List.flatten_cons, List.append_assoc, hpart x hx, ih hmem]
  obtain ⟨x, hx, y, hy, rfl⟩ := Language.mem_mul.mp hu
  obtain ⟨words, rfl, hmem⟩ := Language.mem_kstar.mp hy
  rw [List.append_assoc, hletter x hx, hwords words hmem]

theorem paired_of_plain (hu : u ∈ plain.language) : paired u = true := by
  rw [← List.append_nil u, paired_append hu, paired]

theorem LTR_cons (hl : l ∈ LTR.language) : ∃ b t, l = b :: t ∧ b ≠ byte ':' := by
  obtain ⟨b, t, rfl, hb⟩ := exists_cons_of_mem rfl hl
  refine ⟨b, t, rfl, ?_⟩
  rintro rfl
  exact absurd hb (by decide)

/-- A colon with a letter after it is not in a pair. -/
theorem Swallows.not_paired (h : Swallows v l s) : paired s = false := by
  obtain ⟨hv, hl, t, rfl⟩ := h
  obtain ⟨b, l, rfl, hb⟩ := LTR_cons hl
  have happend : paired (v ++ byte ':' :: (b :: l) ++ t) = paired (byte ':' :: b :: (l ++ t)) := by
    rw [List.append_assoc]
    rcases hv with rfl | hv
    · rfl
    · exact paired_append hv _
  rw [happend, Bool.eq_false_iff]
  intro hpaired
  obtain ⟨_, heq⟩ := paired_colon hpaired
  exact hb (List.cons.inj heq).1

/-- A plain identifier ends before such a colon. -/
theorem Swallows.plain_prefix (h : Swallows v l s) (hu : u ∈ plain.language) (hbegins : u <+: s) : u <+: v := by
  obtain ⟨hv, hl, t, rfl⟩ := h
  rw [List.append_assoc] at hbegins
  rcases List.prefix_or_prefix_of_prefix hbegins (List.prefix_append v _) with hshort | ⟨x, rfl⟩
  · exact hshort
  have hx := (List.prefix_append_right_inj v).mp hbegins
  cases x with
  | nil => rw [List.append_nil]
  | cons b x =>
    obtain ⟨rfl, htail⟩ := List.cons_prefix_cons.mp hx
    have hpaired : paired (byte ':' :: x) = true := by
      rw [← paired_of_plain hu]
      rcases hv with rfl | hv
      · rfl
      · exact (paired_append hv _).symm
    obtain ⟨x, rfl⟩ := paired_colon hpaired
    obtain ⟨b, l, rfl, hb⟩ := LTR_cons hl
    exact absurd (List.cons_prefix_cons.mp htail).1 (Ne.symm hb)

theorem Swallows.mem_IDENT (hv : v = [] ∨ v ∈ plain.language) (hl : l ∈ LTR.language) :
    v ++ byte ':' :: l ∈ IDENT.language := by
  rcases hv with rfl | hv
  · exact ident_of_letter (colon_letter hl)
  · exact ident_append (IDENT_of_plain hv) (Or.inl (colon_letter hl))

/-- An identifier is plain, or a colon in it has a letter after it. -/
theorem mem_IDENT (hu : u ∈ IDENT.language) : u ∈ plain.language ∨ ∃ v l, Swallows v l u := by
  have hwords : ∀ words : List (List Byte), (∀ x ∈ words, x ∈ (part (seq (opt (one ':')) LTR)).language) →
      ∀ v ∈ plain.language, v ++ words.flatten ∈ plain.language ∨ ∃ v' l, Swallows v' l (v ++ words.flatten) := by
    intro words hmem
    induction words with
    | nil =>
      intro v hv
      rw [List.flatten_nil, List.append_nil]
      exact Or.inl hv
    | cons x words ih =>
      intro v hv
      obtain ⟨hx, hmem⟩ := List.forall_mem_cons.mp hmem
      replace ih := ih hmem
      rw [List.flatten_cons, ← List.append_assoc]
      rcases hx with hx | hx
      · obtain ⟨c, hc, l, hl, rfl⟩ := Language.mem_mul.mp hx
        rcases hc with ⟨b, hb, rfl⟩ | hc
        · obtain rfl := lower_colon (of_decide_eq_true hb)
          exact Or.inr ⟨v, l, Or.inr hv, hl, List.prefix_append _ _⟩
        · obtain rfl : c = [] := hc
          exact ih (v ++ l) (ident_append hv (Or.inl hl))
      · exact ih (v ++ x) (ident_append hv (Or.inr hx))
  obtain ⟨x, hx, y, hy, rfl⟩ := Language.mem_mul.mp hu
  obtain ⟨words, rfl, hmem⟩ := Language.mem_kstar.mp hy
  obtain ⟨c, hc, l, hl, rfl⟩ := Language.mem_mul.mp hx
  rcases hc with ⟨b, hb, rfl⟩ | hc
  · obtain rfl := lower_colon (of_decide_eq_true hb)
    exact Or.inr ⟨[], l, Or.inl rfl, hl, List.prefix_append _ _⟩
  · obtain rfl : c = [] := hc
    exact hwords words hmem l (ident_of_letter hl)

theorem Swallows.longest_IDENT (h : Swallows v l s) : ∃ n, IDENT.longest s = some n ∧ Swallows v l (s.take n) := by
  obtain ⟨hv, hl, hbegins⟩ := h
  obtain ⟨n, hn, hle⟩ := longest_le (Swallows.mem_IDENT hv hl) hbegins
  exact ⟨n, hn, hv, hl, List.prefix_take_iff.mpr ⟨hbegins, hle⟩⟩

theorem Swallows.longest_plain (h : Swallows v l s) (hv : v ∈ plain.language) : plain.longest s = some v.length := by
  have hbegins : v <+: s := (List.prefix_append v _).trans h.2.2
  exact longest_eq hv hbegins fun u hu hus => (h.plain_prefix hu hus).length_le

/-- Before a colon that has no letter after it, what is matched is the plain identifier. -/
theorem longest_IDENT_of_blank {b : Byte} (hv : v ∈ plain.language) (hb : IDENT.uses b = false) :
    IDENT.longest (v ++ byte ':' :: b :: s) = some v.length := by
  refine longest_eq (IDENT_of_plain hv) (List.prefix_append v _) fun u hu hbegins => ?_
  have hbegins : u <+: v ++ [byte ':'] := by
    apply prefix_of_not_uses (t := s) hu _ hb
    rwa [List.append_assoc]
  rcases List.prefix_concat_iff.mp hbegins with rfl | hshort
  · rcases mem_IDENT hu with hplain | ⟨v', l, hswallows⟩
    · have hpaired := paired_of_plain hplain
      rw [paired_append hv] at hpaired
      cases hpaired
    · have hle := (hswallows.plain_prefix hv (List.prefix_append v _)).length_le
      have hlength := hswallows.2.2.length_le
      obtain ⟨_, _, rfl, _⟩ := LTR_cons hswallows.2.1
      simp only [List.length_append, List.length_cons, List.length_nil] at hlength
      omega
  · exact hshort.length_le

end Words

end ServiceManager.Wsrpcgen
