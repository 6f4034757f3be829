import Mathlib.Data.List.Basic

/-! What is looked up in a list of pairs. -/

namespace Stencil

variable {α β : Type} [BEq α] [LawfulBEq α] [DecidableEq α]

theorem lookup_cons_ite (k : α) (v : β) (entries : List (α × β)) (a : α) :
    ((k, v) :: entries).lookup a = if a = k then some v else entries.lookup a := by
  rw [List.lookup_cons]
  by_cases h : a = k
  · rw [if_pos h, beq_iff_eq.mpr h]
  · rw [if_neg h, beq_false_of_ne h]

theorem any_key_eq_isSome_lookup (entries : List (α × β)) (a : α) :
    (entries.any fun e => e.1 == a) = (entries.lookup a).isSome := by
  induction entries with
  | nil => rfl
  | cons e entries ih =>
    obtain ⟨k, v⟩ := e
    rw [List.any_cons, lookup_cons_ite, ih]
    by_cases h : a = k
    · rw [if_pos h, beq_iff_eq.mpr h.symm]
      rfl
    · rw [if_neg h, beq_false_of_ne (Ne.symm h), Bool.false_or]

theorem lookup_eq_none_iff_not_mem (entries : List (α × β)) (a : α) :
    entries.lookup a = none ↔ a ∉ entries.map (·.1) := by
  induction entries with
  | nil => simp
  | cons e entries ih =>
    rw [lookup_cons_ite, List.map_cons, List.mem_cons, not_or, ← ih]
    by_cases h : a = e.1 <;> simp [h]

/-- Where no key stands twice, what is found under a key is the pair that is there. -/
theorem lookup_eq_some_iff_mem {entries : List (α × β)} (hnodup : (entries.map (·.1)).Nodup) {a : α} {b : β} :
    entries.lookup a = some b ↔ (a, b) ∈ entries := by
  induction entries with
  | nil => simp
  | cons e entries ih =>
    obtain ⟨k, v⟩ := e
    obtain ⟨hk, hrest⟩ := List.nodup_cons.mp hnodup
    rw [lookup_cons_ite, List.mem_cons, Prod.mk.injEq]
    by_cases h : a = k
    · subst h
      have hnot : (a, b) ∉ entries := fun hmem => hk (List.mem_map.mpr ⟨(a, b), hmem, rfl⟩)
      simp [hnot, eq_comm]
    · simp [h, ih hrest]

theorem lookup_eq_of_perm {entries entries' : List (α × β)} (h : entries.Perm entries')
    (hnodup : (entries.map (·.1)).Nodup) (a : α) : entries.lookup a = entries'.lookup a := by
  have hnodup' : (entries'.map (·.1)).Nodup := (h.map _).nodup_iff.mp hnodup
  refine Option.ext fun b => ?_
  rw [lookup_eq_some_iff_mem hnodup, lookup_eq_some_iff_mem hnodup', h.mem_iff]

/-- What is found after every value under one key has been set. -/
theorem lookup_map_set (entries : List (α × β)) (k : α) (v : β) (a : α) :
    (entries.map fun e => if e.1 = k then (k, v) else e).lookup a =
      if a = k then (entries.lookup k).map fun _ => v else entries.lookup a := by
  induction entries with
  | nil => simp
  | cons e entries ih =>
    obtain ⟨k', v'⟩ := e
    rw [List.map_cons, lookup_cons_ite, lookup_cons_ite]
    by_cases hk : k' = k
    · subst hk
      rw [if_pos rfl, lookup_cons_ite, ih, if_pos rfl]
      split <;> rfl
    · rw [if_neg hk, lookup_cons_ite, ih, if_neg (Ne.symm hk)]
      by_cases ha : a = k'
      · subst ha
        rw [if_pos rfl, if_pos rfl, if_neg hk]
      · rw [if_neg ha, if_neg ha]

end Stencil
