import Stencil.Edit.Renaming
import Stencil.Proofs.Lookup

/-! What a renaming makes of names. It gives a name that has an entry the target of that entry and leaves every other
    name as it is. Of entries for one name the last one counts, and the entries of a renaming, made
    again in their order, give the same renaming. The renaming of a module changes two names at most. -/

namespace Stencil

theorem lookup_setTarget (source target : String) (entries : List (String × String)) (name : String) :
    (setTarget source target entries).lookup name = if name = source then some target else entries.lookup name := by
  induction entries with
  | nil => exact lookup_cons_ite source target [] name
  | cons first rest ih =>
    obtain ⟨s, t⟩ := first
    unfold setTarget
    split
    · exact lookup_cons_ite source target ((s, t) :: rest) name
    · split
      · rename_i heq
        subst heq
        rw [lookup_cons_ite, lookup_cons_ite]
        by_cases hname : name = source <;> simp [hname]
      · rename_i hne
        rw [lookup_cons_ite, lookup_cons_ite, ih]
        by_cases hname : name = s
        · subst hname
          rw [if_pos rfl, if_pos rfl, if_neg (Ne.symm hne)]
        · rw [if_neg hname, if_neg hname]

theorem setTarget_of_forall_lt {source target : String} {entries : List (String × String)}
    (h : ∀ e ∈ entries, e.1 < source) : setTarget source target entries = entries ++ [(source, target)] := by
  induction entries with
  | nil => rfl
  | cons first rest ih =>
    obtain ⟨hfirst, hrest⟩ := List.forall_mem_cons.mp h
    have hne : source ≠ first.1 := fun heq => String.lt_irrefl _ (heq ▸ hfirst)
    rw [setTarget, if_neg (String.lt_asymm hfirst), if_neg hne, ih hrest]
    rfl

namespace Renaming

theorem nodup_sources (r : Renaming) : (r.entries.map (·.1)).Nodup := by
  refine List.pairwise_map.mpr (r.sorted.imp fun {e e'} hlt heq => ?_)
  rw [heq] at hlt
  exact String.lt_irrefl _ hlt

theorem get?_eq_some_iff {r : Renaming} {source target : String} :
    r.get? source = some target ↔ (source, target) ∈ r.entries :=
  lookup_eq_some_iff_mem r.nodup_sources

theorem get?_eq_none_iff {r : Renaming} {name : String} : r.get? name = none ↔ name ∉ r.entries.map (·.1) :=
  lookup_eq_none_iff_not_mem r.entries name

theorem apply_of_mem {r : Renaming} {source target : String} (h : (source, target) ∈ r.entries) :
    r.apply source = target :=
  apply_of_some (get?_eq_some_iff.mpr h)

theorem apply_of_not_mem {r : Renaming} {name : String} (h : name ∉ r.entries.map (·.1)) : r.apply name = name :=
  apply_of_none (get?_eq_none_iff.mpr h)

theorem mem_of_apply_ne {r : Renaming} {name : String} (h : r.apply name ≠ name) :
    (name, r.apply name) ∈ r.entries := by
  cases hget : r.get? name with
  | none => exact absurd (apply_of_none hget) h
  | some target =>
    rw [apply_of_some hget]
    exact get?_eq_some_iff.mp hget

theorem get?_insert (r : Renaming) (source target name : String) :
    (r.insert source target).get? name = if name = source then some target else r.get? name :=
  lookup_setTarget source target r.entries name

/-- Of entries for one name the last one counts. -/
theorem get?_insertAll (r : Renaming) (entries : List (String × String)) (name : String) :
    (r.insertAll entries).get? name = (entries.reverse.lookup name).or (r.get? name) := by
  induction entries generalizing r with
  | nil => rfl
  | cons e entries ih =>
    change ((r.insert e.1 e.2).insertAll entries).get? name = _
    rw [ih, get?_insert, List.reverse_cons, List.lookup_append, Option.or_assoc, lookup_cons_ite]
    split <;> rfl

/-- A name that no entry has keeps what it had. -/
theorem get?_insertAll_of_not_mem {entries : List (String × String)} {name : String}
    (h : name ∉ entries.map (·.1)) (r : Renaming) : (r.insertAll entries).get? name = r.get? name := by
  induction entries generalizing r with
  | nil => rfl
  | cons e entries ih =>
    rw [List.map_cons, List.mem_cons, not_or] at h
    exact (ih h.2 _).trans ((r.get?_insert e.1 e.2 name).trans (if_neg h.1))

theorem get?_insertAll_of_mem {entries : List (String × String)} (hnodup : (entries.map (·.1)).Nodup)
    {source target : String} (h : (source, target) ∈ entries) (r : Renaming) :
    (r.insertAll entries).get? source = some target := by
  induction entries generalizing r with
  | nil => cases h
  | cons e entries ih =>
    rw [List.map_cons, List.nodup_cons] at hnodup
    rcases List.mem_cons.mp h with rfl | h
    · exact (get?_insertAll_of_not_mem hnodup.1 _).trans ((r.get?_insert _ _ _).trans (if_pos rfl))
    · exact ih hnodup.2 h _

theorem ext_entries {r r' : Renaming} (h : r.entries = r'.entries) : r = r' := by
  cases r
  cases r'
  cases h
  rfl

/-- The entries of a renaming make the same renaming again. -/
theorem insertAll_entries (r : Renaming) : empty.insertAll r.entries = r := by
  have hafter (after : List (String × String)) : ∀ r : Renaming, (r.entries ++ after).Pairwise (·.1 < ·.1) →
      (r.insertAll after).entries = r.entries ++ after := by
    induction after with
    | nil => exact fun r _ => (List.append_nil r.entries).symm
    | cons e after ih =>
      intro r h
      have hinsert : (r.insert e.1 e.2).entries = r.entries ++ [e] :=
        setTarget_of_forall_lt fun e' he' => (List.pairwise_append.mp h).2.2 e' he' e List.mem_cons_self
      have hnext := ih (r.insert e.1 e.2)
      rw [hinsert, List.append_assoc] at hnext
      exact hnext h
  exact ext_entries (hafter r.entries empty r.sorted)

theorem ofModule_apply (source target name : String) : (ofModule source target).apply name =
    if name = source then target
    else if name = Uppercase.ofString source then Uppercase.ofString target else name := by
  have hempty : empty.get? name = none := rfl
  unfold ofModule apply
  dsimp only
  split
  · rename_i hupper
    rw [get?_insert, hempty, hupper]
    split <;> rfl
  · rename_i hupper
    rw [get?_insert, get?_insert, hempty]
    by_cases hname : name = source
    · subst hname
      rw [if_neg (Ne.symm hupper), if_pos rfl, if_pos rfl]
      rfl
    · rw [if_neg hname, if_neg hname]
      split <;> rfl

end Renaming

end Stencil
