import SolcDispatch.Assoc

/-! What is found in a list of named values after a change of it. -/

namespace SolcDispatch.Assoc

open scoped List

variable {κ : Type} [DecidableEq κ] {α : Type} {entries : List (κ × α)} {name other : κ}
  {value : α}

theorem get?_cons_self : get? ((name, value) :: entries) name = some value := by
  rw [get?, if_pos rfl]

theorem get?_cons_ne (hne : other ≠ name) :
    get? ((name, value) :: entries) other = get? entries other := by
  rw [get?, if_neg (Ne.symm hne)]

theorem get?_put_self : get? (put entries name value) name = some value := by
  induction entries with
  | nil => simp [put, get?]
  | cons e entries ih =>
    by_cases he : e.1 = name
    · simp [put, get?, he]
    · simp [put, get?, he, ih]

theorem get?_put_ne (hne : other ≠ name) :
    get? (put entries name value) other = get? entries other := by
  induction entries with
  | nil => simp [put, get?, Ne.symm hne]
  | cons e entries ih =>
    by_cases he : e.1 = name
    · simp [put, get?, he, Ne.symm hne]
    · simp only [put, he, if_false, get?, ih]

theorem get?_without_self : get? (without entries [name]) name = none := by
  induction entries with
  | nil => rfl
  | cons e entries ih =>
    unfold without at ih ⊢
    by_cases he : e.1 = name
    · simpa [List.filter_cons, he] using ih
    · simpa [List.filter_cons, he, get?] using ih

theorem get?_without_ne (hne : other ≠ name) :
    get? (without entries [name]) other = get? entries other := by
  induction entries with
  | nil => rfl
  | cons e entries ih =>
    unfold without at ih ⊢
    by_cases he : e.1 = name
    · have ho : ¬ e.1 = other := fun h => hne (h.symm.trans he)
      simpa [List.filter_cons, he, get?, Ne.symm hne] using ih
    · have hf : [name].contains e.1 = false := by simpa using he
      simp only [List.filter_cons, hf, Bool.not_false, if_true, get?, ih]

theorem eq_nil_of_get?_none (h : ∀ name, get? entries name = none) : entries = [] := by
  cases entries with
  | nil => rfl
  | cons e entries =>
    have he := h e.1
    simp [get?] at he

theorem put_of_notMem (h : name ∉ entries.map Prod.fst) :
    put entries name value = entries ++ [(name, value)] := by
  induction entries with
  | nil => rfl
  | cons e entries ih =>
    rw [List.map_cons, List.mem_cons, not_or] at h
    rw [put, if_neg (Ne.symm h.1), ih h.2, List.cons_append]

theorem putAll_of_nodup {added : List (κ × α)}
    (h : ((entries ++ added).map Prod.fst).Nodup) : putAll entries added = entries ++ added := by
  induction added generalizing entries with
  | nil => rw [List.append_nil, putAll, List.foldl_nil]
  | cons e added ih =>
    have hnew : e.1 ∉ entries.map Prod.fst := by
      rw [List.map_append, List.nodup_append] at h
      exact fun he => h.2.2 e.1 he e.1 List.mem_cons_self rfl
    rw [List.append_cons] at h ⊢
    rw [← ih h, putAll, List.foldl_cons, put_of_notMem hnew, putAll]

theorem ofPairs_of_nodup (h : (entries.map Prod.fst).Nodup) : ofPairs entries = entries :=
  putAll_of_nodup h

theorem map_fst_put : (put entries name value).map Prod.fst =
    if name ∈ entries.map Prod.fst then entries.map Prod.fst
    else entries.map Prod.fst ++ [name] := by
  induction entries with
  | nil => simp [put]
  | cons e entries ih =>
    by_cases he : e.1 = name
    · simp [put, he]
    · rw [put, if_neg he, List.map_cons, ih]
      by_cases hm : name ∈ entries.map Prod.fst
      · simp [hm]
      · simp [hm, Ne.symm he]

theorem nodup_put (h : (entries.map Prod.fst).Nodup) :
    ((put entries name value).map Prod.fst).Nodup := by
  rw [map_fst_put]
  split
  · exact h
  · rename_i hm
    rw [List.nodup_append]
    refine ⟨h, by simp, ?_⟩
    intro a ha b hb
    obtain rfl := List.mem_singleton.mp hb
    rintro rfl
    exact hm ha

theorem mem_put {e : κ × α} (h : e ∈ put entries name value) :
    e = (name, value) ∨ e ∈ entries := by
  induction entries with
  | nil => exact .inl (List.mem_singleton.mp h)
  | cons first entries ih =>
    rw [put] at h
    split at h
    · rename_i heq
      rcases List.mem_cons.mp h with rfl | h
      · exact .inl (by rw [heq])
      · exact .inr (List.mem_cons_of_mem _ h)
    · rcases List.mem_cons.mp h with rfl | h
      · exact .inr List.mem_cons_self
      · exact (ih h).imp id (List.mem_cons_of_mem _)

theorem nodup_putAll {added : List (κ × α)} (h : (entries.map Prod.fst).Nodup) :
    ((putAll entries added).map Prod.fst).Nodup := by
  induction added generalizing entries with
  | nil => exact h
  | cons e added ih => exact ih (nodup_put h)

theorem mem_putAll {added : List (κ × α)} {e : κ × α} (h : e ∈ putAll entries added) :
    e ∈ entries ∨ e ∈ added := by
  induction added generalizing entries with
  | nil => exact .inl h
  | cons first added ih =>
    rcases ih h with hput | hadded
    · rcases mem_put hput with rfl | hold
      · exact .inr List.mem_cons_self
      · exact .inl hold
    · exact .inr (List.mem_cons_of_mem _ hadded)

theorem nodup_ofPairs (pairs : List (κ × α)) : ((ofPairs pairs).map Prod.fst).Nodup :=
  nodup_putAll List.nodup_nil

theorem mem_ofPairs {pairs : List (κ × α)} {e : κ × α} (h : e ∈ ofPairs pairs) :
    e ∈ pairs := by
  rcases mem_putAll h with h | h
  · cases h
  · exact h

theorem mem_of_get? (h : get? entries name = some value) : (name, value) ∈ entries := by
  induction entries with
  | nil => cases h
  | cons e entries ih =>
    rw [get?] at h
    split at h
    · rename_i heq
      cases h
      exact heq ▸ List.mem_cons_self
    · exact List.mem_cons_of_mem _ (ih h)

theorem without_sublist (entries : List (κ × α)) (names : List κ) :
    (without entries names).Sublist entries := List.filter_sublist

theorem notMem_without {names : List κ} (h : name ∈ names) :
    name ∉ (without entries names).map Prod.fst := by
  intro hname
  obtain ⟨e, he, rfl⟩ := List.mem_map.mp hname
  have hout := (List.mem_filter.mp he).2
  simp [h] at hout

theorem get?_append_of_notMem {more : List (κ × α)} (h : name ∉ entries.map Prod.fst) :
    get? (entries ++ more) name = get? more name := by
  induction entries with
  | nil => rfl
  | cons e entries ih =>
    rw [List.map_cons, List.mem_cons, not_or] at h
    rw [List.cons_append, get?, if_neg (Ne.symm h.1), ih h.2]

theorem get?_of_notMem (h : name ∉ entries.map Prod.fst) : get? entries name = none := by
  rw [← List.append_nil entries, get?_append_of_notMem h]
  rfl

theorem notMem_of_get?_none (h : get? entries name = none) : name ∉ entries.map Prod.fst := by
  induction entries with
  | nil => simp
  | cons e entries ih =>
    rw [get?] at h
    split at h
    · cases h
    · rename_i hne
      simpa [Ne.symm hne] using ih h

theorem without_of_notMem {names : List κ} (h : ∀ name ∈ names, name ∉ entries.map Prod.fst) :
    without entries names = entries := by
  rw [without, List.filter_eq_self]
  intro e he
  have hname : e.1 ∉ names := fun hmem => h e.1 hmem (List.mem_map_of_mem he)
  simpa using hname

theorem without_cons_of_mem {names : List κ} (h : name ∈ names) :
    without ((name, value) :: entries) names = without entries names :=
  List.filter_cons_of_neg (by simp [h])

theorem without_cons_of_notMem {names : List κ} (h : name ∉ names) :
    without ((name, value) :: entries) names = (name, value) :: without entries names :=
  List.filter_cons_of_pos (by simp [h])

theorem without_without (entries : List (κ × α)) (names more : List κ) :
    without (without entries names) more = without entries (names ++ more) := by
  rw [without, without, without, List.filter_filter]
  refine List.filter_congr fun e _ => ?_
  simp [Bool.and_comm]

theorem without_append (entries more : List (κ × α)) (names : List κ) :
    without (entries ++ more) names = without entries names ++ without more names :=
  List.filter_append ..

/-- A name that stands once parts the entries into those before it and those after it. -/
theorem split_of_get? (h : get? entries name = some value) (hnodup : (entries.map Prod.fst).Nodup) :
    ∃ before after, entries = before ++ (name, value) :: after ∧
      without entries [name] = before ++ after := by
  obtain ⟨before, after, rfl⟩ := List.append_of_mem (mem_of_get? h)
  refine ⟨before, after, rfl, ?_⟩
  rw [List.map_append, List.map_cons, (List.perm_middle).nodup_iff, List.nodup_cons,
    List.mem_append, not_or] at hnodup
  have hbefore : without before [name] = before := without_of_notMem (by simpa using hnodup.1.1)
  have hafter : without after [name] = after := without_of_notMem (by simpa using hnodup.1.2)
  rw [without_append, without_cons_of_mem (List.mem_singleton.mpr rfl), hbefore, hafter]

theorem get?_eq_some_iff (hnodup : (entries.map Prod.fst).Nodup) :
    get? entries name = some value ↔ (name, value) ∈ entries := by
  refine ⟨mem_of_get?, fun hmem => ?_⟩
  obtain ⟨before, after, rfl⟩ := List.append_of_mem hmem
  rw [List.map_append, List.map_cons, List.perm_middle.nodup_iff, List.nodup_cons,
    List.mem_append, not_or] at hnodup
  rw [get?_append_of_notMem hnodup.1.1, get?_cons_self]

theorem get?_map {β : Type} (f : α → β) (entries : List (κ × α)) (name : κ) :
    get? (entries.map fun e => (e.1, f e.2)) name = (get? entries name).map f := by
  induction entries with
  | nil => rfl
  | cons e entries ih =>
    rw [List.map_cons]
    by_cases he : e.1 = name
    · rw [get?, get?, if_pos he, if_pos he, Option.map_some]
    · rw [get?, get?, if_neg he, if_neg he, ih]

theorem get?_putAll {added : List (κ × α)} (hadded : (added.map Prod.fst).Nodup) (name : κ) :
    get? (putAll entries added) name = (get? added name).or (get? entries name) := by
  induction added generalizing entries with
  | nil => rfl
  | cons e added ih =>
    obtain ⟨hnew, hrest⟩ := List.nodup_cons.mp hadded
    have hputAll : putAll entries (e :: added) = putAll (put entries e.1 e.2) added := rfl
    rw [hputAll, ih hrest]
    by_cases he : e.1 = name
    · subst he
      rw [get?_of_notMem hnew, get?_cons_self, get?_put_self, Option.none_or, Option.some_or]
    · rw [get?_cons_ne (Ne.symm he), get?_put_ne (Ne.symm he)]

theorem without_put : without (put entries name value) [name] = without entries [name] := by
  induction entries with
  | nil => exact without_cons_of_mem (List.mem_singleton.mpr rfl)
  | cons e entries ih =>
    by_cases he : e.1 = name
    · have hmem : e.1 ∈ [name] := List.mem_singleton.mpr he
      rw [put, if_pos he, without_cons_of_mem hmem, without_cons_of_mem hmem]
    · have hkept : e.1 ∉ [name] := fun hmem => he (List.mem_singleton.mp hmem)
      rw [put, if_neg he, without_cons_of_notMem hkept, without_cons_of_notMem hkept, ih]

theorem perm_of_get? (h : get? entries name = some value)
    (hnodup : (entries.map Prod.fst).Nodup) :
    entries.Perm ((name, value) :: without entries [name]) := by
  obtain ⟨before, after, hsplit, hwithout⟩ := split_of_get? h hnodup
  rw [hwithout, hsplit]
  exact List.perm_middle

theorem put_perm (hnodup : (entries.map Prod.fst).Nodup) :
    (put entries name value).Perm ((name, value) :: without entries [name]) := by
  have hget : get? (put entries name value) name = some value := get?_put_self
  have hput := perm_of_get? hget (nodup_put hnodup)
  rwa [without_put] at hput

/-- Of entries to which others are added, those without a new value are kept. -/
theorem putAll_perm {added : List (κ × α)} (hentries : (entries.map Prod.fst).Nodup)
    (hadded : (added.map Prod.fst).Nodup) :
    (putAll entries added).Perm (without entries (added.map Prod.fst) ++ added) := by
  induction added generalizing entries with
  | nil =>
    rw [List.map_nil, without_of_notMem (by simp), List.append_nil]
    exact .refl _
  | cons e added ih =>
    obtain ⟨hnew, hrest⟩ := List.nodup_cons.mp hadded
    calc putAll (put entries e.1 e.2) added
      _ ~ without (put entries e.1 e.2) (added.map Prod.fst) ++ added :=
        ih (nodup_put hentries) hrest
      _ ~ without (e :: without entries [e.1]) (added.map Prod.fst) ++ added :=
        ((put_perm hentries).filter _).append_right _
      _ = e :: (without entries (e.1 :: added.map Prod.fst) ++ added) := by
        rw [without_cons_of_notMem hnew, without_without, List.singleton_append, List.cons_append]
      _ ~ without entries ((e :: added).map Prod.fst) ++ e :: added := List.perm_middle.symm

end SolcDispatch.Assoc
