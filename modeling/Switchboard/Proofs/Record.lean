import Switchboard.Record

/-!
# Facts about records

Putting values never lists a name twice, and what stands under a name afterwards is the last value
put there. A record without repeated names is what putting all its pairs builds up from nothing.
-/

namespace Switchboard.Record

variable {κ α : Type}

@[simp] theorem names_nil : names ([] : Record κ α) = [] := rfl

@[simp] theorem names_cons (pair : κ × α) (rest : Record κ α) :
    names (pair :: rest) = pair.1 :: names rest := rfl

variable [DecidableEq κ]

theorem names_put (r : Record κ α) (name : κ) (value : α) :
    names (put name value r) = if name ∈ names r then names r else names r ++ [name] := by
  induction r with
  | nil => rfl
  | cons pair rest ih =>
    obtain ⟨other, old⟩ := pair
    by_cases hOther : other = name
    · simp [put, names, hOther]
    · rw [put, if_neg hOther, names_cons, names_cons, ih]
      by_cases hName : name ∈ names rest
      · rw [if_pos hName, if_pos (List.mem_cons_of_mem other hName)]
      · have hNew : name ∉ other :: names rest :=
          List.not_mem_cons_of_ne_of_not_mem (Ne.symm hOther) hName
        rw [if_neg hName, if_neg hNew]
        rfl

theorem nodup_names_put {r : Record κ α} (h : (names r).Nodup) (name : κ) (value : α) :
    (names (put name value r)).Nodup := by
  rw [names_put]
  split
  · exact h
  · rename_i hName
    refine List.nodup_append.mpr ⟨h, by simp, ?_⟩
    intro other hOther new hNew hEq
    rw [hEq, List.mem_singleton.mp hNew] at hOther
    exact hName hOther

theorem nodup_names_putAll {r : Record κ α} (h : (names r).Nodup) (pairs : List (κ × α)) :
    (names (putAll r pairs)).Nodup := by
  induction pairs generalizing r with
  | nil => exact h
  | cons pair rest ih => exact ih (nodup_names_put h pair.1 pair.2)

theorem mem_of_mem_put {r : Record κ α} {name : κ} {value : α} {pair : κ × α}
    (h : pair ∈ put name value r) : pair = (name, value) ∨ pair ∈ r := by
  induction r with
  | nil => exact .inl (List.mem_singleton.mp h)
  | cons first rest ih =>
    obtain ⟨other, old⟩ := first
    rw [put] at h
    split at h
    · rename_i hOther
      rcases List.mem_cons.mp h with rfl | hRest
      · exact .inl (by rw [hOther])
      · exact .inr (List.mem_cons_of_mem _ hRest)
    · rcases List.mem_cons.mp h with rfl | hRest
      · exact .inr List.mem_cons_self
      · exact (ih hRest).imp_right (List.mem_cons_of_mem _)

theorem mem_of_mem_putAll {r : Record κ α} {pairs : List (κ × α)} {pair : κ × α}
    (h : pair ∈ putAll r pairs) : pair ∈ pairs ∨ pair ∈ r := by
  induction pairs generalizing r with
  | nil => exact .inr h
  | cons first rest ih =>
    rcases ih h with hRest | hPut
    · exact .inl (List.mem_cons_of_mem _ hRest)
    · rcases mem_of_mem_put hPut with rfl | hOld
      · exact .inl List.mem_cons_self
      · exact .inr hOld

theorem put_of_not_mem {r : Record κ α} {name : κ} (h : name ∉ names r) (value : α) :
    put name value r = r ++ [(name, value)] := by
  induction r with
  | nil => rfl
  | cons pair rest ih =>
    obtain ⟨other, old⟩ := pair
    rw [names_cons, List.mem_cons, not_or] at h
    rw [put, if_neg (Ne.symm h.1), ih h.2]
    rfl

theorem putAll_eq_append {r pairs : Record κ α} (h : (names (r ++ pairs)).Nodup) :
    putAll r pairs = r ++ pairs := by
  induction pairs generalizing r with
  | nil => exact (List.append_nil r).symm
  | cons pair rest ih =>
    obtain ⟨name, value⟩ := pair
    have hName : name ∉ names r := by
      intro hMem
      rw [names, List.map_append] at h
      exact (List.nodup_append.mp h).2.2 name hMem name List.mem_cons_self rfl
    have hSplit : r ++ (name, value) :: rest = (r ++ [(name, value)]) ++ rest := by simp
    change putAll (put name value r) rest = _
    rw [put_of_not_mem hName, hSplit]
    exact ih (hSplit ▸ h)

theorem putAll_nil {members : Record κ α} (h : (names members).Nodup) :
    putAll [] members = members :=
  putAll_eq_append h

theorem put_put (r : Record κ α) (name : κ) (first last : α) :
    put name last (put name first r) = put name last r := by
  induction r with
  | nil => simp [put]
  | cons pair rest ih =>
    obtain ⟨other, old⟩ := pair
    by_cases hOther : other = name
    · simp [put, hOther]
    · simp [put, hOther, ih]

theorem get?_eq_none_iff (r : Record κ α) (name : κ) : get? r name = none ↔ name ∉ names r := by
  induction r with
  | nil => simp
  | cons pair rest ih =>
    rw [get?_cons]
    by_cases hName : name = pair.1
    · simp [hName]
    · rw [if_neg hName, ih]
      simp [hName]

theorem get?_eq_some_iff {r : Record κ α} (h : (names r).Nodup) (name : κ) (value : α) :
    get? r name = some value ↔ (name, value) ∈ r := by
  induction r with
  | nil => simp
  | cons pair rest ih =>
    obtain ⟨other, old⟩ := pair
    obtain ⟨hOther, hRest⟩ := List.nodup_cons.mp h
    rw [get?_cons, List.mem_cons, Prod.mk.injEq]
    split
    · rename_i hName
      subst hName
      have hLater : (name, value) ∉ rest := fun hMem =>
        hOther (List.mem_map.mpr ⟨_, hMem, rfl⟩)
      simp [hLater, eq_comm]
    · rename_i hName
      simp [hName, ih hRest]

theorem get?_append (r s : Record κ α) (asked : κ) :
    get? (r ++ s) asked = (get? r asked).or (get? s asked) :=
  List.lookup_append

/-- Of the values put under a name the last one stands. -/
theorem get?_putAll (r : Record κ α) (pairs : List (κ × α)) (asked : κ) :
    get? (putAll r pairs) asked = (get? pairs.reverse asked).or (get? r asked) := by
  induction pairs generalizing r with
  | nil => rfl
  | cons pair rest ih =>
    change get? (putAll (put pair.1 pair.2 r) rest) asked = _
    rw [ih, get?_put, List.reverse_cons, get?_append, Option.or_assoc, get?_cons, get?_nil]
    split
    · rfl
    · rfl

theorem get?_putAll_of_nodup (r : Record κ α) {pairs : Record κ α} (h : (names pairs).Nodup)
    (asked : κ) : get? (putAll r pairs) asked = (get? pairs asked).or (get? r asked) := by
  induction pairs generalizing r with
  | nil => rfl
  | cons pair rest ih =>
    obtain ⟨hFirst, hRest⟩ := List.nodup_cons.mp h
    change get? (putAll (put pair.1 pair.2 r) rest) asked = _
    rw [ih _ hRest, get?_put, get?_cons]
    by_cases hAsked : asked = pair.1
    · have hNone : get? rest asked = none := (get?_eq_none_iff rest asked).mpr (hAsked ▸ hFirst)
      rw [if_pos hAsked, if_pos hAsked, hNone]
      rfl
    · rw [if_neg hAsked, if_neg hAsked]

end Switchboard.Record
