import CostLens.Json.Basic

/-! # Members by key

An object is read by its keys. Putting and removing a member change what is found under one key
only, and if no key repeats, what is found does not depend on the order of the members.
-/
namespace CostLens.Json

variable {key k : Text} {v : Json} {ms ms' : List (Text × Json)}

theorem member?_cons (k : Text) (m : Text × Json) (ms : List (Text × Json)) :
    member? k (m :: ms) = if k = m.1 then some m.2 else member? k ms := by
  rw [member?, List.lookup_cons]
  by_cases h : k = m.1
  · simp [h]
  · rw [if_neg h, beq_false_of_ne h]
    rfl

theorem member?_setMember (key k : Text) (v : Json) (ms : List (Text × Json)) :
    member? k (setMember key v ms) = if k = key then some v else member? k ms := by
  induction ms with
  | nil => exact member?_cons k (key, v) []
  | cons m ms ih =>
    rw [setMember, member?_cons]
    by_cases h : m.1 = key
    · rw [if_pos h, member?_cons, h]
      by_cases hk : k = key <;> simp [hk]
    · rw [if_neg h, member?_cons, ih]
      by_cases hk : k = key
      · subst hk
        simp [Ne.symm h]
      · simp [hk]

theorem member?_removeMember (key k : Text) (ms : List (Text × Json)) :
    member? k (removeMember key ms) = if k = key then none else member? k ms := by
  induction ms with
  | nil => simp [removeMember, member?]
  | cons m ms ih =>
    rw [member?_cons, removeMember, List.filter_cons]
    by_cases h : m.1 = key
    · rw [if_neg (by simp [h]), ← removeMember, ih, h]
      by_cases hk : k = key <;> simp [hk]
    · rw [if_pos (by simp [h]), ← removeMember, member?_cons, ih]
      by_cases hk : k = key
      · subst hk
        simp [Ne.symm h]
      · simp [hk]

theorem mem_of_member? (h : member? k ms = some v) : ∃ m ∈ ms, m.2 = v := by
  induction ms with
  | nil => cases h
  | cons m ms ih =>
    rw [member?_cons] at h
    split at h
    · exact ⟨m, List.mem_cons_self, Option.some.inj h⟩
    · obtain ⟨m', hm, he⟩ := ih h
      exact ⟨m', List.mem_cons_of_mem _ hm, he⟩

theorem member?_eq_none_iff : member? k ms = none ↔ k ∉ ms.map (·.1) := by
  induction ms with
  | nil => simp [member?]
  | cons m ms ih =>
    rw [member?_cons]
    by_cases h : k = m.1 <;> simp [h, ih]

theorem setMember_setMember (key : Text) (u v : Json) (ms : List (Text × Json)) :
    setMember key v (setMember key u ms) = setMember key v ms := by
  induction ms with
  | nil => simp [setMember]
  | cons m ms ih =>
    by_cases h : m.1 = key <;> simp [setMember, h, ih]

theorem setMember_eq_self_iff : setMember key v ms = ms ↔ member? key ms = some v := by
  induction ms with
  | nil => simp [setMember, member?]
  | cons m ms ih =>
    obtain ⟨k, u⟩ := m
    rw [setMember, member?_cons]
    by_cases h : k = key
    · simp [h, eq_comm]
    · simp [h, Ne.symm h, ih]

theorem keys_setMember (h : member? key ms ≠ none) :
    (setMember key v ms).map (·.1) = ms.map (·.1) := by
  induction ms with
  | nil => exact absurd rfl h
  | cons m ms ih =>
    rw [member?_cons] at h
    rw [setMember]
    by_cases hk : m.1 = key
    · simp [hk]
    · rw [if_neg (Ne.symm hk)] at h
      simp [hk, ih h]

/-- If no key repeats, what is found under a key is the member with that key. -/
theorem member?_eq_some_iff (hn : (ms.map (·.1)).Nodup) :
    member? k ms = some v ↔ (k, v) ∈ ms := by
  induction ms with
  | nil => simp [member?]
  | cons m ms ih =>
    obtain ⟨hm, hms⟩ := List.nodup_cons.1 hn
    rw [member?_cons, List.mem_cons]
    by_cases h : k = m.1
    · have hnot : (k, v) ∉ ms := fun hin => hm (List.mem_map.2 ⟨_, hin, h⟩)
      simp [h ▸ hnot, h, Prod.ext_iff, eq_comm]
    · simp [h, ih hms, Prod.ext_iff]

theorem member?_perm (hn : (ms.map (·.1)).Nodup) (h : ms.Perm ms') (k : Text) :
    member? k ms' = member? k ms := by
  have hn' : (ms'.map (·.1)).Nodup := (h.map _).nodup_iff.1 hn
  ext v
  rw [member?_eq_some_iff hn, member?_eq_some_iff hn', h.mem_iff]

end CostLens.Json
