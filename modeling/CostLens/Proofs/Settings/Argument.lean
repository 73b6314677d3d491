import CostLens.Proofs.Settings.Resolving

/-! # The value that settings were taken from

Flat settings of the store are written into the object for the store that was given. All else in
the value stays as it was, and the settings from the changed value are those from the first one.
-/
namespace CostLens.Settings

open Json (member?)

variable {d store : Members}

theorem argumentAfter_obj (d : Members) : argumentAfter (.obj d) = .obj (givenAfter d) :=
  congrArg Json.obj (drafted_spec d).1

theorem givenAfter_of_object (h : member? storeKey d = some (.obj store)) :
    givenAfter d = Json.setMember storeKey (.obj (writeAll (writes storeKeys d) store)) d := by
  rw [givenAfter, h]

theorem givenAfter_of_no_object (h : ∀ store, member? storeKey d ≠ some (.obj store)) :
    givenAfter d = d := by
  unfold givenAfter
  split
  · next store hs => exact absurd hs (h store)
  · rfl

/-- Whether each flat setting of the store is there already, in the object that it would be written
into. -/
def StoreSettled (d : Members) : Prop :=
  ∀ store, member? storeKey d = some (.obj store) →
    ∀ p ∈ storeKeys, ∀ v, member? p.1 d = some v → member? p.2 store = some v

theorem givenAfter_eq_self_iff : givenAfter d = d ↔ StoreSettled d := by
  by_cases hs : ∃ store, member? storeKey d = some (.obj store)
  · obtain ⟨store, hs⟩ := hs
    rw [givenAfter_of_object hs, Json.setMember_eq_self_iff, hs, Option.some_inj, Json.obj.injEq,
      eq_comm, writeAll_eq_self_iff (writes_storeKeys_nodup d)]
    simp only [StoreSettled, hs, Option.some_inj, Json.obj.injEq, forall_eq', mem_writes]
    refine ⟨fun h p hp v hv => h _ ⟨p, hp, v, hv, rfl⟩, ?_⟩
    rintro h w ⟨p, hp, v, hv, rfl⟩
    exact h p hp v hv
  · have hs := not_exists.1 hs
    exact iff_of_true (givenAfter_of_no_object hs) fun store h => absurd h (hs store)

theorem keys_givenAfter (d : Members) : (givenAfter d).map (·.1) = d.map (·.1) := by
  by_cases hs : ∃ store, member? storeKey d = some (.obj store)
  · obtain ⟨store, hs⟩ := hs
    rw [givenAfter_of_object hs]
    exact Json.keys_setMember (by rw [hs]; exact Option.some_ne_none _)
  · rw [givenAfter_of_no_object (not_exists.1 hs)]

theorem member?_givenAfter {k : Text} (hk : k ≠ storeKey) :
    member? k (givenAfter d) = member? k d := by
  by_cases hs : ∃ store, member? storeKey d = some (.obj store)
  · obtain ⟨store, hs⟩ := hs
    rw [givenAfter_of_object hs, Json.member?_setMember, if_neg hk]
  · rw [givenAfter_of_no_object (not_exists.1 hs)]

theorem store_givenAfter (h : member? storeKey d = some (.obj store)) :
    member? storeKey (givenAfter d) = some (.obj (writeAll (writes storeKeys d) store)) := by
  rw [givenAfter_of_object h, Json.member?_setMember, if_pos rfl]

theorem storeSettled_givenAfter (d : Members) : StoreSettled (givenAfter d) := by
  by_cases hs : ∃ store, member? storeKey d = some (.obj store)
  · obtain ⟨store, hs⟩ := hs
    have hw : writes storeKeys (givenAfter d) = writes storeKeys d :=
      writes_of_agree fun k hk => member?_givenAfter hk
    -- what is written once more is there already
    refine givenAfter_eq_self_iff.1 ?_
    rw [givenAfter_of_object (store_givenAfter hs), hw,
      writeAll_writeAll (writes_storeKeys_nodup d)]
    exact Json.setMember_eq_self_iff.2 (store_givenAfter hs)
  · have hs := not_exists.1 hs
    rw [givenAfter_of_no_object hs]
    exact fun store h => absurd h (hs store)

theorem ofMembers_givenAfter (d : Members) : ofMembers (givenAfter d) = ofMembers d := by
  by_cases hs : ∃ store, member? storeKey d = some (.obj store)
  · obtain ⟨store, hs⟩ := hs
    have hagree : ∀ k, k ≠ storeKey → member? k (givenAfter d) = member? k d :=
      fun k hk => member?_givenAfter hk
    have hstore : storeSettings (givenAfter d) = storeSettings d := by
      rw [storeSettings, storeSettings, storeValue_of_object hs,
        storeValue_of_object (store_givenAfter hs), writes_of_agree hagree,
        writeAll_writeAll (writes_storeKeys_nodup d)]
    rw [ofMembers_eq, ofMembers_eq, hstore, funext (resolved_congr hagree)]
  · rw [givenAfter_of_no_object (not_exists.1 hs)]

/-- Whatever the settings come to, the value that they were taken from is changed by the flat
settings of the store that were not in its object for the store yet, and by nothing else. Taking
settings from it again gives the same and changes nothing more. -/
theorem argument_changed_in_store_only (d : Members) :
    (argumentAfter (.obj d) = .obj d ↔
      ∀ store, member? storeKey d = some (.obj store) →
        (∀ v, member? "store_enabled" d = some v → member? "enabled" store = some v) ∧
        ∀ v, member? "store_path" d = some v → member? "path" store = some v) ∧
    ∃ d', argumentAfter (.obj d) = .obj d' ∧ d'.map (·.1) = d.map (·.1) ∧
      (∀ k, k ≠ storeKey → member? k d' = member? k d) ∧
      (∀ store, member? storeKey d = some (.obj store) → ∃ store',
        member? storeKey d' = some (.obj store') ∧ ∀ k, member? k store' =
          if k = "enabled" then (member? "store_enabled" d).or (member? "enabled" store)
          else if k = "path" then (member? "store_path" d).or (member? "path" store)
          else member? k store) ∧
      ofMembers d' = ofMembers d ∧ argumentAfter (.obj d') = .obj d' := by
  refine ⟨?_, givenAfter d, argumentAfter_obj d, keys_givenAfter d, fun k => member?_givenAfter,
    fun store hs => ?_, ofMembers_givenAfter d, ?_⟩
  · rw [argumentAfter_obj, Json.obj.injEq, givenAfter_eq_self_iff]
    simp only [StoreSettled, storeKeys, List.forall_mem_cons, List.not_mem_nil, false_imp_iff,
      implies_true, and_true]
  · exact ⟨_, store_givenAfter hs, member?_writeAll d store⟩
  · rw [argumentAfter_obj, givenAfter_eq_self_iff.2 (storeSettled_givenAfter d)]

/-- Settings with an object for the store that a flat setting is written into. -/
def overwrittenSettings : Members :=
  [("store", .obj [("path", .str "a")]), ("store_enabled", .bool false)]

theorem argument_changed_in_store_only_overwritten :
    argumentAfter (.obj overwrittenSettings) ≠ .obj overwrittenSettings := by
  intro h
  have hs := ((argument_changed_in_store_only overwrittenSettings).1.1 h _ rfl).1 _ rfl
  exact absurd hs (by decide)

end CostLens.Settings
