import CostLens.Proofs.Settings.Placing
import CostLens.Proofs.Text.Order

/-! # Settings key by key

The settings are a function of what is found under each key. So neither the order of the members
nor that of the members of the object for the store shows in them.
-/
namespace CostLens.Settings

open Json (member?)

/-! ## The known keys -/

def knownKeys : List Text :=
  ["default_language", "language", "output_format", "timestamp_format", "show_explanation",
    "debug", "log_file", "store_enabled", "store_path", storeKey]

theorem knownKeys_perm : knownKeys.Perm (fieldKeys ++ movedKeys) := by decide

/-- A key of some settings that stands for nothing. -/
def Unknown (d : Members) (k : Text) : Prop := k ∈ d.map (·.1) ∧ k ∉ knownKeys

/-- The keys that stand for nothing, in the order of code points. -/
def unknownNames (d : Members) : List Text :=
  sortedNames ((d.map (·.1)).filter fun k => !knownKeys.contains k)

theorem mem_unknownNames {d : Members} {k : Text} : k ∈ unknownNames d ↔ Unknown d k := by
  simp [unknownNames, mem_sortedNames, Unknown]

theorem unknownNames_eq_nil_iff {d : Members} : unknownNames d = [] ↔ ∀ k, ¬ Unknown d k := by
  simp only [List.eq_nil_iff_forall_not_mem, mem_unknownNames]

theorem unknownNames_congr {d d' : Members}
    (h : ∀ k, k ≠ storeKey → member? k d' = member? k d) : unknownNames d' = unknownNames d := by
  refine sortedNames_congr fun k => ?_
  simp only [List.mem_filter, Bool.not_eq_true', List.contains_eq_mem, decide_eq_false_iff_not]
  refine and_congr_left fun hk => ?_
  have hs : k ≠ storeKey := fun he => hk (he ▸ by decide)
  rw [← not_iff_not, ← Json.member?_eq_none_iff, ← Json.member?_eq_none_iff, h k hs]

/-- Flat keys have left their own places, so that what is unknown then was unknown before. -/
theorem Placed.unknownKeys {d ms : Members} {store : Option Json} (h : Placed d store ms) :
    unknownKeys (ms.map (·.1)) = unknownNames d := by
  refine sortedNames_congr fun k => ?_
  simp only [List.mem_filter, Bool.not_eq_true', List.contains_eq_mem, decide_eq_false_iff_not]
  rw [knownKeys_perm.mem_iff, List.mem_append, not_or, ← and_assoc, and_right_comm, and_congr_left_iff]
  intro hf
  have hs : k ≠ storeKey := fun he => hf (he ▸ by decide)
  have hl : k ≠ "language" := fun he => hf (he ▸ by decide)
  have hk := h.others k hs
  rw [if_neg hl] at hk
  by_cases hm : k ∈ movedKeys
  · rw [if_pos hm, Json.member?_eq_none_iff] at hk
    exact iff_of_false hk fun hc => hc.2 hm
  · rw [if_neg hm] at hk
    rw [and_iff_left hm, ← not_iff_not, ← Json.member?_eq_none_iff, ← Json.member?_eq_none_iff, hk]

/-! ## What settings come to -/

/-- The settings of the store, with the flat ones written over them. -/
def storeSettings (d : Members) : Except Failure StoreMember := storeValue d >>= storeOf

def formatOf (d : Members) : Json := (member? "output_format" d).getD (.str "table")

/-- The settings from members, with given settings of the store. -/
def resolved (d : Members) (store : StoreMember) : Except Failure Settings :=
  if unknownNames d ≠ [] then .error (.settings (.unknownKeys (unknownNames d)))
  else if isFormat (formatOf d) = false then
    .error (.telling (formatOf d).plain? fun t => .settings (.unsupportedFormat t))
  else .ok
    { language := ((member? "default_language" d).or (member? "language" d)).getD .null
      outputFormat := formatOf d
      timestampFormat := (member? "timestamp_format" d).getD (.str "%H:%M:%S")
      showExplanation := (member? "show_explanation" d).getD (.bool true)
      debug := (member? "debug" d).getD (.bool false)
      logFile := (member? "log_file" d).getD .null
      store }

theorem isFormat_iff (v : Json) : isFormat v = true ↔ v = .str "table" ∨ v = .str "json" := by
  cases v <;> simp [isFormat, SettingsError.formats]

theorem Placed.field {d ms : Members} {store : Option Json} (h : Placed d store ms) {k : Text}
    (hk : k ∈ fieldKeys) (hs : k ≠ storeKey) (hl : k ≠ "language") :
    member? k ms = member? k d := by
  have hm : k ∉ movedKeys := by
    revert k
    decide
  rw [h.others k hs, if_neg hl, if_neg hm]

theorem Placed.ofPlaced {d ms : Members} {store : Option Json} (h : Placed d store ms) :
    ofPlaced ms = storeOf store >>= resolved d := by
  have hlanguage : member? "language" ms =
      (member? "default_language" d).or (member? "language" d) := by
    rw [h.others _ (by decide), if_pos rfl]
  have hformat : (member? "output_format" ms).getD (.str "table") = formatOf d := by
    rw [h.field (by decide) (by decide) (by decide), formatOf]
  rw [Settings.ofPlaced, h.store, h.unknownKeys]
  change (storeOf store >>= fun store => _) = _
  cases storeOf store with
  | error f => rfl
  | ok m =>
    change _ = resolved d m
    unfold resolved
    simp only [hformat]
    cases hu : unknownNames d with
    | cons k names => rfl
    | nil =>
      cases hf : isFormat (formatOf d) with
      | false => rfl
      | true =>
        rw [hlanguage, h.field (k := "timestamp_format") (by decide) (by decide) (by decide),
          h.field (k := "show_explanation") (by decide) (by decide) (by decide),
          h.field (k := "debug") (by decide) (by decide) (by decide),
          h.field (k := "log_file") (by decide) (by decide) (by decide)]
        rfl

theorem ofMembers_eq (d : Members) : ofMembers d = storeSettings d >>= resolved d := by
  have h := (drafted_spec d).2
  unfold storeSettings
  cases hv : storeValue d with
  | error f =>
    rw [hv] at h
    exact h
  | ok store =>
    rw [hv] at h
    obtain ⟨ms, hp, ho⟩ := h
    exact ho.trans hp.ofPlaced

/-! ## The store -/

theorem writes_storeKeys_nodup (d : Members) : ((writes storeKeys d).map (·.1)).Nodup :=
  (writes_keys_sublist storeKeys d).nodup (by decide)

theorem member?_writes (d : Members) (k : Text) : member? k (writes storeKeys d) =
    if k = "enabled" then member? "store_enabled" d
    else if k = "path" then member? "store_path" d else none := by
  have hne : ("path" : Text) ≠ "enabled" := by decide
  simp only [writes, storeKeys, List.filterMap_cons, List.filterMap_nil]
  by_cases he : k = "enabled"
  · cases member? "store_enabled" d <;> cases member? "store_path" d <;>
      simp only [Option.map_none, Option.map_some, Json.member?_cons, he, hne.symm, ↓reduceIte] <;>
      rfl
  · cases member? "store_enabled" d <;> cases member? "store_path" d <;>
      simp only [Option.map_none, Option.map_some, Json.member?_cons, he, ite_self,
        ↓reduceIte] <;>
      rfl

theorem member?_writeAll (d store : Members) (k : Text) :
    member? k (writeAll (writes storeKeys d) store) =
      if k = "enabled" then (member? "store_enabled" d).or (member? "enabled" store)
      else if k = "path" then (member? "store_path" d).or (member? "path" store)
      else member? k store := by
  rw [member?_writeAll_of_nodup (writes_storeKeys_nodup d), member?_writes]
  by_cases he : k = "enabled"
  · rw [if_pos he, if_pos he, he]
  by_cases hp : k = "path"
  · rw [if_neg he, if_neg he, if_pos hp, if_pos hp, hp]
  · rw [if_neg he, if_neg he, if_neg hp, if_neg hp, Option.none_or]

theorem writes_storeKeys_eq_nil_iff {d : Members} : writes storeKeys d = [] ↔
    member? "store_enabled" d = none ∧ member? "store_path" d = none := by
  simp only [writes_eq_nil_iff, storeKeys, List.forall_mem_cons, List.not_mem_nil, false_imp_iff,
    implies_true, and_true]

theorem storeValue_of_object {d store : Members} (h : member? storeKey d = some (.obj store)) :
    storeValue d = .ok (some (.obj (writeAll (writes storeKeys d) store))) := by
  rw [storeValue, h]
  split
  · next hw => rw [hw]; rfl
  · rfl

def StoreKnown (store : Members) : Prop :=
  ∀ m ∈ store, m.1 = "enabled" ∨ m.1 = "path"

theorem storeOfMembers_eq (store : Members) :
    (StoreKnown store → storeOfMembers store =
      .ok { enabled := (member? "enabled" store).getD (.bool true),
            path := (member? "path" store).getD .null }) ∧
    (¬ StoreKnown store → storeOfMembers store = .error (.misuse .wrongKind)) := by
  have hall : (store.all fun m => m.1 == "enabled" || m.1 == "path") = true ↔ StoreKnown store := by
    simp only [List.all_eq_true, Bool.or_eq_true, beq_iff_eq, StoreKnown]
  unfold storeOfMembers
  exact ⟨fun h => if_pos (hall.2 h), fun h => if_neg (mt hall.1 h)⟩

theorem storeKnown_iff {store : Members} :
    StoreKnown store ↔ ∀ k : Text, member? k store ≠ none → k = "enabled" ∨ k = "path" := by
  simp only [StoreKnown, ne_eq, Json.member?_eq_none_iff, not_not, List.forall_mem_map]

theorem storeKnown_writeAll {d store : Members} :
    StoreKnown (writeAll (writes storeKeys d) store) ↔ StoreKnown store := by
  simp only [storeKnown_iff, member?_writeAll]
  refine forall_congr' fun k => ?_
  by_cases he : k = "enabled"
  · simp only [he, true_or, implies_true]
  by_cases hp : k = "path"
  · simp only [hp, or_true, implies_true]
  simp only [he, hp, ↓reduceIte]

theorem storeOfMembers_congr {store store' : Members}
    (h : ∀ k, member? k store' = member? k store) :
    storeOfMembers store' = storeOfMembers store := by
  by_cases hk : StoreKnown store
  · have hk' : StoreKnown store' := by
      rw [storeKnown_iff] at hk ⊢
      simpa only [h] using hk
    rw [(storeOfMembers_eq store).1 hk, (storeOfMembers_eq store').1 hk', h, h]
  · have hk' : ¬ StoreKnown store' := by
      rw [storeKnown_iff] at hk ⊢
      simpa only [h] using hk
    rw [(storeOfMembers_eq store).2 hk, (storeOfMembers_eq store').2 hk']

/-! ## Members in which the same is found -/

/-- The same value in the place of the store, or objects in which the same is found. -/
def StoreAgrees (d d' : Members) : Prop :=
  member? storeKey d' = member? storeKey d ∨
    ∃ store store', member? storeKey d = some (.obj store) ∧
      member? storeKey d' = some (.obj store') ∧ ∀ k, member? k store' = member? k store

variable {d d' : Members}

theorem writes_of_agree (h : ∀ k, k ≠ storeKey → member? k d' = member? k d) :
    writes storeKeys d' = writes storeKeys d :=
  writes_congr fun p hp => h p.1 (by revert p; decide)

theorem storeSettings_congr (h : ∀ k, k ≠ storeKey → member? k d' = member? k d)
    (hs : StoreAgrees d d') : storeSettings d' = storeSettings d := by
  have hw := writes_of_agree h
  unfold storeSettings
  rcases hs with hs | ⟨store, store', hstore, hstore', hsame⟩
  · rw [storeValue, storeValue, hw, hs]
  · rw [storeValue_of_object hstore, storeValue_of_object hstore', hw]
    have hwritten : ∀ k, member? k (writeAll (writes storeKeys d) store') =
        member? k (writeAll (writes storeKeys d) store) := by
      intro k
      rw [member?_writeAll, member?_writeAll, hsame, hsame, hsame]
    exact congrArg (Except.map StoreMember.settings) (storeOfMembers_congr hwritten)

theorem resolved_congr (h : ∀ k, k ≠ storeKey → member? k d' = member? k d)
    (store : StoreMember) : resolved d' store = resolved d store := by
  unfold resolved formatOf
  rw [unknownNames_congr h, h "default_language" (by decide), h "language" (by decide),
    h "output_format" (by decide), h "timestamp_format" (by decide),
    h "show_explanation" (by decide), h "debug" (by decide), h "log_file" (by decide)]

theorem ofMembers_congr (h : ∀ k, k ≠ storeKey → member? k d' = member? k d)
    (hs : StoreAgrees d d') : ofMembers d' = ofMembers d := by
  rw [ofMembers_eq, ofMembers_eq, storeSettings_congr h hs, funext (resolved_congr h)]

end CostLens.Settings
