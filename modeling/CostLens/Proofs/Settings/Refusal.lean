import CostLens.Proofs.Settings.Precedence

/-! # How settings are refused

Keys that stand for nothing and formats of output that there are not are refused as such. What
stands in the place of the store is not: an object with other members than the known ones, or
anything else that a flat setting is to be put into, is misused, and any other value is kept as it
is.
-/
namespace CostLens.Settings

open Json (member?)

variable {d : Members} {v : Json}

/-! ## What can stand in the place of the store -/

/-- What the settings of the store cannot be made from: an object with a member that is none of
them, or a value that is no object while a flat setting belongs into it. -/
inductive StrangeStore (d : Members) : Prop
  | member {members : Members} (store : member? storeKey d = some (.obj members))
    (unknown : ∃ m ∈ members, m.1 ≠ "enabled" ∧ m.1 ≠ "path")
  | value {v : Json} (store : member? storeKey d = some v) (object : ∀ store, v ≠ .obj store)
    (flat : member? "store_enabled" d ≠ none ∨ member? "store_path" d ≠ none)

/-- A value that is neither an object nor a truth value, and that stays where it is. -/
structure RawStore (d : Members) (v : Json) : Prop where
  store : member? storeKey d = some v
  object : ∀ store, v ≠ .obj store
  flag : ∀ b, v ≠ .bool b
  enabled : member? "store_enabled" d = none
  path : member? "store_path" d = none

theorem not_storeKnown_iff {store : Members} :
    ¬ StoreKnown store ↔ ∃ m ∈ store, m.1 ≠ "enabled" ∧ m.1 ≠ "path" := by
  simp only [StoreKnown, not_forall, not_or, exists_prop]

/-- There is nothing else that can stand in the place of the store. -/
theorem proper_or_strange_or_raw (d : Members) :
    ProperStore d ∨ StrangeStore d ∨ ∃ v, RawStore d v := by
  cases hs : member? storeKey d with
  | none => exact .inl (.absent hs)
  | some v =>
    by_cases hobject : ∃ store, v = .obj store
    · obtain ⟨store, rfl⟩ := hobject
      by_cases hk : StoreKnown store
      · exact .inl (.object hs hk)
      · exact .inr (.inl (.member hs (not_storeKnown_iff.1 hk)))
    have hobject := not_exists.1 hobject
    by_cases hflat : member? "store_enabled" d = none ∧ member? "store_path" d = none
    · by_cases hflag : ∃ b, v = .bool b
      · obtain ⟨b, rfl⟩ := hflag
        exact .inl (.flag hs hflat.1 hflat.2)
      · exact .inr (.inr ⟨v, hs, hobject, not_exists.1 hflag, hflat.1, hflat.2⟩)
    · exact .inr (.inl (.value hs hobject (not_and_or.1 hflat)))

theorem storeSettings_of_strange (h : StrangeStore d) :
    storeSettings d = .error (.misuse .wrongKind) := by
  unfold storeSettings
  cases h with
  | @member members store unknown =>
    have hk : ¬ StoreKnown (writeAll (writes storeKeys d) members) :=
      mt storeKnown_writeAll.1 (not_storeKnown_iff.2 unknown)
    rw [storeValue_of_object store]
    exact congrArg (Except.map StoreMember.settings) ((storeOfMembers_eq _).2 hk)
  | @value v store object flat =>
    have hw : writes storeKeys d ≠ [] :=
      fun h => (not_and_or.2 flat) (writes_storeKeys_eq_nil_iff.1 h)
    rw [storeValue, if_neg hw, store, Option.getD_some]
    cases v with
    | obj members => exact absurd rfl (object members)
    | _ => rfl

theorem storeSettings_of_raw (h : RawStore d v) : storeSettings d = .ok (.other v) := by
  have hw := writes_storeKeys_eq_nil_iff.2 ⟨h.enabled, h.path⟩
  rw [storeSettings, storeValue, if_pos hw, h.store]
  cases v with
  | obj store => exact absurd rfl (h.object store)
  | bool b => exact absurd rfl (h.flag b)
  | _ => rfl

theorem storeSettings_of_not_strange (h : ¬ StrangeStore d) :
    ∃ store, storeSettings d = .ok store := by
  obtain hproper | hs | ⟨v, hv⟩ := proper_or_strange_or_raw d
  · exact ⟨_, storeSettings_of_proper hproper⟩
  · exact absurd hs h
  · exact ⟨_, storeSettings_of_raw hv⟩

/-! ## What is refused -/

/-- Settings with a key that stands for nothing, or with a format of output that there is not. -/
def Refused (d : Members) : Prop :=
  (∃ k, Unknown d k) ∨ (formatOf d ≠ .str "table" ∧ formatOf d ≠ .str "json")

theorem resolved_of_refused (hread : (Json.obj d).Readable) (h : Refused d)
    (store : StoreMember) : ∃ e, resolved d store = .error (.settings e) := by
  unfold resolved
  by_cases hu : unknownNames d = []
  · have hf : isFormat (formatOf d) = false := by
      obtain ⟨k, hk⟩ | ⟨htable, hjson⟩ := h
      · exact absurd hk (unknownNames_eq_nil_iff.1 hu k)
      · exact Bool.eq_false_iff.2 fun h => ((isFormat_iff _).1 h).elim htable hjson
    rw [if_neg (not_not.2 hu), if_pos hf, (readable_formatOf hread).plain?_eq]
    exact ⟨_, rfl⟩
  · exact ⟨_, if_pos hu⟩

theorem resolved_of_not_refused (h : ¬ Refused d) (store : StoreMember) :
    ∃ s, resolved d store = .ok s ∧ s.store = store := by
  obtain ⟨hu, hf⟩ := not_or.1 h
  have hu : unknownNames d = [] := unknownNames_eq_nil_iff.2 (not_exists.1 hu)
  have hf : isFormat (formatOf d) = true := (isFormat_iff _).2 (by tauto)
  exact ⟨_, by rw [resolved, if_neg (not_not.2 hu), if_neg (by rw [hf]; decide)], rfl⟩

theorem resolved_ne_misuse (d : Members) (store : StoreMember) (m : Misuse) :
    resolved d store ≠ .error (.misuse m) := by
  unfold resolved Failure.telling
  intro h
  split at h
  · cases h
  split at h
  · split at h <;> cases h
  · cases h

theorem ofMembers_of_storeSettings {store : StoreMember} (h : storeSettings d = .ok store) :
    ofMembers d = resolved d store := by
  rw [ofMembers_eq, h]
  rfl

theorem ofMembers_of_strange (h : StrangeStore d) :
    ofMembers d = .error (.misuse .wrongKind) := by
  rw [ofMembers_eq, storeSettings_of_strange h]
  rfl

/-- Settings come out with those of the store, or are refused as settings. -/
def Orderly (d : Members) : Prop :=
  (∃ s store, ofMembers d = .ok s ∧ s.store = .settings store) ∨
    ∃ e, ofMembers d = .error (.settings e)

theorem orderly_of_proper (hread : (Json.obj d).Readable) (h : ProperStore d) : Orderly d := by
  unfold Orderly
  rw [ofMembers_of_storeSettings (storeSettings_of_proper h)]
  by_cases hr : Refused d
  · exact .inr (resolved_of_refused hread hr _)
  · obtain ⟨s, hs, hstore⟩ := resolved_of_not_refused hr (.settings (storeByPrecedence d))
    exact .inl ⟨s, _, hs, hstore⟩

theorem not_orderly_of_strange (h : StrangeStore d) : ¬ Orderly d := by
  have hm := ofMembers_of_strange h
  rintro (⟨s, store, hs, -⟩ | ⟨e, he⟩)
  · cases hs.symm.trans hm
  · cases he.symm.trans hm

theorem ofMembers_of_raw (h : RawStore d v) : ofMembers d = resolved d (.other v) :=
  ofMembers_of_storeSettings (storeSettings_of_raw h)

theorem orderly_iff_of_raw (hread : (Json.obj d).Readable) (h : RawStore d v) :
    Orderly d ↔ Refused d := by
  unfold Orderly
  rw [ofMembers_of_raw h]
  refine ⟨fun horderly => by_contra fun hr => ?_, fun hr => .inr (resolved_of_refused hread hr _)⟩
  obtain ⟨t, ht, hother⟩ := resolved_of_not_refused hr (.other v)
  obtain ⟨s, store, hs, hstore⟩ | ⟨e, he⟩ := horderly
  · cases hs.symm.trans ht
    cases hstore.symm.trans hother
  · cases he.symm.trans ht

theorem misused_iff_strange :
    ofMembers d = .error (.misuse .wrongKind) ↔ StrangeStore d := by
  refine ⟨fun hm => by_contra fun hstrange => ?_, ofMembers_of_strange⟩
  obtain ⟨store, hstore⟩ := storeSettings_of_not_strange hstrange
  exact resolved_ne_misuse d store _ ((ofMembers_of_storeSettings hstore).symm.trans hm)

/-- Nothing but what stands in the place of the store keeps settings that were read from coming out
or being refused as settings. Something strange there is a misuse whatever else is wrong, and a value
that is kept there stays in the settings unless these are refused. -/
theorem refused_as_settings_iff (d : Members) :
    ((Json.obj d).Readable →
      (Orderly d ↔ ¬ StrangeStore d ∧ ∀ v, RawStore d v → Refused d)) ∧
    (ofMembers d = .error (.misuse .wrongKind) ↔ StrangeStore d) ∧
    ∀ v, RawStore d v → ¬ Refused d → ∃ s, ofMembers d = .ok s ∧ s.store = .other v := by
  refine ⟨fun hread => ⟨fun h => ?_, ?_⟩, misused_iff_strange, fun v hv hr => ?_⟩
  · exact ⟨fun hs => not_orderly_of_strange hs h, fun v hv => (orderly_iff_of_raw hread hv).1 h⟩
  · rintro ⟨hstrange, hrefused⟩
    obtain hproper | hs | ⟨v, hv⟩ := proper_or_strange_or_raw d
    · exact orderly_of_proper hread hproper
    · exact absurd hs hstrange
    · exact (orderly_iff_of_raw hread hv).2 (hrefused v hv)
  · rw [ofMembers_of_raw hv]
    exact resolved_of_not_refused hr _

/-- A setting of the store under a misspelt name, and a key that stands for nothing. -/
def misspeltSettings : Members := [("store", .obj [("enabeld", .bool false)]), ("x", .null)]

theorem refused_as_settings_iff_misspelt :
    ofMembers misspeltSettings = .error (.misuse .wrongKind) ∧ ¬ Orderly misspeltSettings := by
  have hs : StrangeStore misspeltSettings :=
    .member rfl ⟨("enabeld", .bool false), by decide, by decide, by decide⟩
  have hread : (Json.obj misspeltSettings).Readable := by
    have hstore : (Json.obj [("enabeld", .bool false)]).Bounded :=
      .obj (List.forall_mem_singleton.2 (.bool false))
    have hmembers : ∀ m ∈ misspeltSettings, m.2.Bounded :=
      List.forall_mem_cons.2 ⟨hstore, List.forall_mem_singleton.2 .null⟩
    exact ⟨.obj hmembers, by decide⟩
  obtain ⟨hown, hmisuse, -⟩ := refused_as_settings_iff misspeltSettings
  exact ⟨hmisuse.2 hs, fun h => ((hown hread).1 h).1 hs⟩

end CostLens.Settings
