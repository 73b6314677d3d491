import CostLens.Proofs.Json.Readable
import CostLens.Proofs.Settings.Resolving
import Mathlib.Data.List.Forall2

/-! # Precedence among settings

A flat key comes before the member it stands for, and that one before the default, wherever the
two stand among the members. Keys that stand for nothing are refused first, with all their names,
and then a format of output that there is not.
-/
namespace CostLens.Settings

open Json (member?)

/-! ## Members in another order -/

/-- The same member, or an object for the store with its members in another order. -/
inductive SameMember : Text × Json → Text × Json → Prop
  | same (m : Text × Json) : SameMember m m
  | store {ms ms' : Members} (perm : ms.Perm ms') :
    SameMember (storeKey, .obj ms) (storeKey, .obj ms')

/-- Members in another order, and those of the object for the store too. -/
def Reordered (d d' : Members) : Prop := ∃ e, d.Perm e ∧ List.Forall₂ SameMember e d'

/-- No key repeats, neither among the members nor in the object for the store. -/
structure KeysDistinct (d : Members) : Prop where
  own : (d.map (·.1)).Nodup
  store : ∀ store, member? storeKey d = some (.obj store) → (store.map (·.1)).Nodup

theorem SameMember.key {m m' : Text × Json} (h : SameMember m m') : m'.1 = m.1 := by
  cases h <;> rfl

theorem member?_of_sameMembers {d d' : Members} (h : List.Forall₂ SameMember d d') {k : Text}
    (hk : k ≠ storeKey) : member? k d' = member? k d := by
  induction h with
  | nil => rfl
  | cons hm _ ih =>
    rw [Json.member?_cons, Json.member?_cons, hm.key, ih]
    cases hm with
    | same m => rfl
    | store perm => rw [if_neg hk, if_neg hk]

theorem storeAgrees_of_sameMembers {d d' : Members} (h : List.Forall₂ SameMember d d')
    (hn : ∀ store, member? storeKey d = some (.obj store) → (store.map (·.1)).Nodup) :
    StoreAgrees d d' := by
  induction h with
  | nil => exact .inl rfl
  | @cons m m' d d' hm _ ih =>
    unfold StoreAgrees
    rw [Json.member?_cons] at hn
    rw [Json.member?_cons, Json.member?_cons, hm.key]
    by_cases hk : storeKey = m.1
    · rw [if_pos hk] at hn
      rw [if_pos hk, if_pos hk]
      cases hm with
      | same m => exact .inl rfl
      | @store ms ms' perm => exact .inr ⟨ms, ms', rfl, rfl, Json.member?_perm (hn ms rfl) perm⟩
    · rw [if_neg hk] at hn
      rw [if_neg hk, if_neg hk]
      exact ih hn

theorem ofMembers_of_reordered {d d' : Members} (hd : KeysDistinct d) (h : Reordered d d') :
    ofMembers d' = ofMembers d := by
  obtain ⟨e, hperm, hsame⟩ := h
  have he := Json.member?_perm hd.own hperm
  have hagrees : StoreAgrees e d' :=
    storeAgrees_of_sameMembers hsame fun store hs => hd.store store ((he storeKey).symm.trans hs)
  calc ofMembers d' = ofMembers e :=
        ofMembers_congr (fun k hk => member?_of_sameMembers hsame hk) hagrees
    _ = ofMembers d := ofMembers_congr (fun k _ => he k) (.inl (he storeKey))

/-! ## The store -/

/-- What stands in the place of the store is nothing, an object with known members, or a truth
value that no flat setting is to be put into. -/
inductive ProperStore (d : Members) : Prop
  | absent (store : member? storeKey d = none)
  | object {members : Members} (store : member? storeKey d = some (.obj members))
    (known : StoreKnown members)
  | flag {b : Bool} (store : member? storeKey d = some (.bool b))
    (enabled : member? "store_enabled" d = none) (path : member? "store_path" d = none)

/-- A setting within the member for the store. A truth value there is the setting `enabled`. -/
def nested? (key : Text) (d : Members) : Option Json :=
  match member? storeKey d with
  | some (.obj store) => member? key store
  | some (.bool b) => if key = "enabled" then some (.bool b) else none
  | _ => none

/-- The settings of the store: a flat key, then the nested one, then the default. -/
def storeByPrecedence (d : Members) : StoreSettings where
  enabled := ((member? "store_enabled" d).or (nested? "enabled" d)).getD (.bool true)
  path := ((member? "store_path" d).or (nested? "path" d)).getD .null

theorem storeOf_writeAll {d store : Members} (h : StoreKnown store) :
    storeOf (some (.obj (writeAll (writes storeKeys d) store))) = .ok (.settings
      { enabled := ((member? "store_enabled" d).or (member? "enabled" store)).getD (.bool true)
        path := ((member? "store_path" d).or (member? "path" store)).getD .null }) := by
  rw [storeOf, (storeOfMembers_eq _).1 (storeKnown_writeAll.2 h), member?_writeAll,
    member?_writeAll, if_pos rfl, if_neg (by decide), if_pos rfl]
  rfl

theorem storeSettings_of_proper {d : Members} (h : ProperStore d) :
    storeSettings d = .ok (.settings (storeByPrecedence d)) := by
  unfold storeSettings storeByPrecedence nested?
  cases h with
  | object store known =>
    rw [storeValue_of_object store, store]
    exact storeOf_writeAll known
  | flag store enabled path =>
    rw [storeValue, if_pos (writes_storeKeys_eq_nil_iff.2 ⟨enabled, path⟩), store, enabled, path]
    rfl
  | absent store =>
    rw [store]
    by_cases hw : writes storeKeys d = []
    · obtain ⟨enabled, path⟩ := writes_storeKeys_eq_nil_iff.1 hw
      rw [storeValue, if_pos hw, store, enabled, path]
      rfl
    · rw [storeValue, if_neg hw, store]
      exact storeOf_writeAll (List.forall_mem_nil _)

/-! ## All settings -/

theorem readable_formatOf {d : Members} (h : (Json.obj d).Readable) : (formatOf d).Readable := by
  unfold formatOf
  cases hf : member? "output_format" d with
  | none => exact ⟨.str _, Nat.zero_le _⟩
  | some v => exact h.member? hf

def byPrecedence (d : Members) : Settings where
  language := ((member? "default_language" d).or (member? "language" d)).getD .null
  outputFormat := formatOf d
  timestampFormat := (member? "timestamp_format" d).getD (.str "%H:%M:%S")
  showExplanation := (member? "show_explanation" d).getD (.bool true)
  debug := (member? "debug" d).getD (.bool false)
  logFile := (member? "log_file" d).getD .null
  store := .settings (storeByPrecedence d)

/-- Settings with a proper store are those by precedence, unless a key stands for nothing or there
is no such format of output. The message shows that format, so it has to be such as are read. In
which order the members stand makes no difference. -/
theorem settings_by_precedence {d : Members} (hd : KeysDistinct d) (hs : ProperStore d) :
    ((∃ k, Unknown d k) → ∃ names, ofMembers d = .error (.settings (.unknownKeys names)) ∧
      (Failure.settings (.unknownKeys names)).message =
        "Unknown configuration keys: " ++ joinWith ", " names ∧
      (names.Pairwise fun a b => textLe a b = true ∧ a ≠ b) ∧ ∀ k, k ∈ names ↔ Unknown d k) ∧
    ((Json.obj d).Readable → (∀ k, ¬ Unknown d k) → formatOf d ≠ .str "table" →
      formatOf d ≠ .str "json" →
      ofMembers d = .error (.settings (.unsupportedFormat (formatOf d).plain))) ∧
    ((∀ k, ¬ Unknown d k) → formatOf d = .str "table" ∨ formatOf d = .str "json" →
      ofMembers d = .ok (byPrecedence d)) ∧
    ∀ d', Reordered d d' → ofMembers d' = ofMembers d := by
  have hresolved : ofMembers d = resolved d (.settings (storeByPrecedence d)) := by
    rw [ofMembers_eq, storeSettings_of_proper hs]
    rfl
  refine ⟨?_, ?_, ?_, fun d' h => ofMembers_of_reordered hd h⟩
  · intro hu
    have hne : unknownNames d ≠ [] := fun h => hu.elim (unknownNames_eq_nil_iff.1 h)
    refine ⟨unknownNames d, ?_, rfl, sortedNames_pairwise _, fun k => mem_unknownNames⟩
    rw [hresolved, resolved, if_pos hne]
  · intro hread hu htable hjson
    have hf : isFormat (formatOf d) = false :=
      Bool.eq_false_iff.2 fun h => ((isFormat_iff _).1 h).elim htable hjson
    rw [hresolved, resolved, if_neg (not_not.2 (unknownNames_eq_nil_iff.2 hu)), if_pos hf,
      (readable_formatOf hread).plain?_eq, Failure.telling]
  · intro hu hf
    have hf' : ¬ isFormat (formatOf d) = false := by
      rw [(isFormat_iff _).2 hf]
      decide
    rw [hresolved, resolved, if_neg (not_not.2 (unknownNames_eq_nil_iff.2 hu)), if_neg hf']
    rfl

/-- Settings with each of the three ways in which one of them can be given twice. -/
def mixedSettings : Members :=
  [("language", .str "go"), ("store", .obj [("path", .str "a"), ("enabled", .bool false)]),
    ("store_path", .str "b"), ("default_language", .str "python")]

theorem settings_by_precedence_mixed :
    ofMembers mixedSettings = .ok
      { language := .str "python", store := .settings { enabled := .bool false, path := .str "b" } } ∧
    ofMembers [("default_language", .str "python"), ("store_path", .str "b"),
        ("store", .obj [("enabled", .bool false), ("path", .str "a")]), ("language", .str "go")] =
      ofMembers mixedSettings := by
  have hd : KeysDistinct mixedSettings := by
    refine ⟨by decide, fun store h => ?_⟩
    cases h
    decide
  have hs : ProperStore mixedSettings := .object rfl (by unfold StoreKnown; decide)
  have hk : ∀ k ∈ mixedSettings.map (·.1), k ∈ knownKeys := by decide
  obtain ⟨-, -, hok, hre⟩ := settings_by_precedence hd hs
  refine ⟨hok (fun k hu => hu.2 (hk k hu.1)) (.inl rfl), hre _ ?_⟩
  refine ⟨mixedSettings.reverse, (List.reverse_perm _).symm, ?_⟩
  exact .cons (.same _) (.cons (.same _) (.cons (.store (.swap ..)) (.cons (.same _) .nil)))

end CostLens.Settings
