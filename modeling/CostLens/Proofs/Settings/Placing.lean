import CostLens.Proofs.Json.Members
import CostLens.Proofs.Run.Basic
import CostLens.Settings
import Mathlib.Data.List.Basic

/-! # Flat keys put in their places

Putting one flat key in its place changes what is found under that key and under the one it stands
for, and nothing else. From this follows what is found once all of them are in their places, and
what has become of the value that the settings were taken from: only its object for the store can
have changed, and it holds the flat settings of the store now.
-/
namespace CostLens.Settings

open Json (member? setMember removeMember member?_setMember member?_removeMember)

variable {key name : Text} {v : Json} {D : Draft}

/-! ## One key -/

/-- Members with the value of a key moved to another name. -/
def renamed (key name : Text) (ms : Members) : Members :=
  match member? key ms with
  | none => ms
  | some v => setMember name v (removeMember key ms)

theorem member?_renamed (key name k : Text) (ms : Members) :
    member? k (renamed key name ms) =
      if k = name then (member? key ms).or (member? name ms)
      else if k = key then none else member? k ms := by
  unfold renamed
  cases h : member? key ms with
  | none =>
    by_cases hn : k = name
    · simp [hn]
    · by_cases hk : k = key
      · simp [hk ▸ hn, hk, h]
      · simp [hn, hk]
  | some v => simp [member?_setMember, member?_removeMember]

@[simp] theorem member?_renamed_self (key k : Text) (ms : Members) :
    member? k (renamed key key ms) = member? k ms := by
  rw [member?_renamed]
  by_cases h : k = key
  · rw [if_pos h, h, Option.or_self]
  · rw [if_neg h, if_neg h]

theorem place_apply (key : Text) (target : Target) (D : Draft) :
    place key target D = match member? key D.members with
      | none => (.ok (), D)
      | some v =>
        let taken : Draft := { D with members := removeMember key D.members }
        match target with
        | .own name => (.ok (), { taken with members := setMember name v taken.members })
        | .ofStore name => putInStore name v taken := by
  rw [place, bind_stateful_apply]
  change (match member? key D.members with
    | none => _
    | some v => _ : Drafting Unit) D = _
  cases member? key D.members with
  | none => rfl
  | some v => cases target <;> rfl

theorem place_own (key name : Text) (D : Draft) :
    place key (.own name) D = (.ok (), { D with members := renamed key name D.members }) := by
  rw [place_apply, renamed]
  cases member? key D.members <;> rfl

theorem place_ofStore (hk : key ≠ storeKey) (h : member? key D.members = some v) (name : Text) :
    place key (.ofStore name) D =
      let taken : Draft := { D with members := removeMember key D.members }
      match (member? storeKey D.members).getD (.obj []) with
      | .obj store => (.ok (), taken.withStore (setMember name v store))
      | _ => (.error (.misuse .wrongKind), taken) := by
  have hs : member? storeKey (removeMember key D.members) = member? storeKey D.members := by
    rw [member?_removeMember, if_neg (Ne.symm hk)]
  simp only [place_apply, h, putInStore, bind_stateful_apply]
  change (match (member? storeKey (removeMember key D.members)).getD (.obj []) with
    | .obj store => _
    | _ => _ : Drafting Unit) _ = _
  rw [hs]
  cases (member? storeKey D.members).getD (.obj []) <;> rfl

/-! ## All keys -/

/-- The flat keys of settings of their own. -/
def ownKeys : List (Text × Text) :=
  [("default_language", "language"), ("output_format", "output_format"),
    ("timestamp_format", "timestamp_format"), ("show_explanation", "show_explanation"),
    ("debug", "debug"), ("log_file", "log_file")]

/-- The flat keys of settings of the store. -/
def storeKeys : List (Text × Text) := [("store_enabled", "enabled"), ("store_path", "path")]

theorem flatKeys_eq : flatKeys = ownKeys.map (fun p => (p.1, .own p.2)) ++
    storeKeys.map (fun p => (p.1, .ofStore p.2)) := rfl

theorem forM_own (keys : List (Text × Text)) (D : Draft) :
    (forM keys fun p => place p.1 (.own p.2)) D =
      (.ok (), { D with members := keys.foldl (fun ms p => renamed p.1 p.2 ms) D.members }) := by
  induction keys generalizing D with
  | nil => rfl
  | cons p keys ih =>
    rw [List.forM_cons, bind_stateful_apply, place_own]
    exact ih _

/-- The settings of the store that flat keys give. -/
def writes (keys : List (Text × Text)) (ms : Members) : Members :=
  keys.filterMap fun p => (member? p.1 ms).map fun v => (p.2, v)

/-- An object with settings written over it. -/
def writeAll (ws store : Members) : Members := ws.foldl (fun s w => setMember w.1 w.2 s) store

theorem writes_congr {keys : List (Text × Text)} {ms ms' : Members}
    (h : ∀ p ∈ keys, member? p.1 ms = member? p.1 ms') : writes keys ms = writes keys ms' := by
  refine List.filterMap_congr fun p hp => ?_
  rw [h p hp]

theorem writes_eq_nil_iff {keys : List (Text × Text)} {ms : Members} :
    writes keys ms = [] ↔ ∀ p ∈ keys, member? p.1 ms = none := by
  simp [writes, List.filterMap_eq_nil_iff]

theorem mem_writes {keys : List (Text × Text)} {ms : Members} {w : Text × Json} :
    w ∈ writes keys ms ↔ ∃ p ∈ keys, ∃ v, member? p.1 ms = some v ∧ (p.2, v) = w := by
  simp only [writes, List.mem_filterMap, Option.map_eq_some_iff]

theorem writes_keys_sublist (keys : List (Text × Text)) (ms : Members) :
    ((writes keys ms).map (·.1)).Sublist (keys.map (·.2)) := by
  induction keys with
  | nil => exact .slnil
  | cons p keys ih =>
    rw [writes, List.filterMap_cons]
    cases member? p.1 ms with
    | none => exact ih.cons p.2
    | some v => exact ih.cons_cons p.2

theorem member?_writeAll_of_nodup {ws : Members} (hn : (ws.map (·.1)).Nodup) (k : Text)
    (store : Members) : member? k (writeAll ws store) = (member? k ws).or (member? k store) := by
  induction ws generalizing store with
  | nil => rfl
  | cons w ws ih =>
    obtain ⟨hw, hws⟩ := List.nodup_cons.1 hn
    rw [writeAll, List.foldl_cons, ← writeAll, ih hws, Json.member?_cons, member?_setMember]
    by_cases hk : k = w.1
    · rw [if_pos hk, if_pos hk, Json.member?_eq_none_iff.2 (hk ▸ hw)]
      rfl
    · rw [if_neg hk, if_neg hk]

theorem writeAll_eq_self_iff {ws store : Members} (hn : (ws.map (·.1)).Nodup) :
    writeAll ws store = store ↔ ∀ w ∈ ws, member? w.1 store = some w.2 := by
  refine ⟨fun h w hw => ?_, fun h => ?_⟩
  · rw [← h, member?_writeAll_of_nodup hn, (Json.member?_eq_some_iff hn).2 hw]
    rfl
  · induction ws with
    | nil => rfl
    | cons w ws ih =>
      obtain ⟨hw, hws⟩ := List.forall_mem_cons.1 h
      rw [writeAll, List.foldl_cons, Json.setMember_eq_self_iff.2 hw]
      exact ih (List.nodup_cons.1 hn).2 hws

theorem writeAll_writeAll {ws : Members} (hn : (ws.map (·.1)).Nodup) (store : Members) :
    writeAll ws (writeAll ws store) = writeAll ws store := by
  refine (writeAll_eq_self_iff hn).2 fun w hw => ?_
  rw [member?_writeAll_of_nodup hn, (Json.member?_eq_some_iff hn).2 hw]
  rfl

/-- A draft in which the values of flat keys have gone into an object for the store. The value that
was given holds that object too if it had one. -/
structure Stored (keys : List (Text × Text)) (D E : Draft) (store : Members) : Prop where
  given : E.given =
    if (member? storeKey D.given).isSome then setMember storeKey (.obj store) D.given else D.given
  store : member? storeKey E.members = some (.obj store)
  taken : ∀ p ∈ keys, member? p.1 E.members = none
  others : ∀ k : Text, k ≠ storeKey → k ∉ keys.map (·.1) → member? k E.members = member? k D.members

section Store
variable {keys : List (Text × Text)} {store : Members}

theorem forM_of_none (h : ∀ p ∈ keys, member? p.1 D.members = none) :
    (forM keys fun p => place p.1 (.ofStore p.2)) D = (.ok (), D) := by
  induction keys with
  | nil => rfl
  | cons p keys ih =>
    obtain ⟨hp, hkeys⟩ := List.forall_mem_cons.1 h
    rw [List.forM_cons, bind_stateful_apply, place_apply, hp]
    exact ih hkeys

theorem forM_ofStore_misuse (hs : ∀ p ∈ keys, p.1 ≠ storeKey) (hw : writes keys D.members ≠ [])
    (ho : ∀ store, (member? storeKey D.members).getD (.obj []) ≠ .obj store) :
    ∃ ms, (forM keys fun p => place p.1 (.ofStore p.2)) D =
      (.error (.misuse .wrongKind), { D with members := ms }) := by
  induction keys with
  | nil => exact absurd rfl hw
  | cons p keys ih =>
    obtain ⟨hp, hkeys⟩ := List.forall_mem_cons.1 hs
    rw [List.forM_cons, bind_stateful_apply]
    cases hv : member? p.1 D.members with
    | none =>
      rw [place_apply, hv]
      exact ih hkeys (by simpa [writes, hv] using hw)
    | some v =>
      -- the first flat setting that is there finds no object to go into, so no later one is reached
      rw [place_ofStore hp hv]
      cases hm : (member? storeKey D.members).getD (.obj []) with
      | obj store => exact absurd hm (ho store)
      | _ => exact ⟨_, rfl⟩

theorem Stored.cons {p : Text × Text} {E : Draft} (hv : member? p.1 D.members = none)
    (hp : p.1 ∉ keys.map (·.1)) (hs : p.1 ≠ storeKey) (h : Stored keys D E store) :
    Stored (p :: keys) D E store where
  given := h.given
  store := h.store
  taken := List.forall_mem_cons.2 ⟨(h.others p.1 hs hp).trans hv, h.taken⟩
  others := by
    intro k hk hkeys
    exact h.others k hk fun hin => hkeys (List.mem_cons_of_mem _ hin)

theorem stored_withStore (D : Draft)
    (h : ∀ p ∈ keys, member? p.1 (D.withStore store).members = none) :
    Stored keys (D.withStore store) (D.withStore store) store where
  given := by
    unfold Draft.withStore
    by_cases hg : (member? storeKey D.given).isSome
    · simp [hg, Json.member?_setMember_self, Json.setMember_setMember]
    · simp [hg]
  store := Json.member?_setMember_self ..
  taken := h
  others := fun _ _ _ => rfl

/-- Further flat settings go into the object that the first one has gone into. -/
theorem Stored.after {p : Text × Text} {E : Draft} {first : Members}
    (hs : p.1 ≠ storeKey) (hp : p.1 ∉ keys.map (·.1))
    (h : Stored keys
      (Draft.withStore { D with members := removeMember p.1 D.members } first) E store) :
    Stored (p :: keys) D E store where
  given := by
    rw [h.given]
    unfold Draft.withStore
    by_cases hg : (member? storeKey D.given).isSome
    · simp [hg, Json.member?_setMember_self, Json.setMember_setMember]
    · simp [hg]
  store := h.store
  taken := by
    refine List.forall_mem_cons.2 ⟨?_, h.taken⟩
    rw [h.others p.1 hs hp]
    simp [Draft.withStore, member?_setMember, member?_removeMember, hs]
  others := by
    intro k hk hin
    have hne : k ≠ p.1 := fun he => hin (he ▸ List.mem_cons_self)
    rw [h.others k hk fun hin' => hin (List.mem_cons_of_mem _ hin')]
    simp [Draft.withStore, member?_setMember, member?_removeMember, hk, hne]

theorem forM_ofStore (hn : (keys.map (·.1)).Nodup) (hs : ∀ p ∈ keys, p.1 ≠ storeKey)
    (hw : writes keys D.members ≠ [])
    (ho : (member? storeKey D.members).getD (.obj []) = .obj store) :
    ∃ E, (forM keys fun p => place p.1 (.ofStore p.2)) D = (.ok (), E) ∧
      Stored keys D E (writeAll (writes keys D.members) store) := by
  induction keys generalizing D store with
  | nil => exact absurd rfl hw
  | cons p keys ih =>
    obtain ⟨hp, hkeys⟩ := List.forall_mem_cons.1 hs
    obtain ⟨hnp, hn⟩ := List.nodup_cons.1 hn
    rw [List.forM_cons, bind_stateful_apply]
    cases hv : member? p.1 D.members with
    | none =>
      have hws : writes (p :: keys) D.members = writes keys D.members := by simp [writes, hv]
      rw [place_apply, hv]
      rw [hws] at hw ⊢
      obtain ⟨E, he, hE⟩ := ih hn hkeys hw ho
      exact ⟨E, he, hE.cons hv hnp hp⟩
    | some v =>
      have hws : writes (p :: keys) D.members = (p.2, v) :: writes keys D.members := by
        simp [writes, hv]
      rw [place_ofStore hp hv, ho, hws]
      let first := setMember p.2 v store
      let D₁ := Draft.withStore { D with members := removeMember p.1 D.members } first
      have hsame : ∀ q ∈ keys, member? q.1 D₁.members = member? q.1 D.members := by
        intro q hq
        have hne : q.1 ≠ p.1 := fun h => hnp (List.mem_map.2 ⟨q, hq, h⟩)
        simp [D₁, Draft.withStore, member?_setMember, member?_removeMember, hkeys q hq, hne]
      rw [← writes_congr hsame]
      -- the induction is over runs that write, so one in which nothing else is written stands apart
      by_cases hrest : writes keys D₁.members = []
      · have hnone := writes_eq_nil_iff.1 hrest
        rw [hrest]
        exact ⟨D₁, forM_of_none hnone, (stored_withStore _ hnone).after hp hnp⟩
      · have ho₁ : (member? storeKey D₁.members).getD (.obj []) = .obj first := by
          simp [D₁, Draft.withStore, Json.member?_setMember_self]
        obtain ⟨E, he, hE⟩ := ih hn hkeys hrest ho₁
        exact ⟨E, he, hE.after hp hnp⟩

end Store

/-! ## What is left in the end -/

/-- The members once the flat keys of settings of their own are in their places. -/
def ownPlaced (d : Members) : Members := ownKeys.foldl (fun ms p => renamed p.1 p.2 ms) d

theorem member?_ownPlaced (k : Text) (d : Members) :
    member? k (ownPlaced d) =
      if k = "language" then (member? "default_language" d).or (member? "language" d)
      else if k = "default_language" then none else member? k d := by
  simp only [ownPlaced, ownKeys, List.foldl_cons, List.foldl_nil, member?_renamed_self,
    member?_renamed]

/-- The flat keys that do not stay among the members. -/
def movedKeys : List Text := ["default_language", "store_enabled", "store_path"]

/-- Members with all flat keys in their places, and with a value in the place of the store. -/
structure Placed (d : Members) (store : Option Json) (ms : Members) : Prop where
  store : member? storeKey ms = store
  others : ∀ k, k ≠ storeKey → member? k ms =
    if k = "language" then (member? "default_language" d).or (member? "language" d)
    else if k ∈ movedKeys then none else member? k d

/-- The value in the place of the store once the flat keys are in their places. -/
def storeValue (d : Members) : Except Failure (Option Json) :=
  if writes storeKeys d = [] then .ok (member? storeKey d)
  else match (member? storeKey d).getD (.obj []) with
    | .obj store => .ok (some (.obj (writeAll (writes storeKeys d) store)))
    | _ => .error (.misuse .wrongKind)

/-- The members that were given, as they are afterwards. -/
def givenAfter (d : Members) : Members :=
  match member? storeKey d with
  | some (.obj store) => setMember storeKey (.obj (writeAll (writes storeKeys d) store)) d
  | _ => d

theorem forM_flatKeys (d : Members) :
    (forM flatKeys fun flat => place flat.1 flat.2) ⟨d, d⟩ =
      (forM storeKeys fun p => place p.1 (.ofStore p.2)) ⟨d, ownPlaced d⟩ := by
  rw [flatKeys_eq, List.forM_append, bind_stateful_apply, List.forM_map, List.forM_map, forM_own]
  rfl

theorem drafted_eq (d : Members) :
    drafted d = match (forM storeKeys fun p => place p.1 (.ofStore p.2)) ⟨d, ownPlaced d⟩ with
      | (.ok _, E) => (ofPlaced E.members, E)
      | (.error f, E) => (.error f, E) := by
  change draft ⟨d, d⟩ = _
  rw [draft, bind_stateful_apply, forM_flatKeys]
  split
  · next E hE =>
    have hget : (get : Drafting Draft) E = (.ok E, E) := rfl
    rw [hE, bind_stateful_apply, hget]
    simp only
    cases ofPlaced E.members <;> rfl
  · next hE => rw [hE]

theorem writes_ownPlaced (d : Members) : writes storeKeys (ownPlaced d) = writes storeKeys d := by
  refine writes_congr fun p hp => ?_
  have hne : p.1 ≠ "language" ∧ p.1 ≠ "default_language" := by
    revert p
    decide
  rw [member?_ownPlaced, if_neg hne.1, if_neg hne.2]

theorem member?_ownPlaced_store (d : Members) :
    member? storeKey (ownPlaced d) = member? storeKey d := by
  rw [member?_ownPlaced, if_neg (by decide), if_neg (by decide)]

theorem givenAfter_of_nil {d : Members} (h : writes storeKeys d = []) : givenAfter d = d := by
  unfold givenAfter
  split
  · next store hs =>
    rw [h]
    exact Json.setMember_eq_self_iff.2 hs
  · rfl

theorem placed_ownPlaced {d : Members} (h : writes storeKeys d = []) :
    Placed d (member? storeKey d) (ownPlaced d) where
  store := member?_ownPlaced_store d
  others := by
    intro k _
    rw [member?_ownPlaced]
    have hnone := writes_eq_nil_iff.1 h
    by_cases hl : k = "language"
    · simp only [hl, ↓reduceIte]
    by_cases hk : k ∈ movedKeys
    · rw [if_neg hl, if_neg hl, if_pos hk]
      simp only [movedKeys, List.mem_cons, List.not_mem_nil, or_false] at hk
      rcases hk with rfl | rfl | rfl
      · rw [if_pos rfl]
      · rw [if_neg (by decide)]
        exact hnone ("store_enabled", "enabled") (by decide)
      · rw [if_neg (by decide)]
        exact hnone ("store_path", "path") (by decide)
    · have hd : k ≠ "default_language" := fun he => hk (he ▸ by decide)
      rw [if_neg hl, if_neg hl, if_neg hd, if_neg hk]

theorem Stored.placed {d store : Members} {E : Draft}
    (h : Stored storeKeys ⟨d, ownPlaced d⟩ E store) : Placed d (some (.obj store)) E.members where
  store := h.store
  others := by
    intro k hs
    by_cases hl : k = "language"
    · subst hl
      rw [h.others _ hs (by decide), member?_ownPlaced]
      simp only [↓reduceIte]
    by_cases hk : k ∈ storeKeys.map (·.1)
    · obtain ⟨p, hp, rfl⟩ := List.mem_map.1 hk
      have hmoved : p.1 ∈ movedKeys := by
        revert p
        decide
      rw [h.taken p hp, if_neg hl, if_pos hmoved]
    · rw [h.others k hs hk, member?_ownPlaced, if_neg hl, if_neg hl]
      have hiff : k = "default_language" ↔ k ∈ movedKeys := by
        have hkeys : movedKeys = "default_language".toList :: storeKeys.map (·.1) := rfl
        rw [hkeys, List.mem_cons, or_iff_left hk]
      simp only [hiff]

/-- What the settings come to is decided by what is found under each key, and only the object for
the store changes in the value that they were taken from. -/
theorem drafted_spec (d : Members) :
    (drafted d).2.given = givenAfter d ∧ match storeValue d with
      | .error f => ofMembers d = .error f
      | .ok store => ∃ ms, Placed d store ms ∧ ofMembers d = ofPlaced ms := by
  have hkeys : ∀ p ∈ storeKeys, p.1 ≠ storeKey := by decide
  unfold ofMembers storeValue
  rw [drafted_eq]
  by_cases hw : writes storeKeys d = []
  · have hrun := forM_of_none (D := ⟨d, ownPlaced d⟩)
      (writes_eq_nil_iff.1 ((writes_ownPlaced d).trans hw))
    rw [hrun, if_pos hw]
    exact ⟨(givenAfter_of_nil hw).symm, _, placed_ownPlaced hw, rfl⟩
  · rw [if_neg hw]
    have hw' : writes storeKeys (ownPlaced d) ≠ [] := writes_ownPlaced d ▸ hw
    have hs := member?_ownPlaced_store d
    cases ho : (member? storeKey d).getD (.obj []) with
    | obj store =>
      obtain ⟨E, hrun, hE⟩ := forM_ofStore (D := ⟨d, ownPlaced d⟩) (by decide) hkeys hw'
        (by rw [hs, ho])
      rw [hrun]
      simp only
      rw [writes_ownPlaced] at hE
      refine ⟨?_, _, hE.placed, rfl⟩
      rw [hE.given, givenAfter]
      cases hm : member? storeKey d with
      | none => rfl
      | some v =>
        obtain rfl : v = .obj store := by rw [← ho, hm, Option.getD_some]
        rfl
    | _ =>
      obtain ⟨ms, hrun⟩ := forM_ofStore_misuse (D := ⟨d, ownPlaced d⟩) hkeys hw'
        (by rw [hs, ho]; nofun)
      rw [hrun]
      refine ⟨?_, rfl⟩
      cases hm : member? storeKey d with
      | none =>
        rw [hm] at ho
        cases ho
      | some v =>
        rw [hm, Option.getD_some] at ho
        rw [givenAfter, hm, ho]

end CostLens.Settings
