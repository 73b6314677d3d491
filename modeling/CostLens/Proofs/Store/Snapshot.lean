import CostLens.Proofs.Json.Readable
import CostLens.Proofs.Run.Reading
import CostLens.Proofs.Store.History

/-! # Snapshots

What is written of a store is read back as the same records, in the same order. A record lasts if
its labels are texts and its line is short; every record that was read with text labels does.
-/
namespace CostLens

/-- A record that survives being written and read. -/
structure Record.Lasts (r : Record) : Prop where
  time : ∃ t, r.time = .str t
  space : ∃ t, r.space = .str t
  line : Json.IsShort r.key.line

theorem Record.ofJson_toJson (r : Record) : ofJson r.toJson = .ok r := rfl

theorem Record.Lasts.storable {r : Record} (h : r.Lasts) : Json.Storable r.toJson := by
  obtain ⟨⟨t, ht⟩, ⟨s, hs⟩, hl⟩ := h
  have hn : (r.members.map (·.1)).Nodup := by
    simp only [members, List.map_cons, List.map_nil]
    decide
  refine ⟨hn, ?_⟩
  simp only [members, Json.StorableMembers, Json.Storable, ht, hs, hl, and_self]

theorem Record.Lasts.depth {r : Record} (h : r.Lasts) : Json.depth r.toJson = 1 := by
  obtain ⟨⟨t, ht⟩, ⟨s, hs⟩, _⟩ := h
  simp [Record.toJson, Record.members, Json.depth, Json.depthMembers, ht, hs]

namespace Store

theorem insert_of_not_mem {r : Record} {rs : List Record} (h : r.key ∉ rs.map (·.key)) :
    insert r rs = rs ++ [r] := by
  induction rs with
  | nil => rfl
  | cons s rs ih =>
    obtain ⟨hs, hrs⟩ := not_or.1 (mt List.mem_cons.2 h)
    rw [insert, if_neg (Ne.symm hs), ih hrs, List.cons_append]

theorem foldl_insert_of_nodup (rs acc : List Record) (h : ((acc ++ rs).map (·.key)).Nodup) :
    rs.foldl (fun acc r => insert r acc) acc = acc ++ rs := by
  induction rs generalizing acc with
  | nil => simp
  | cons r rs ih =>
    have hr : r.key ∉ acc.map (·.key) := by
      intro hm
      rw [List.map_append, List.nodup_append] at h
      exact h.2.2 _ hm _ (by simp) rfl
    have ha : acc ++ [r] ++ rs = acc ++ r :: rs := by simp
    rw [List.foldl_cons, insert_of_not_mem hr, ih _ (ha ▸ h), ha]

theorem ofItems_map (path : Path) (rs : List Record) :
    ofItems path (rs.map Record.toJson) =
      .ok { path := some path, records := rs.foldl (fun acc r => insert r acc) [] } := by
  have hall : ∀ s : Store, (rs.map Record.toJson).foldlM
      (fun s v => do return s.put (← Record.ofJson v)) s =
        (.ok { s with records := rs.foldl (fun acc r => insert r acc) s.records } :
          Except Failure Store) := by
    induction rs with
    | nil => exact fun s => rfl
    | cons r rs ih =>
      intro s
      rw [List.map_cons, List.foldlM_cons, Record.ofJson_toJson]
      exact ih (s.put r)
  exact hall _

theorem ofSnapshot_snapshot (path : Path) {s : Store} (now : Text)
    (h : (s.records.map (·.key)).Nodup) :
    ofSnapshot path (s.snapshot now) = .ok { path := some path, records := s.records } := by
  have hf := foldl_insert_of_nodup s.records [] (by simpa using h)
  change ofItems path (s.records.map Record.toJson) = _
  rw [ofItems_map, hf, List.nil_append]

theorem storableItems_records {rs : List Record} (h : ∀ r ∈ rs, r.Lasts) :
    Json.StorableItems (rs.map Record.toJson) := by
  induction rs with
  | nil => trivial
  | cons r rs ih =>
    obtain ⟨hr, hrs⟩ := List.forall_mem_cons.1 h
    exact ⟨hr.storable, ih hrs⟩

theorem depthItems_records {rs : List Record} (h : ∀ r ∈ rs, r.Lasts) :
    Json.depthItems (rs.map Record.toJson) ≤ 1 := by
  induction rs with
  | nil => simp [Json.depthItems]
  | cons r rs ih =>
    obtain ⟨hr, hrs⟩ := List.forall_mem_cons.1 h
    have hi := ih hrs
    simp only [List.map_cons, Json.depthItems, hr.depth]
    omega

theorem snapshot_storable {s : Store} (now : Text) (h : ∀ r ∈ s.records, r.Lasts) :
    Json.Storable (s.snapshot now) := by
  have hn : (["updated_at", "records"] : List Text).Nodup := by decide
  refine ⟨hn, ?_⟩
  simp only [Json.StorableMembers, Json.Storable, storableItems_records h, and_self]

theorem snapshot_depth {s : Store} (now : Text) (h : ∀ r ∈ s.records, r.Lasts) :
    Json.depth (s.snapshot now) ≤ Json.maxDepth := by
  have hd := depthItems_records h
  simp only [snapshot, Json.depth, Json.depthMembers, Json.maxDepth]
  omega

/-! ## Reading -/

/-- The records that values make, in order. -/
def recordsOf (items : List Json) : History :=
  items.filterMap fun item => (Record.ofJson item).toOption

/-- The records in a snapshot, in the order of the file. -/
def recorded (v : Json) : History := recordsOf ((items? v).getD [])

theorem recordsOf_cons {v : Json} {r : Record} (h : Record.ofJson v = .ok r) (items : List Json) :
    recordsOf (v :: items) = r :: recordsOf items := by
  have hr : (Record.ofJson v).toOption = some r := by
    rw [h]
    rfl
  exact List.filterMap_cons_some hr

theorem mem_recordsOf {items : List Json} {r : Record} (h : r ∈ recordsOf items) :
    ∃ item ∈ items, Record.ofJson item = .ok r := by
  obtain ⟨item, hi, hr⟩ := List.mem_filterMap.1 h
  refine ⟨item, hi, ?_⟩
  cases ho : Record.ofJson item with
  | error f =>
    rw [ho] at hr
    cases hr
  | ok r' =>
    rw [ho] at hr
    cases hr
    rfl

theorem foldlM_put {path : Path} {items : List Json} {s : Store} (h : History)
    (hs : items.foldlM (fun s v => do return s.put (← Record.ofJson v))
      { path := some path, records := h.entries } = (.ok s : Except Failure Store)) :
    s = { path := some path, records := History.entries (h ++ recordsOf items) } := by
  induction items generalizing h with
  | nil =>
    cases hs
    simp [recordsOf]
  | cons v items ih =>
    rw [List.foldlM_cons] at hs
    cases hv : Record.ofJson v with
    | error f =>
      rw [hv] at hs
      cases hs
    | ok r =>
      rw [hv] at hs
      have hp : put { path := some path, records := h.entries } r =
          { path := some path, records := History.entries (h ++ [r]) } := by
        rw [← insert_entries]
        rfl
      have hi := ih (h ++ [r]) (hp ▸ hs)
      rw [recordsOf_cons hv, hi, List.append_assoc, List.singleton_append]

/-- What a snapshot makes holds the entries of its records. -/
theorem ofSnapshot_eq_ok {path : Path} {v : Json} {s : Store} (h : ofSnapshot path v = .ok s) :
    s = { path := some path, records := (recorded v).entries } := by
  unfold ofSnapshot at h
  split at h
  · next items hi =>
    rw [recorded, hi]
    exact foldlM_put [] h
  · cases h

theorem items?_readable {v : Json} {items : List Json} (hv : v.Readable)
    (h : items? v = some items) : ∀ item ∈ items, item.Readable := by
  unfold items? at h
  split at h
  · split at h
    · cases h
      exact List.forall_mem_nil _
    · next hm =>
      cases h
      exact fun item hi => (hv.member? hm).item hi
    · cases h
  · cases h

theorem recorded_isShort {v : Json} (hv : v.Readable) :
    ∀ r ∈ recorded v, Json.IsShort r.key.line := by
  intro r hr
  obtain ⟨item, hi, ho⟩ := mem_recordsOf hr
  cases hs : items? v with
  | none =>
    rw [hs] at hi
    cases hi
  | some items =>
    rw [hs] at hi
    exact Record.ofJson_isShort (items?_readable hv hs item hi).bounded ho

end Store

namespace FileSystem

/-- The value in a file, or a default one if there is no file. -/
def valueOr (fs : FileSystem) (path : Text) (default : Json) : Except Failure Json :=
  match fs.value path with
  | .error (.file ⟨.notFound, _⟩) => .ok default
  | found => found

/-- The store in a file. -/
def store (fs : FileSystem) (path : Path) : Except Failure Store :=
  match fs.valueOr path.text (.obj []) with
  | .ok v => Store.ofSnapshot path v
  | .error f => .error (Store.readFailure path f)

/-- The records in the file of a store, in the order of the file. -/
def recorded (fs : FileSystem) (path : Path) : History :=
  match fs.value path.text with
  | .ok v => Store.recorded v
  | .error _ => []

theorem value_readable {fs : FileSystem} {path : Text} {v : Json} (h : fs.value path = .ok v) :
    v.Readable := by
  unfold value at h
  split at h
  · cases h
  split at h
  · cases h
  split at h
  · cases h
  split at h
  · cases h
  · next hr =>
    cases h
    exact Json.read_readable hr

/-- A store that is read holds the entries of the records in its file, whose lines are short. -/
theorem store_eq_ok {fs : FileSystem} {path : Path} {s : Store} (h : fs.store path = .ok s) :
    s = { path := some path, records := (fs.recorded path).entries } ∧
      ∀ r ∈ fs.recorded path, Json.IsShort r.key.line := by
  unfold store valueOr at h
  unfold recorded
  cases hv : fs.value path.text with
  | ok v =>
    rw [hv] at h
    exact ⟨Store.ofSnapshot_eq_ok h, Store.recorded_isShort (value_readable hv)⟩
  | error f =>
    rw [hv] at h
    split at h
    · next v hv' =>
      split at hv'
      · cases hv'
        exact ⟨Store.ofSnapshot_eq_ok h, fun r hr => nomatch hr⟩
      · cases hv'
    · cases h

theorem recorded_of_read_error {fs : FileSystem} {path : Path} {e : FileError}
    (h : fs.read path.text = .error e) : fs.recorded path = [] := by
  unfold recorded value
  rw [h]
  split
  · next hv => split at hv <;> cases hv
  · rfl

/-- The store that the records in a file make. -/
def stored (fs : FileSystem) (path : Path) : Store where
  path := some path
  records := (fs.recorded path).entries

theorem recorded_short (fs : FileSystem) (path : Path) :
    ∀ r ∈ fs.recorded path, Json.IsShort r.key.line := by
  intro r hr
  unfold recorded at hr
  cases hv : fs.value path.text with
  | ok v =>
    rw [hv] at hr
    exact Store.recorded_isShort (value_readable hv) r hr
  | error f =>
    rw [hv] at hr
    cases hr

section Keeps
variable {W : Places} {fs fs' : FileSystem}

/-- Where no directory is made and a file is not written, the file is there as before or it is not
there. -/
theorem Keeps.bytes (h : Keeps W (fun _ => False) fs fs') {path : Text}
    (hw : ¬ W (fs.place path)) : (fs'.read path).toOption = (fs.read path).toOption := by
  cases hr : fs.read path with
  | ok bytes => rw [h.read hw hr]
  | error e =>
    cases hr' : fs'.read path with
    | ok bytes =>
      rw [h.of_read hw hr'] at hr
      cases hr
    | error e' => rfl

theorem Keeps.recorded (h : Keeps W (fun _ => False) fs fs') {path : Path}
    (hw : ¬ W (fs.place path.text)) : fs'.recorded path = fs.recorded path := by
  have hb := h.bytes hw
  cases hr : fs.read path.text with
  | ok bytes =>
    unfold FileSystem.recorded value
    rw [hr, h.read hw hr]
  | error e =>
    cases hr' : fs'.read path.text with
    | ok bytes =>
      rw [hr, hr'] at hb
      cases hb
    | error e' => rw [recorded_of_read_error hr, recorded_of_read_error hr']

end Keeps

end FileSystem

theorem Json.loadOr_strict_apply (path : Text) (default : Json) (w : World) :
    Json.loadOr path default true w = (w.files.valueOr path default, w) := by
  rw [Json.loadOr, Run.tryCatch_apply, Json.load_apply, FileSystem.valueOr]
  cases w.files.value path with
  | ok v => rfl
  | error f =>
    cases f with
    | file e =>
      obtain ⟨fault, p⟩ := e
      cases fault <;> rfl
    | json e => cases e <;> rfl
    | _ => rfl

theorem Store.load_apply (path : Path) (w : World) :
    Store.load path w = match w.files.store path with
      | .ok s => (.ok s, Run.logged w .debug
          ("Loaded " ++ natText s.size ++ " records from " ++ path.text))
      | .error f => (.error f, w) := by
  rw [Store.load, FileSystem.store, Run.bind_apply, Run.tryCatch_apply, Json.loadOr_strict_apply]
  cases w.files.valueOr path.text (.obj []) with
  | error f => rfl
  | ok v =>
    simp only [Run.bind_apply]
    cases Store.ofSnapshot path v <;> rfl

theorem Store.load_fst (path : Path) (w : World) : (Store.load path w).1 = w.files.store path := by
  rw [Store.load_apply]
  cases w.files.store path <;> rfl

theorem Store.load_remarks (path : Path) : Run.Remarks (Store.load path) := by
  intro w
  rw [Store.load_apply]
  cases w.files.store path with
  | ok s => exact .message _ _ (.refl w)
  | error f => exact .refl w

end CostLens
