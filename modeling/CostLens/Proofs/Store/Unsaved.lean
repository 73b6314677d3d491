import CostLens.Proofs.Files.Refusal
import CostLens.Proofs.Store.Capture
import CostLens.Proofs.Store.Listing

/-! # Records that could not be saved

A record is put into the store before the store is saved. If saving fails, the store has the record
nevertheless, and it differs from the store before in nothing else. The path of the store then leads
to no file, before the call as after it, or nothing was done at all; so what can be read there is as
it was.
-/
namespace CostLens

open FileSystem (Keeps)

/-! ## Saving -/

section Failing
variable {α : Type} {f : Failure} {w w' : World}

theorem Run.requirePath_bind_eq_error {t : Text} {x : Unit → Run α}
    (h : (requirePath t >>= x) w = (.error f, w')) :
    t.contains '\x00' = true ∧ w' = w ∨ x () w = (.error f, w') := by
  rw [bind_apply, requirePath_apply] at h
  cases hc : t.contains '\x00' with
  | true =>
    rw [hc] at h
    exact .inl ⟨rfl, (congrArg Prod.snd h).symm⟩
  | false =>
    rw [hc] at h
    exact .inr h

theorem Run.tryCatch_fail_eq_error {x : Run α} {g : Failure → Failure}
    (h : (tryCatch x fun f => Run.fail (g f)) w = (.error f, w')) : ∃ f', x w = (.error f', w') := by
  rw [tryCatch_apply] at h
  split at h
  · cases h
  · next f' w₁ hx =>
    refine ⟨f', ?_⟩
    rw [hx]
    exact congrArg (Prod.mk _) (congrArg Prod.snd h)

theorem Json.save_eq_error {path : Text} {v : Json} (h : save path v w = (.error f, w')) :
    path.contains '\x00' = true ∧ w' = w ∨
      ∃ e t, w.files.write path (Utf8.encode v.write) = .error e ∧
        w' = Run.logged w .warning t := by
  rcases Run.requirePath_bind_eq_error h with hnull | h
  · exact .inl hnull
  · rw [Run.bind_of_ok (Run.files_apply w)] at h
    cases hw : w.files.write path (Utf8.encode v.write) with
    | ok fs =>
      rw [hw] at h
      cases h
    | error e =>
      rw [hw] at h
      exact .inr ⟨e, _, rfl, (congrArg Prod.snd h).symm⟩

/-- A path that could not be written leads to no file, also when the log is written meanwhile. -/
theorem Json.read_of_save_eq_error {p : Path} {v : Json} (hn : ∀ n ∈ p.names, Path.IsName n)
    (h : save p.text v w = (.error f, w')) :
    (w.files.read p.text).toOption = none ∧ (w'.files.read p.text).toOption = none := by
  rcases save_eq_error h with ⟨hnull, rfl⟩ | ⟨e, t, hwrite, rfl⟩
  · have hnone : (w'.files.read p.text).toOption = none := by
      refine FileSystem.toOption_read_eq_none_iff.2 fun _ hr => ?_
      rw [FileSystem.not_contains_null_of_read hr] at hnull
      cases hnull
    exact ⟨hnone, hnone⟩
  · -- nothing is said of where the log is kept: even there, no directory becomes a file
    have hlog : w.Framed (fun _ => True) (fun _ => False) (Run.logged w .warning t) :=
      logged_framed (fun _ _ _ => trivial) .warning t
    exact ⟨FileSystem.read_of_write_eq_error hn hwrite (.refl (fun _ => True) _ _),
      FileSystem.read_of_write_eq_error hn hwrite hlog.files⟩

end Failing

namespace Store

/-- When saving fails, nothing was done, or the path leads to no file: neither behind the
directories that were made nor afterwards. -/
theorem save_eq_error {s : Store} {path : Path} {w w' : World} {f : Failure}
    (hp : s.path = some path) (hn : ∀ n ∈ path.names, Path.IsName n)
    (h : s.save w = (.error f, w')) :
    w' = w ∨ ((w.files.makeDirectories path.parent).1.read path.text).toOption = none ∧
      (w'.files.read path.text).toOption = none := by
  unfold save at h
  simp only [hp] at h
  rcases Run.requirePath_bind_eq_error h with ⟨-, hw⟩ | h
  · exact .inl hw
  rw [Run.bind_of_ok (Run.get_apply w), Run.bind_of_ok (Run.files_apply w)] at h
  split at h
  · rw [Run.bind_of_error (Run.fail_apply ..)] at h
    exact .inl (congrArg Prod.snd h).symm
  -- from here on directories may have been made
  refine .inr ?_
  rw [Run.bind_of_ok (Run.files_apply w), Run.bind_of_ok (Run.setFiles_apply ..)] at h
  cases hd : (w.files.makeDirectories path.parent).2 with
  | error e =>
    rw [hd] at h
    cases h
    have hnone := FileSystem.read_of_makeDirectories_eq_error hn hd
    exact ⟨hnone, hnone⟩
  | ok names =>
    rw [hd] at h
    obtain ⟨f', hsave⟩ := Run.tryCatch_fail_eq_error h
    exact Json.read_of_save_eq_error hn hsave

/-- Saving that fails leaves the bytes at the path as they were, also when the log is kept there. -/
theorem bytes_of_save_eq_error {s : Store} {path : Path} {w w' : World} {f : Failure}
    (hp : s.path = some path) (hn : ∀ n ∈ path.names, Path.IsName n)
    (h : s.save w = (.error f, w')) :
    (w'.files.read path.text).toOption = (w.files.read path.text).toOption := by
  rcases save_eq_error hp hn h with rfl | ⟨hmade, hafter⟩
  · rfl
  · have hkept : Keeps (fun _ => False) (fun _ => True) w.files
        (w.files.makeDirectories path.parent).1 := FileSystem.makeDirectories_keeps path.parent
    have hbefore : (w.files.read path.text).toOption = none :=
      FileSystem.toOption_read_eq_none_iff.2 fun content hr =>
        FileSystem.toOption_read_eq_none_iff.1 hmade content (hkept.read id hr)
    rw [hafter, hbefore]

/-! ## Putting one record -/

/-- A store that answers as another one does, overridden by a record at its key. The listings are
determined: which records are in them, and the strict order of their keys. -/
structure Overridden (s : Store) (r : Record) (s' : Store) : Prop where
  get : ∀ k, s'.get? k = if k = r.key then some r else s.get? k
  size : s'.size = if (s.get? r.key).isSome then s.size else s.size + 1
  listed : ∀ d x, x ∈ s'.listed d ↔
    x = r ∧ History.concerns d r = true ∨ x.key ≠ r.key ∧ x ∈ s.listed d
  ordered : ∀ d, (s'.listed d).Pairwise fun a b => a.key.Before b.key

section Put
variable {s : Store}

/-- Records with different keys are the entries of a history, the one that they are. -/
theorem records_eq_entries (hn : (s.records.map (·.key)).Nodup) :
    s.records = History.entries s.records := by
  have hall : s.records.foldl (fun rs r => insert r rs) (History.entries []) =
      History.entries ([] ++ s.records) := foldl_insert [] s.records
  have hsame : s.records.foldl (fun rs r => insert r rs) [] = [] ++ s.records :=
    foldl_insert_of_nodup s.records [] hn
  exact hsame.symm.trans hall

theorem putAll_singleton (s : Store) (r : Record) : s.putAll [r] = s.put r := rfl

theorem put_nodup (hn : (s.records.map (·.key)).Nodup) (r : Record) :
    ((s.put r).records.map (·.key)).Nodup := by
  rw [← putAll_singleton]
  exact putAll_nodup (records_eq_entries hn)

theorem get?_put (hn : (s.records.map (·.key)).Nodup) (r : Record) (k : Key) :
    (s.put r).get? k = if k = r.key then some r else s.get? k := by
  rw [← putAll_singleton, get?_putAll (records_eq_entries hn)]
  by_cases hk : k = r.key
  · simp [History.latest?, hk]
  · simp [History.latest?, hk, Ne.symm hk]

theorem size_put (hn : (s.records.map (·.key)).Nodup) (r : Record) :
    (s.put r).size = if (s.get? r.key).isSome then s.size else s.size + 1 := by
  have hold := answers_of_records (records_eq_entries hn)
  have hnew : (s.put r).Answers (s.records ++ [r]) :=
    answers_of_records ((congrArg (insert r) (records_eq_entries hn)).trans (insert_entries _ r))
  simp only [hnew.size, History.keys_append, hold.size, hold.get, History.isSome_latest?_iff]
  split
  · rfl
  · exact List.length_append

theorem overridden_put (hn : (s.records.map (·.key)).Nodup) (r : Record) :
    s.Overridden r (s.put r) := by
  have hn' := put_nodup hn r
  refine ⟨get?_put hn r, size_put hn r, fun d x => ?_, listed_before hn'⟩
  rw [mem_listed_iff_get? hn', mem_listed_iff_get? hn, get?_put hn]
  by_cases hk : x.key = r.key
  · simp only [hk, ↓reduceIte, Option.some.injEq, ne_eq, not_true_eq_false, false_and, or_false]
    constructor
    · rintro ⟨rfl, hc⟩
      exact ⟨rfl, hc⟩
    · rintro ⟨rfl, hc⟩
      exact ⟨rfl, hc⟩
  · have hne : x ≠ r := fun he => hk (congrArg Record.key he)
    simp [hk, hne]

/-- Putting a record changes nothing exactly if the store had it. -/
theorem put_eq_self_iff (hn : (s.records.map (·.key)).Nodup) (r : Record) :
    s.put r = s ↔ s.get? r.key = some r := by
  constructor
  · intro h
    have hget := get?_put_self s r
    rwa [h] at hget
  · intro h
    have hr : r ∈ s.records := ((get?_eq_some_iff hn _ _).1 h).1
    rw [put, insert_of_mem hn hr]

end Put

/-! ## Recording -/

section Recording
variable {s s' : Store} {key : Key} {time space : Json} {captured : Option Moment} {f : Failure}
  {w w' : World}

theorem record_eq_error (h : s.record key time space captured w = (.ok (.error f, s'), w')) :
    s' = s.put ⟨key, time, space, (captured.getD w.now).text⟩ ∧ s'.save w = (.error f, w') := by
  rw [record_apply] at h
  rcases hs : (s.put ⟨key, time, space, (captured.getD w.now).text⟩).save w with ⟨result, w₁⟩
  simp only [hs] at h
  cases result with
  | error f' =>
    cases h
    exact ⟨rfl, hs⟩
  | ok u => cases h

/-- A record that could not be saved stays in the store: the store answers as before, overridden by
the record, and so it is as before exactly if it had that very record. What can be read at its path
is as it was. -/
theorem failed_record_stays (hn : (s.records.map (·.key)).Nodup)
    (hp : ∀ p ∈ s.path, ∀ n ∈ p.names, Path.IsName n)
    (h : s.record key time space captured w = (.ok (.error f, s'), w')) :
    ∃ r : Record, r = ⟨key, time, space, (captured.getD w.now).text⟩ ∧ s.Overridden r s' ∧
      (s' = s ↔ s.get? key = some r) ∧
      ∀ p ∈ s.path, (w'.files.read p.text).toOption = (w.files.read p.text).toOption := by
  obtain ⟨hs', hsave⟩ := record_eq_error h
  have hpath : s'.path = s.path := by
    rw [hs']
    rfl
  refine ⟨_, rfl, ?_, ?_, fun p hm => ?_⟩
  · rw [hs']
    exact overridden_put hn _
  · rw [hs']
    exact put_eq_self_iff hn _
  · exact bytes_of_save_eq_error (hpath.trans hm) (hp p hm) hsave

end Recording

/-- A world with a directory where the file of a store should be. -/
def obstructedWorld : World where
  files := { entries := [(.ofNames ["s.json"], .directory)], current := [], home := [] }
  now := { date := ⟨2024, 5, 1⟩ }

/-- A store that was read from a file before the directory took its place. -/
def obstructed : Store := { path := some Session.startPath, records := Session.startHistory }

theorem obstructed_names : ∀ p ∈ obstructed.path, ∀ n ∈ p.names, Path.IsName n := by
  intro p hp
  obtain rfl : Session.startPath = p := Option.some.inj hp
  decide

theorem exists_of_failed {x : Run (Except Failure Record × Store)} {w : World}
    (h : (x w).1.toOption.map (·.1.toOption) = some none) :
    ∃ f s', x w = (.ok (.error f, s'), (x w).2) := by
  obtain ⟨⟨result, s'⟩, hx, hr⟩ := Option.map_eq_some_iff.1 h
  cases result with
  | error f => exact ⟨f, s', Run.eq_ok_of_toOption hx⟩
  | ok r => cases hr

/-- The record of a key is replaced although nothing can be written. -/
theorem failed_record_stays_replaced : ∃ f s' w',
    obstructed.record ⟨"d", "f", 7⟩ (.str "O(n)") (.str "O(1)") none obstructedWorld =
        (.ok (.error f, s'), w') ∧
      (s'.get? ⟨"d", "f", 7⟩).map (·.time) = some (.str "O(n)") ∧ s'.size = 1 ∧
      s' ≠ obstructed ∧ (w'.files.read Session.startPath.text).toOption = none := by
  let recording := obstructed.record ⟨"d", "f", 7⟩ (.str "O(n)") (.str "O(1)") none
  have hfailed : (recording obstructedWorld).1.toOption.map (·.1.toOption) = some none := by
    decide +kernel
  obtain ⟨f, s', hrecord⟩ := exists_of_failed hfailed
  obtain ⟨r, rfl, hover, hsame, hbytes⟩ := failed_record_stays (by decide) obstructed_names hrecord
  refine ⟨f, s', _, hrecord, ?_, ?_, ?_, ?_⟩
  · rw [hover.get, if_pos rfl]
    rfl
  · rw [hover.size]
    decide
  · intro he
    exact absurd (hsame.1 he) (by decide)
  · rw [hbytes _ rfl]
    decide +kernel

/-- A store does not always answer as before when a record could not be saved. -/
theorem answers_changed_by_failed_record : ¬ ∀ (s s' : Store) (key : Key) (time space : Text)
    (captured : Option Moment) (f : Failure) (w w' : World), (s.records.map (·.key)).Nodup →
    (∀ p ∈ s.path, ∀ n ∈ p.names, Path.IsName n) →
    s.record key (.str time) (.str space) captured w = (.ok (.error f, s'), w') →
    (∀ k, s'.get? k = s.get? k) ∧ s'.size = s.size ∧ (∀ d, s'.listed d = s.listed d) ∧
      ∀ p ∈ s.path, (w'.files.read p.text).toOption = (w.files.read p.text).toOption := by
  intro hall
  let recording := obstructed.record Session.oddKey (.str "O(n)") (.str "O(1)") none
  have hfailed : (recording obstructedWorld).1.toOption.map (·.1.toOption) = some none := by
    decide +kernel
  obtain ⟨f, s', hrecord⟩ := exists_of_failed hfailed
  obtain ⟨rfl, -⟩ := record_eq_error hrecord
  have hget := (hall _ _ _ _ _ _ f _ _ (by decide) obstructed_names hrecord).1 Session.oddKey
  have hput := get?_put_self obstructed
    ⟨Session.oddKey, .str "O(n)", .str "O(1)", obstructedWorld.now.text⟩
  have hnone : obstructed.get? Session.oddKey = none := by decide
  rw [hnone] at hget
  cases hput.symm.trans hget

end Store
end CostLens
