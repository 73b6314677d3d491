import CostLens.Proofs.Store.Session
import Mathlib.Logic.Function.Basic

/-! # Clients that share a store

Several clients may open the store at one path. Each of them keeps what the file held when it opened
the store and writes the whole file with every record. So the file holds what the client that wrote
last knows: what it found, and its own records. What others wrote in the meantime is lost, while the
records under keys that nobody wrote stay.
-/
namespace CostLens

/-- What clients did with a store: what the file held when each was opened, and the records that
they wrote, the oldest first. -/
structure Ledger (ι : Type) where
  found : ι → Option History := fun _ => none
  written : List (ι × Record) := []

namespace Ledger

variable {ι : Type} [DecidableEq ι]

/-- The records that a client wrote. -/
def own (l : Ledger ι) (c : ι) : History := (l.written.filter fun p => p.1 = c).map (·.2)

/-- The history in the file, which held `start` at first: what the last writer knows. -/
def file (start : History) (l : Ledger ι) : History :=
  match l.written.getLast? with
  | some (c, _) => (l.found c).getD [] ++ l.own c
  | none => start

/-- A client opens the store. -/
def opening (start : History) (l : Ledger ι) (c : ι) : Ledger ι :=
  { l with found := Function.update l.found c (some (l.file start)) }

/-- A client writes a record. -/
def writing (l : Ledger ι) (c : ι) (r : Record) : Ledger ι :=
  { l with written := l.written ++ [(c, r)] }

@[simp] theorem found_opening_self (start : History) (l : Ledger ι) (c : ι) :
    (l.opening start c).found c = some (l.file start) := Function.update_self ..

theorem found_opening_of_ne (start : History) (l : Ledger ι) {c d : ι} (h : d ≠ c) :
    (l.opening start c).found d = l.found d := Function.update_of_ne h ..

theorem own_writing (l : Ledger ι) (c d : ι) (r : Record) :
    (l.writing c r).own d = if c = d then l.own d ++ [r] else l.own d := by
  unfold own writing
  rw [List.filter_append, List.map_append]
  by_cases hc : c = d <;> simp [hc]

theorem mem_own {l : Ledger ι} {c : ι} {r : Record} : r ∈ l.own c ↔ (c, r) ∈ l.written := by
  unfold own
  simp only [List.mem_map, List.mem_filter, decide_eq_true_eq]
  constructor
  · rintro ⟨⟨d, r'⟩, ⟨hm, rfl⟩, rfl⟩
    exact hm
  · intro hm
    exact ⟨(c, r), ⟨hm, rfl⟩, rfl⟩

theorem file_writing {l : Ledger ι} {c : ι} {h start : History} (r : Record)
    (hc : l.found c = some h) : (l.writing c r).file start = h ++ l.own c ++ [r] := by
  have hlast : (l.writing c r).written.getLast? = some (c, r) := List.getLast?_concat ..
  rw [file, hlast]
  simp only [own_writing, ↓reduceIte]
  rw [show (l.writing c r).found c = some h from hc, Option.getD_some, List.append_assoc]

end Ledger

/-- A history that comes from another one by records that were written: under keys that were not
written nothing has changed, and every record was there or was written. -/
structure History.ComesFrom {ι : Type} (start : History) (written : List (ι × Record))
    (h : History) : Prop where
  untouched : ∀ k, (∀ p ∈ written, p.2.key ≠ k) → h.latest? k = start.latest? k
  known : ∀ k r, h.latest? k = some r → start.latest? k = some r ∨ ∃ c, (c, r) ∈ written

namespace History.ComesFrom

variable {ι : Type} {start h : History} {written more : List (ι × Record)}

theorem refl (start : History) (written : List (ι × Record)) : start.ComesFrom written start :=
  ⟨fun _ _ => rfl, fun _ _ hr => .inl hr⟩

theorem mono (hc : start.ComesFrom written h) (more : List (ι × Record)) :
    start.ComesFrom (written ++ more) h := by
  refine ⟨fun k hk => hc.untouched k fun p hp => hk p (List.mem_append_left _ hp), ?_⟩
  intro k r hr
  rcases hc.known k r hr with hs | ⟨c, hm⟩
  · exact .inl hs
  · exact .inr ⟨c, List.mem_append_left _ hm⟩

theorem append {own : History} (hc : start.ComesFrom written h)
    (ho : ∀ r ∈ own, ∃ c, (c, r) ∈ written) : start.ComesFrom written (h ++ own) := by
  constructor
  · intro k hk
    have hnone : own.latest? k = none := by
      refine List.find?_eq_none.2 fun r hr he => ?_
      obtain ⟨c, hm⟩ := ho r (List.mem_reverse.1 hr)
      exact hk _ hm (beq_iff_eq.1 he)
    rw [History.latest?_append_all, hnone, Option.none_or]
    exact hc.untouched k hk
  · intro k r hr
    rw [History.latest?_append_all] at hr
    rcases Option.or_eq_some_iff.1 hr with hown | ⟨-, hold⟩
    · exact .inr (ho r (History.mem_of_latest? hown))
    · exact hc.known k r hold

end History.ComesFrom

/-! ## Runs of several clients -/

/-- The states that clients of the store at a path can reach: what they did, the stores that they
hold, and the world. The file holds `start` at first. Every client is opened once, at any time, and
records when it likes; between the steps the clock may go on. -/
inductive Sharing {ι : Type} [DecidableEq ι] (path : Path) (start : History) :
    Ledger ι → (ι → Option Store) → World → Prop
  | start {w : World} (loads : ∃ s, w.files.store path = .ok s)
      (holds : w.files.recorded path = start) (labels : ∀ r ∈ start, r.HasTextLabels)
      (apart : w.LogsApart path.text) : Sharing path start {} (fun _ => none) w
  | opened {l : Ledger ι} {clients : ι → Option Store} {w w' : World} {c : ι} {s : Store}
      (before : Sharing path start l clients w) (fresh : l.found c = none)
      (done : Store.load path w = (.ok s, w')) :
      Sharing path start (l.opening start c) (Function.update clients c (some s)) w'
  | recorded {l : Ledger ι} {clients : ι → Option Store} {w w' : World} {c : ι} {s s' : Store}
      {key : Key} {time space : Text} {captured : Option Moment} {r : Record}
      (before : Sharing path start l clients w) (holds : clients c = some s)
      (short : Json.IsShort key.line)
      (done : s.record key (.str time) (.str space) captured w = (.ok (.ok r, s'), w')) :
      Sharing path start (l.writing c r) (Function.update clients c (some s')) w'
  | elsewhere {l : Ledger ι} {clients : ι → Option Store} {w w' : World}
      (before : Sharing path start l clients w) (files : w'.files = w.files)
      (apart : w'.LogsApart path.text) : Sharing path start l clients w'

/-- What holds at every point: the file is that of the last writer, each client remembers what it
found and wrote, and what it found comes from the first file by records that were written. -/
structure Shared {ι : Type} [DecidableEq ι] (path : Path) (start : History) (l : Ledger ι)
    (clients : ι → Option Store) (w : World) : Prop where
  file : ∃ s, Kept path (l.file start) s w
  clients : ∀ c s, clients c = some s →
    ∃ h, l.found c = some h ∧ Remembers path (h ++ l.own c) s
  found : ∀ c h, l.found c = some h → start.ComesFrom l.written h
  writers : ∀ c r, (c, r) ∈ l.written → ∃ h, l.found c = some h

namespace Shared

variable {ι : Type} [DecidableEq ι] {path : Path} {start : History} {l : Ledger ι}
  {clients : ι → Option Store} {w w' : World} {c : ι} {s s' : Store}

theorem own_eq_nil (hs : Shared path start l clients w) (fresh : l.found c = none) :
    l.own c = [] := by
  refine List.eq_nil_iff_forall_not_mem.2 fun r hr => ?_
  obtain ⟨h, hh⟩ := hs.writers c r (Ledger.mem_own.1 hr)
  rw [fresh] at hh
  cases hh

/-- The history in the file comes from the first one by records that were written. -/
theorem file_comesFrom (hs : Shared path start l clients w) :
    start.ComesFrom l.written (l.file start) := by
  unfold Ledger.file
  cases hl : l.written.getLast? with
  | none => exact .refl ..
  | some p =>
    obtain ⟨c, r⟩ := p
    obtain ⟨h, hh⟩ := hs.writers c r (List.mem_of_getLast? hl)
    simp only [hh, Option.getD_some]
    exact (hs.found c h hh).append fun r hr => ⟨c, Ledger.mem_own.1 hr⟩

theorem file_opening (l : Ledger ι) (fresh : l.found c = none)
    (hw : ∀ c r, (c, r) ∈ l.written → ∃ h, l.found c = some h) :
    (l.opening start c).file start = l.file start := by
  unfold Ledger.file
  cases hl : l.written.getLast? with
  | none => simp only [Ledger.opening, hl]
  | some p =>
    obtain ⟨d, r⟩ := p
    obtain ⟨h, hh⟩ := hw d r (List.mem_of_getLast? hl)
    have hd : d ≠ c := by
      rintro rfl
      rw [fresh] at hh
      cases hh
    simp only [Ledger.opening, hl, Function.update_of_ne hd, Ledger.own]

theorem opened (hs : Shared path start l clients w) (fresh : l.found c = none)
    (done : Store.load path w = (.ok s, w')) :
    Shared path start (l.opening start c) (Function.update clients c (some s)) w' := by
  obtain ⟨s₀, hk⟩ := hs.file
  obtain ⟨w'', hl, hk'⟩ := hk.load
  rw [hl] at done
  cases done
  refine ⟨⟨s, (file_opening l fresh hs.writers).symm ▸ hk'⟩, ?_, ?_, ?_⟩
  · intro d t hd
    by_cases hdc : d = c
    · subst hdc
      rw [Function.update_self] at hd
      cases hd
      refine ⟨l.file start, l.found_opening_self start d, ?_⟩
      have hown : (l.opening start d).own d = [] := hs.own_eq_nil fresh
      rw [hown, List.append_nil]
      exact hk'.remembers
    · rw [Function.update_of_ne hdc] at hd
      obtain ⟨h, hh, hm⟩ := hs.clients d t hd
      exact ⟨h, (l.found_opening_of_ne start hdc).trans hh, hm⟩
  · intro d h hd
    by_cases hdc : d = c
    · subst hdc
      rw [Ledger.found_opening_self] at hd
      exact Option.some.inj hd ▸ hs.file_comesFrom
    · rw [l.found_opening_of_ne start hdc] at hd
      exact hs.found d h hd
  · intro d r hd
    by_cases hdc : d = c
    · subst hdc
      exact ⟨_, l.found_opening_self start d⟩
    · obtain ⟨h, hh⟩ := hs.writers d r hd
      exact ⟨h, (l.found_opening_of_ne start hdc).trans hh⟩

theorem recorded {key : Key} {time space : Text} {captured : Option Moment} {r : Record}
    (hs : Shared path start l clients w) (holds : clients c = some s)
    (short : Json.IsShort key.line)
    (done : s.record key (.str time) (.str space) captured w = (.ok (.ok r, s'), w')) :
    Shared path start (l.writing c r) (Function.update clients c (some s')) w' := by
  obtain ⟨s₀, hk⟩ := hs.file
  obtain ⟨h, hh, hm⟩ := hs.clients c s holds
  obtain ⟨-, hk'⟩ := hm.recorded hk.apart short done
  refine ⟨⟨s', (Ledger.file_writing r hh).symm ▸ hk'⟩, ?_, ?_, ?_⟩
  · intro d t hd
    rw [Ledger.own_writing]
    by_cases hdc : d = c
    · subst hdc
      rw [Function.update_self] at hd
      cases hd
      refine ⟨h, hh, ?_⟩
      rw [if_pos rfl, ← List.append_assoc]
      exact hk'.remembers
    · rw [Function.update_of_ne hdc] at hd
      rw [if_neg (Ne.symm hdc)]
      exact hs.clients d t hd
  · intro d h' hd
    exact (hs.found d h' hd).mono _
  · intro d r' hd
    rcases List.mem_append.1 hd with hold | hnew
    · exact hs.writers d r' hold
    · cases List.mem_singleton.1 hnew
      exact ⟨h, hh⟩

end Shared

section Reopening
variable {ι : Type} [DecidableEq ι] {path : Path} {start : History} {l : Ledger ι}
  {clients : ι → Option Store} {w : World}

theorem Sharing.shared (hs : Sharing path start l clients w) :
    Shared path start l clients w := by
  induction hs with
  | @start w loads holds labels apart =>
    obtain ⟨s, hs⟩ := loads
    obtain ⟨he, hshort⟩ := FileSystem.store_eq_ok hs
    rw [holds] at he hshort
    have hlasts : ∀ r ∈ start, r.Lasts := fun r hr => (labels r hr).lasts (hshort r hr)
    exact ⟨⟨s, hs, by rw [he]; rfl, hlasts, apart⟩, nofun, nofun, nofun⟩
  | opened _ fresh done ih => exact ih.opened fresh done
  | recorded _ holds short done ih => exact ih.recorded holds short done
  | elsewhere _ files apart ih =>
    obtain ⟨s, hk⟩ := ih.file
    exact ⟨⟨s, files ▸ hk.file, hk.records, hk.lasts, apart⟩, ih.clients, ih.found, ih.writers⟩

/-- Opening the store again succeeds and gives what the client that wrote last knows: under each key
the last record that this client wrote, and else what the file held when this client was opened.
Under keys that nobody wrote there is what was there at first, and every record was there at first
or was written. -/
theorem Sharing.reopened_as_last_writer (hs : Sharing path start l clients w) :
    ∃ s w', Store.load path w = (.ok s, w') ∧ s.Answers (l.file start) ∧
      (∀ c r, l.written.getLast? = some (c, r) → ∃ h, l.found c = some h ∧
        ∀ k, s.get? k = ((l.own c).latest? k).or (h.latest? k)) ∧
      (∀ k, (∀ p ∈ l.written, p.2.key ≠ k) → s.get? k = start.latest? k) ∧
      ∀ k r, s.get? k = some r → start.latest? k = some r ∨ ∃ c, (c, r) ∈ l.written := by
  have hshared := hs.shared
  obtain ⟨s, hk⟩ := hshared.file
  obtain ⟨w', hl, hk'⟩ := hk.load
  have ha := Store.answers_of_records hk'.records
  have hfrom := hshared.file_comesFrom
  refine ⟨s, w', hl, ha, ?_, ?_, ?_⟩
  · intro c r hlast
    obtain ⟨h, hh⟩ := hshared.writers c r (List.mem_of_getLast? hlast)
    refine ⟨h, hh, fun k => ?_⟩
    rw [ha.get, Ledger.file, hlast]
    simp only [hh, Option.getD_some, History.latest?_append_all]
  · intro k hk
    rw [ha.get]
    exact hfrom.untouched k hk
  · intro k r hr
    rw [ha.get] at hr
    exact hfrom.known k r hr

end Reopening

/-! ## Two clients that overlap -/

namespace Sharing

def emptyWorld : World where
  files := { entries := [], current := [], home := [] }
  now := { date := ⟨2024, 5, 1⟩ }

def sharedPath : Path := ⟨1, ["s.json"]⟩

def recordOf (name : Text) : Record :=
  ⟨⟨"d", name, 1⟩, .str "O(n)", .str "O(1)", emptyWorld.now.text⟩

/-- Both clients are opened before either of them writes. -/
def overlapping : Ledger Bool :=
  (((({} : Ledger Bool).opening [] false).opening [] true).writing false (recordOf "f")).writing
    true (recordOf "g")

theorem eq_of_recorded {x : Run (Except Failure Record × Store)} {w : World} {r : Record}
    {s : Store} (h : (x w).1.toOption.map (fun p => (p.1.toOption, p.2)) = some (some r, s)) :
    x w = (.ok (.ok r, s), (x w).2) := by
  obtain ⟨⟨result, s'⟩, hx, he⟩ := Option.map_eq_some_iff.1 h
  cases result with
  | error f => cases he
  | ok r' =>
    cases he
    exact Run.eq_ok_of_toOption hx

theorem exists_overlapping :
    ∃ clients w, Sharing sharedPath [] overlapping clients w := by
  let s : Store := { path := some sharedPath }
  let opening := Store.load sharedPath
  let recording (name : Text) :=
    s.record ⟨"d", name, 1⟩ (.str "O(n)") (.str "O(1)") (some emptyWorld.now)
  let w₁ := (opening emptyWorld).2
  let w₂ := (opening w₁).2
  let w₃ := (recording "f" w₂).2
  have h₁ : (opening emptyWorld).1.toOption = some s := by decide +kernel
  have h₂ : (opening w₁).1.toOption = some s := by decide +kernel
  have h₃ : (recording "f" w₂).1.toOption.map (fun p => (p.1.toOption, p.2)) =
      some (some (recordOf "f"), s.put (recordOf "f")) := by decide +kernel
  have h₄ : (recording "g" w₃).1.toOption.map (fun p => (p.1.toOption, p.2)) =
      some (some (recordOf "g"), s.put (recordOf "g")) := by decide +kernel
  have hloads : (emptyWorld.files.store sharedPath).toOption = some s := by decide +kernel
  have hstart : Sharing (ι := Bool) sharedPath [] {} (fun _ => none) emptyWorld :=
    .start ⟨s, eq_ok_of_toOption hloads⟩ (by decide +kernel) nofun (fun _ _ h => nomatch h)
  have hopen := Sharing.opened (c := false) hstart rfl (Run.eq_ok_of_toOption h₁)
  have hboth := Sharing.opened (c := true) hopen rfl (Run.eq_ok_of_toOption h₂)
  have hfirst := Sharing.recorded (c := false) hboth rfl (by decide) (eq_of_recorded h₃)
  exact ⟨_, _, Sharing.recorded (c := true) hfirst rfl (by decide) (eq_of_recorded h₄)⟩

theorem reopened_as_last_writer_overlapping :
    ∃ clients w, Sharing sharedPath [] overlapping clients w ∧
      ∃ s w', Store.load sharedPath w = (.ok s, w') ∧
        s.get? (recordOf "g").key = some (recordOf "g") := by
  obtain ⟨clients, w, hs⟩ := exists_overlapping
  obtain ⟨s, w', hl, -, hlast, -, -⟩ := hs.reopened_as_last_writer
  obtain ⟨h, -, hget⟩ := hlast true (recordOf "g") rfl
  refine ⟨clients, w, hs, s, w', hl, ?_⟩
  have hown : (overlapping.own true).latest? (recordOf "g").key = some (recordOf "g") := by
    decide +kernel
  rw [hget, hown, Option.some_or]

/-- Not every key that one of two clients wrote is found when the store is opened again. -/
theorem record_of_other_client_lost : ¬ ∀ (path : Path) (start : History) (l : Ledger Bool)
    (clients : Bool → Option Store) (w : World), Sharing path start l clients w →
    ∀ p ∈ l.written, ∃ s w', Store.load path w = (.ok s, w') ∧
      ∃ r, s.get? p.2.key = some r ∧ ∃ c, (c, r) ∈ l.written := by
  intro hall
  obtain ⟨clients, w, hs⟩ := exists_overlapping
  obtain ⟨s, w', hl, r, hr, -⟩ := hall _ _ _ clients w hs (false, recordOf "f") List.mem_cons_self
  obtain ⟨s', hk⟩ := hs.shared.file
  obtain ⟨w'', hl', hk'⟩ := hk.load
  rw [hl'] at hl
  cases hl
  have hnone : (overlapping.file []).latest? (recordOf "f").key = none := by decide +kernel
  rw [(Store.answers_of_records hk'.records).get, hnone] at hr
  cases hr

end Sharing

end CostLens
