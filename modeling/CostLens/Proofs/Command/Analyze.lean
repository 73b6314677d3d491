import CostLens.Proofs.Command.Finding
import CostLens.Proofs.Store.Overriding

/-! # What an analysis does to the store

Each target is analysed and its verdict put into the store, which is saved each time. So once a
command has worked through its targets, the file holds the store with all of their verdicts.
-/
namespace CostLens

open FileSystem (Places Keeps)

/-- The record of an analysis of a document. -/
def Analysis.record (uri : Text) (now : Moment) (a : Analysis) : Record :=
  ⟨a.candidate.key uri, .str a.verdict.time.label, .str a.verdict.space.label, now.text⟩

/-- The files change at most where the log goes and at one more place, the clock stands still,
nothing is printed, and the log goes where it went. -/
structure World.Stored (L : Places) (place : List Text) (w w' : World) : Prop where
  files : Keeps (fun n => L n ∨ n = place) (fun _ => True) w.files w'.files
  now : w'.now = w.now
  printed : w'.printed = w.printed
  logs : w'.LogsTo L

section Stored
variable {L : Places} {place : List Text} {w w' w'' : World}

theorem World.Stored.trans (h : w.Stored L place w') (h' : w'.Stored L place w'') :
    w.Stored L place w'' :=
  ⟨h.files.trans h'.files, h'.now.trans h.now, h'.printed.trans h.printed, h'.logs⟩

theorem World.Framed.stored {D : Places} (h : w.Framed L D w') : w.Stored L place w' :=
  ⟨h.files.mono (fun _ => .inl) (fun _ _ => trivial), h.now, h.printed, h.logs⟩

theorem World.Remarked.stored (h : Remarked w w') (hl : w.LogsTo L) : w.Stored L place w' :=
  (h.framed (D := fun _ => False) hl).stored

end Stored

namespace Command

variable {L : Places} {place : List Text} {path : Path} {document : Document} {family : Family}
  {store store' : Store} {w w' : World}

theorem recordTarget_eq_ok {a : Analysis} {r : Record} (hp : store.path = some path)
    (hl : w.LogsTo L) (hplace : w.files.place path.text = place) (hne : ¬ L place)
    (h : recordTarget document store a w = (.ok (r, store'), w')) :
    r = a.record document.uri w.now ∧ store' = store.put r ∧ w.Stored L place w' ∧
      store'.HeldIn path w.now w'.files := by
  unfold recordTarget at h
  obtain ⟨⟨result, s₁⟩, w₁, h₁, h⟩ := Run.bind_eq_ok.1 h
  cases result with
  | error f => cases h
  | ok r₁ =>
  simp only [Run.bind_of_ok (Run.ofExcept_ok ..), Run.bind_of_ok (Run.message_apply ..)] at h
  obtain ⟨hpair, hw'⟩ := Prod.mk.inj h
  cases hpair
  obtain ⟨hr, rfl, w₂, t, hsave, rfl⟩ := Store.record_eq_ok h₁
  obtain ⟨fs, hk, hread, rfl⟩ := Store.save_eq_ok (s := store.put r) hp hsave
  -- three messages follow the writing of the file
  have hremarked : World.Remarked { w with files := fs } w' := by
    rw [← hw']
    exact .message _ _ (.message _ _ (.message _ _ (.refl _)))
  have hf : World.Framed L (fun _ => False) { w with files := fs } w' := hremarked.framed hl
  have hk' : Keeps (fun n => L n ∨ n = place) (fun _ => True) w.files fs :=
    hk.mono (fun n hn => .inr (hn.trans hplace)) (fun _ h => h)
  have hout : ¬ L (fs.place path.text) := by rwa [hk.place, hplace]
  refine ⟨hr, rfl, ⟨hk'.trans hf.stored.files, hf.now, hf.printed, hf.logs⟩, ?_⟩
  exact Store.HeldIn.keeps hread hf.files hout

theorem settleTarget_eq_ok {c : Candidate} {change : ContextChange} {a : Analysis} {r : Record}
    (hp : store.path = some path) (hl : w.LogsTo L) (hplace : w.files.place path.text = place)
    (hne : ¬ L place)
    (h : Run.within change (do
      let a ← analyzeTarget family document c
      let (r, store) ← recordTarget document store a
      pure (a, r, store)) w = (.ok (a, r, store'), w')) :
    Analysis.ofCandidate? family document.lines c = some a ∧
      r = a.record document.uri w.now ∧ store' = store.put r ∧ w.Stored L place w' ∧
      store'.HeldIn path w.now w'.files := by
  obtain ⟨w₀, w₁, hr₀, h, hr₁⟩ := Run.within_eq_ok h
  obtain ⟨b, w₂, h₂, h⟩ := Run.bind_eq_ok.1 h
  unfold analyzeTarget at h₂
  cases hb : Analysis.ofCandidate? family document.lines c with
  | none =>
    rw [hb] at h₂
    cases h₂
  | some b' =>
  rw [hb] at h₂
  cases h₂
  obtain ⟨⟨r', s'⟩, w₃, h₃, h⟩ := Run.bind_eq_ok.1 h
  cases h
  have hs₀ : w.Stored L place w₀ := hr₀.stored hl
  obtain ⟨hr, hs, hst, hheld⟩ := recordTarget_eq_ok hp hs₀.logs
    ((hs₀.files.place _).trans hplace) hne h₃
  have hf : w₁.Framed L (fun _ => False) w' := hr₁.framed hst.logs
  have hout : ¬ L (w₁.files.place path.text) := by
    rwa [hst.files.place, hs₀.files.place, hplace]
  rw [hs₀.now] at hr hheld
  exact ⟨rfl, hr, hs, (hs₀.trans hst).trans hf.stored, hheld.keeps hf.files hout⟩

/-- What analysing the targets does: each has an analysis, and once there was one, the file holds
the store with all of the records. -/
theorem analyzeTargets_eq_ok {o : Options} {targets : List Candidate} {results : List Json}
    (hp : store.path = some path) (hl : w.LogsTo L) (hplace : w.files.place path.text = place)
    (hne : ¬ L place)
    (h : analyzeTargets o family document store targets w = (.ok results, w')) :
    ∃ entries : List Analysis,
      targets.map (Analysis.ofCandidate? family document.lines) = entries.map some ∧
      results = entries.map (fun a => resultJson a (a.record document.uri w.now)) ∧
      w.Stored L place w' ∧
      (store.HeldIn path w.now w.files ∨ targets ≠ [] →
        (store.putAll (entries.map (Analysis.record document.uri w.now))).HeldIn path w.now
          w'.files) := by
  induction targets generalizing store w results with
  | nil =>
    cases h
    refine ⟨[], rfl, rfl, (World.Remarked.refl _).stored hl, ?_⟩
    rintro (hheld | hn)
    · exact hheld
    · exact absurd rfl hn
  | cons c rest ih =>
    unfold analyzeTargets at h
    obtain ⟨⟨a, r, s₁⟩, w₁, h₁, h⟩ := Run.bind_eq_ok.1 h
    obtain ⟨ha, rfl, rfl, hst, hheld⟩ := settleTarget_eq_ok hp hl hplace hne h₁
    -- the verdict is shown or not, and then come the other targets
    have hrest : ∃ es results',
        analyzeTargets o family document (store.put (a.record document.uri w.now)) rest
          { w₁ with events := es } = (.ok results', w') ∧
        results = resultJson a (a.record document.uri w.now) :: results' := by
      cases hj : o.asJson with
      | true =>
        simp only [hj, Bool.not_true, Bool.false_eq_true, ↓reduceIte] at h
        obtain ⟨results', w₃, h₃, h⟩ := Run.bind_eq_ok.1 h
        cases h
        exact ⟨_, results', h₃, rfl⟩
      | false =>
        simp only [hj, Bool.not_false, ↓reduceIte, Run.out, Run.bind_of_ok (Run.emit_apply ..)] at h
        obtain ⟨results', w₃, h₃, h⟩ := Run.bind_eq_ok.1 h
        cases h
        exact ⟨_, results', h₃, rfl⟩
    obtain ⟨es, results', h₃, rfl⟩ := hrest
    have hst₂ : w.Stored L place { w₁ with events := es } :=
      hst.trans ⟨.refl .., rfl, rfl, hst.logs⟩
    have hp₂ : (store.put (a.record document.uri w.now)).path = some path := hp
    obtain ⟨entries, hmap, hresults, hst', hheld'⟩ :=
      ih (w := { w₁ with events := es }) hp₂ hst₂.logs ((hst₂.files.place _).trans hplace) h₃
    simp only [hst.now] at hresults hheld'
    refine ⟨a :: entries, ?_, ?_, hst₂.trans hst', fun _ => ?_⟩
    · rw [List.map_cons, ha, hmap, List.map_cons]
    · rw [hresults, List.map_cons]
    · exact hheld' (.inl hheld)

/-- What an analysis does when there are targets: all of them are analysed, the file holds the
store with their records, and their verdicts are printed if that is asked for. -/
theorem runAnalyze_eq_ok {fs : FileSystem} {o : Options} {file : Text} {target : Request.Target}
    {targets : List Candidate} (hfind : Finds L fs o file store document w)
    (ht : Request.targets file document.lines.length
      (Candidate.scan (familyOf o file) document.lines) target = .ok targets)
    (hsome : targets ≠ []) (h : runAnalyze o file target w = (.ok (), w')) :
    ∃ entries : List Analysis,
      targets.map (Analysis.ofCandidate? (familyOf o file) document.lines) = entries.map some ∧
      Keeps (fun n => L n ∨ n = fs.place o.storePath.text) (fun _ => True) fs w'.files ∧
      w'.printed = w.printed ++ (if o.asJson then
        (Json.obj [("document", .str document.uri), ("results", .arr (entries.map fun a =>
          resultJson a (a.record document.uri w.now)))]).write ++ "\n" else []) ∧
      (store.putAll (entries.map (Analysis.record document.uri w.now))).HeldIn o.storePath w.now
        w'.files ∧ w'.LogsTo L := by
  unfold runAnalyze onDocument at h
  obtain ⟨w₀, w₁, hr₀, h, hr₁⟩ := Run.within_eq_ok h
  obtain ⟨d, w₂, h₂, h⟩ := Run.bind_eq_ok.1 h
  obtain ⟨hdoc, hr₂⟩ := (hfind.remarked hr₀).load_eq_ok h₂
  subst hdoc
  simp only [ht] at h
  cases targets with
  | nil => exact absurd rfl hsome
  | cons c rest =>
  obtain ⟨s, w₃, h₃, h⟩ := Run.bind_eq_ok.1 h
  obtain ⟨hs, hr₃⟩ := ((hfind.remarked hr₀).remarked hr₂).openStore_eq_ok h₃
  subst hs
  have hpath : s.path = some o.storePath := by
    rw [hfind.store]
    rfl
  -- what is shown on the terminal aside, the targets are analysed and their verdicts printed
  have hsteps : ∃ es es' results w₄,
      analyzeTargets o (familyOf o file) d s (c :: rest) { w₃ with events := es } =
        (.ok results, w₄) ∧
      w₁ = { w₄ with
        events := es'
        printed := w₄.printed ++ (if o.asJson then
          (Json.obj [("document", .str d.uri), ("results", .arr results)]).write ++ "\n"
          else []) } := by
    cases hj : o.asJson with
    | true =>
      simp only [hj, Bool.not_true, Bool.false_eq_true, ↓reduceIte] at h
      obtain ⟨results, w₄, h₄, h⟩ := Run.bind_eq_ok.1 h
      cases h
      exact ⟨_, _, results, w₄, h₄, rfl⟩
    | false =>
      simp only [hj, Bool.not_false, ↓reduceIte, Run.out, Run.bind_of_ok (Run.emit_apply ..)] at h
      obtain ⟨results, w₄, h₄, h⟩ := Run.bind_eq_ok.1 h
      cases h
      exact ⟨_, w₄.events ++ [.out .rule], results, w₄, h₄, by simp⟩
  obtain ⟨es, es', results, w₄, h₄, rfl⟩ := hsteps
  have hplace : w.files.place o.storePath.text = fs.place o.storePath.text := hfind.files.place _
  have hst₃ : w.Stored L (fs.place o.storePath.text) w₃ :=
    ((hr₀.trans hr₂).trans hr₃).stored hfind.logs
  obtain ⟨entries, hmap, hresults, hst₄, hheld⟩ :=
    analyzeTargets_eq_ok (w := { w₃ with events := es }) hpath hst₃.logs
      ((hst₃.files.place _).trans hplace) hfind.storeApart h₄
  simp only [hst₃.now] at hresults hheld
  have hst : w.Stored L (fs.place o.storePath.text) w₄ :=
    hst₃.trans ⟨hst₄.files, hst₄.now, hst₄.printed, hst₄.logs⟩
  have hf₁ := hr₁.framed (D := fun _ => False) hst.logs
  have hkeeps : Keeps (fun n => L n ∨ n = fs.place o.storePath.text) (fun _ => True) fs w.files :=
    hfind.files.mono (fun _ => .inl) (fun _ h => h.elim)
  refine ⟨entries, hmap, (hkeeps.trans hst.files).trans hf₁.stored.files, ?_, ?_, hf₁.logs⟩
  · rw [hf₁.printed, hresults, hst.printed]
  · refine (hheld (.inr hsome)).keeps hf₁.files ?_
    rw [hst.files.place, hplace]
    exact hfind.storeApart

/-- A command without targets leaves messages and touches no other file. -/
theorem runAnalyze_of_nil {fs : FileSystem} {o : Options} {file : Text} {target : Request.Target}
    (hfind : Finds L fs o file store document w)
    (ht : Request.targets file document.lines.length
      (Candidate.scan (familyOf o file) document.lines) target = .ok [])
    (h : runAnalyze o file target w = (.ok (), w')) : w.Framed L (fun _ => False) w' := by
  unfold runAnalyze onDocument at h
  obtain ⟨w₀, w₁, hr₀, h, hr₁⟩ := Run.within_eq_ok h
  obtain ⟨d, w₂, h₂, h⟩ := Run.bind_eq_ok.1 h
  obtain ⟨hdoc, hr₂⟩ := (hfind.remarked hr₀).load_eq_ok h₂
  subst hdoc
  simp only [ht, Run.out, Run.emit_apply] at h
  cases h
  have hf : w.Framed L (fun _ => False) w₂ := (hr₀.trans hr₂).framed hfind.logs
  have hf₁ := hr₁.framed (W := L) (D := fun _ => False) hf.logs
  exact ⟨hf.files.trans hf₁.files, hf₁.now.trans hf.now, hf₁.printed.trans hf.printed, hf₁.logs⟩

end Command

end CostLens
