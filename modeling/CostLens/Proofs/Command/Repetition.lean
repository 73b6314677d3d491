import CostLens.Proofs.Command.Requests
import CostLens.Proofs.Store.Listing

/-! # Analyses made again and in another order

While the clock stands still, an analysis that is made again puts the records into the store that
are there, and the file of the store stays as it is, byte for byte. Analyses of different documents
put records under different keys, so their order does not show when results are listed.
-/
namespace CostLens

open FileSystem (Places Keeps)

/-- The document that a listing is asked for, or none for all of them. -/
def FileSystem.askedDocument (fs : FileSystem) : Option Text → Except Failure (Option Text)
  | none => .ok none
  | some t => if t.isEmpty then .ok none else (fs.uri (Path.ofText t)).map some

theorem FileSystem.Keeps.askedDocument {W D : Places} {fs fs' : FileSystem}
    (h : Keeps W D fs fs') (file : Option Text) :
    fs'.askedDocument file = fs.askedDocument file := by
  cases file with
  | none => rfl
  | some t => simp only [FileSystem.askedDocument, h.uri]

namespace Command

variable {L : Places} {path : Path} {w w' v v' : World}

/-! ## Listings -/

/-- What is printed when the results of a document are listed, or all results. -/
def listing (s : Store) (document : Option Text) : Text :=
  (Json.arr ((s.listed document).map Record.toJson)).write ++ "\n"

theorem resultsDocument_apply (file : Option Text) (w : World) :
    resultsDocument file w = (w.files.askedDocument file, w) := by
  cases file with
  | none => rfl
  | some t =>
    simp only [resultsDocument, FileSystem.askedDocument]
    split
    · rfl
    · rw [Run.bind_apply, Run.uriOf_apply]
      cases w.files.uri (Path.ofText t) <;> rfl

/-- What a command that lists results as JSON finds in a world. -/
structure Lists (L : Places) (i : Invocation) (w w₁ : World) (o : Options) : Prop
    extends Works L i w w₁ o where
  command : i.command = .results
  json : i.has .json = true

namespace Lists

variable {i : Invocation} {w₁ : World} {o : Options} {arguments : List Text}

theorem asJson (h : Lists L i w w₁ o) : o.asJson = true := by
  obtain ⟨s, log, hr⟩ := Options.resolve_eq_ok h.options
  rw [hr.asJson, Options.outputFormat, if_pos h.json]
  exact decide_eq_true rfl

/-- A listing that ends well has printed what the store in the file holds. -/
theorem run_eq_ok (h : Lists L i w w₁ o) (hi : Invocation.ofArguments? arguments = some i)
    (hrun : run arguments w = (.exit 0, w')) :
    ∃ document, w.files.askedDocument i.file? = .ok document ∧
      w'.printed = w.printed ++ listing (w.files.stored o.storePath) document := by
  obtain ⟨w₂, w₃, hf₂, hwork, hr₃⟩ := h.work_eq_ok hi hrun
  have hresults : runResults o i.file? w₂ = (.ok (), w₃) := by
    simpa only [work, h.command] using hwork
  unfold runResults at hresults
  obtain ⟨s, w₄, hopen, hresults⟩ := Run.bind_eq_ok.1 hresults
  obtain ⟨rfl, hr₄⟩ := openStore_eq_ok h.usesStore hf₂.files h.store hopen
  obtain ⟨document, w₅, hdocument, hresults⟩ := Run.bind_eq_ok.1 hresults
  rw [resultsDocument_apply] at hdocument
  obtain ⟨hasked, rfl⟩ := Prod.mk.inj hdocument
  rw [if_pos h.asJson] at hresults
  cases hresults
  have hf₄ : w.Framed L (fun _ => False) w₄ := hf₂.trans (hr₄.framed hf₂.logs)
  have hf₃ := hr₃.framed (W := L) (D := fun _ => False) hf₄.logs
  refine ⟨document, (hf₄.files.askedDocument _).symm.trans hasked, ?_⟩
  rw [hf₃.printed, ← hf₄.printed]
  rfl

theorem again (h : Lists L i w w₁ o)
    (hk : Keeps (Written o L w.files) (fun _ => True) w.files v.files)
    (hi : Invocation.ofArguments? arguments = some i) (hrun : run arguments v = (.exit 0, v')) :
    ∃ v₁ q, Lists L i v v₁ q ∧ q.storePath = o.storePath := by
  obtain ⟨q, v₁, -, -, hq, -⟩ := run_eq_exit_zero hi hrun
  obtain ⟨hworks, -, hstore, -⟩ := h.toWorks.again ⟨rfl, rfl, rfl, rfl, rfl⟩ hk hq
  exact ⟨v₁, q, ⟨hworks, h.command, h.json⟩, hstore⟩

end Lists

/-! ## Jobs -/

/-- An analysis that a command line asks for: the document, the family of its language and the
targets in it. -/
structure Job where
  arguments : List Text
  file : Text
  document : Document
  family : Family
  targets : List Candidate

namespace Job

variable {j : Job} {now : Moment}

/-- The records of the verdicts on the targets. -/
def records (now : Moment) (j : Job) : List Record :=
  (j.targets.filterMap (Analysis.ofCandidate? j.family j.document.lines)).map
    (Analysis.record j.document.uri now)

theorem records_hasTextLabels : ∀ r ∈ j.records now, r.HasTextLabels := by
  intro r hr
  obtain ⟨a, -, rfl⟩ := List.mem_map.1 hr
  exact ⟨⟨_, rfl⟩, _, rfl⟩

theorem document_of_mem_records {r : Record} (hr : r ∈ j.records now) :
    r.key.document = j.document.uri := by
  obtain ⟨a, -, rfl⟩ := List.mem_map.1 hr
  rfl

theorem records_keys_sublist (now : Moment) (j : Job) :
    ((j.records now).map (·.key)).Sublist (j.targets.map (Candidate.key j.document.uri)) := by
  unfold records
  induction j.targets with
  | nil => exact .slnil
  | cons c targets ih =>
    cases ha : Analysis.ofCandidate? j.family j.document.lines c with
    | none =>
      rw [List.filterMap_cons_none ha]
      exact ih.cons _
    | some a =>
      have hkey : (a.record j.document.uri now).key = c.key j.document.uri := by
        rw [← Analysis.candidate_of_ofCandidate? ha]
        rfl
      rw [List.filterMap_cons_some ha, List.map_cons, List.map_cons, List.map_cons, hkey]
      exact ih.cons_cons _

/-- A command line asks for this job in a world, and its results go to the store at a path. -/
def Posed (L : Places) (path : Path) (w : World) (j : Job) : Prop :=
  ∃ i w₁ o, Invocation.ofArguments? j.arguments = some i ∧
    Requests L i w w₁ o j.file j.document j.targets ∧ o.storePath = path ∧
    familyOf o j.file = j.family

theorem Posed.keys_nodup (h : j.Posed L path w) : ((j.records now).map (·.key)).Nodup := by
  obtain ⟨i, w₁, o, -, hr, -⟩ := h
  exact (Request.targets_keys_nodup j.document.uri hr.selects).sublist (records_keys_sublist now j)

theorem Posed.apart (h : j.Posed L path w) : ¬ L (w.files.place path.text) := by
  obtain ⟨i, w₁, o, -, hr, rfl, -⟩ := h
  exact hr.store

theorem flatMap_keys_nodup {jobs : List Job} (h : ∀ j ∈ jobs, j.Posed L path w)
    (hd : (jobs.map fun j => j.document.uri).Nodup) :
    ((jobs.flatMap (records now)).map (·.key)).Nodup := by
  rw [List.map_flatMap, List.nodup_flatMap]
  refine ⟨fun j hj => (h j hj).keys_nodup, (List.pairwise_map.1 hd).imp ?_⟩
  intro a b hne k ha hb
  obtain ⟨r, hr, rfl⟩ := List.mem_map.1 ha
  obtain ⟨r', hr', hk⟩ := List.mem_map.1 hb
  refine hne ?_
  rw [← document_of_mem_records hr, ← document_of_mem_records hr', hk]

end Job

/-- The file of the store has taken up some records, and besides it at most the log was written. -/
structure Takes (L : Places) (path : Path) (rs : List Record) (fs fs' : FileSystem) : Prop where
  keeps : Keeps (fun n => L n ∨ n = fs.place path.text) (fun _ => True) fs fs'
  stored : fs'.stored path = (fs.stored path).putAll rs
  labels : ∀ r ∈ rs, r.HasTextLabels

section Takes
variable {rs rs' : List Record} {fs fs' fs'' : FileSystem}

theorem Takes.refl (L : Places) (path : Path) (fs : FileSystem) : Takes L path [] fs fs :=
  ⟨.refl .., rfl, nofun⟩

theorem Takes.trans (h : Takes L path rs fs fs') (h' : Takes L path rs' fs' fs'') :
    Takes L path (rs ++ rs') fs fs'' := by
  have hk := h'.keeps
  rw [h.keeps.place] at hk
  refine ⟨h.keeps.trans hk, ?_, fun r hr => ?_⟩
  · rw [h'.stored, h.stored, Store.putAll_append]
  · rcases List.mem_append.1 hr with hr | hr
    · exact h.labels r hr
    · exact h'.labels r hr

end Takes

theorem Lists.printed_after {i : Invocation} {w₁ : World} {o : Options} {arguments : List Text}
    {rs : List Record} (h : Lists L i w w₁ o) (ht : Takes L o.storePath rs w.files v.files)
    (hi : Invocation.ofArguments? arguments = some i) (hrun : run arguments v = (.exit 0, v')) :
    ∃ document, w.files.askedDocument i.file? = .ok document ∧
      v'.printed = v.printed ++ listing ((w.files.stored o.storePath).putAll rs) document := by
  obtain ⟨v₁, q, hlists, hstore⟩ := h.again ht.keeps hi hrun
  obtain ⟨document, hasked, hprinted⟩ := hlists.run_eq_ok hi hrun
  rw [ht.keeps.askedDocument] at hasked
  rw [hstore, ht.stored] at hprinted
  exact ⟨document, hasked, hprinted⟩

section Posed
variable {j : Job} {rs : List Record}

/-- What a job has done when it ends well: without targets nothing, and else the file of the store
holds the store that was there with the records put into it. -/
theorem Job.Posed.run_eq_ok (h : j.Posed L path w) (hrun : run j.arguments w = (.exit 0, w')) :
    (j.targets = [] ∧ Keeps L (fun _ => False) w.files w'.files) ∨
      j.targets ≠ [] ∧
        Keeps (fun n => L n ∨ n = w.files.place path.text) (fun _ => True) w.files w'.files ∧
        ((w.files.stored path).putAll (j.records w.now)).HeldIn path w.now w'.files ∧
        w'.files.stored path = (w.files.stored path).putAll (j.records w.now) := by
  obtain ⟨i, w₁, o, hi, hr, rfl, hfamily⟩ := h
  by_cases hnil : j.targets = []
  · rw [hnil] at hr
    exact .inl ⟨hnil, hr.run_of_nil hi hrun⟩
  · obtain ⟨entries, hmap, hkeeps, -, hheld⟩ := hr.run_eq_ok hnil hi hrun
    have hrecords : j.records w.now = entries.map (Analysis.record j.document.uri w.now) := by
      rw [records, ← hfamily, Analysis.filterMap_of_map hmap]
    have hstore := Store.store_of_heldIn hr.labels (hr.records_last hmap) hheld
    rw [hrecords]
    exact .inr ⟨hnil, hkeeps, hheld, (FileSystem.store_eq_ok hstore).1.symm⟩

theorem Job.Posed.takes (h : j.Posed L path w) (hrun : run j.arguments w = (.exit 0, w')) :
    Takes L path (j.records w.now) w.files w'.files := by
  rcases h.run_eq_ok hrun with ⟨hnil, hkeeps⟩ | ⟨-, hkeeps, -, hstored⟩
  · refine ⟨hkeeps.mono (fun _ => .inl) (fun _ h => h.elim), ?_, records_hasTextLabels⟩
    rw [FileSystem.stored, hkeeps.recorded h.apart, records, hnil]
    rfl
  · exact ⟨hkeeps, hstored, records_hasTextLabels⟩

/-- After other jobs the command line asks for the same job. -/
theorem Job.Posed.again (h : j.Posed L path w) (ht : Takes L path rs w.files v.files)
    (hrun : run j.arguments v = (.exit 0, v')) : j.Posed L path v := by
  obtain ⟨i, w₁, o, hi, hr, rfl, hfamily⟩ := h
  obtain ⟨q, v₁, -, -, hq, -⟩ := run_eq_exit_zero hi hrun
  have hl : ∀ r ∈ (v.files.stored o.storePath).records, r.HasTextLabels := by
    intro r hmem
    rw [ht.stored] at hmem
    rcases Store.mem_of_mem_putAll hmem with hm | hm
    · exact ht.labels r hm
    · exact hr.labels r hm
  obtain ⟨hr', hstore, hsame⟩ := hr.again ht.keeps hl hq
  exact ⟨i, v₁, q, hi, hr', hstore, hsame.trans hfamily⟩

theorem Job.Posed.bytes (h : j.Posed L path w) (hrun : run j.arguments w = (.exit 0, w')) :
    (w'.files.read path.text).toOption =
      if j.targets = [] then (w.files.read path.text).toOption
      else some (Utf8.encode
        (((w.files.stored path).putAll (j.records w.now)).snapshot w.now.text).write) := by
  rcases h.run_eq_ok hrun with ⟨hnil, hkeeps⟩ | ⟨hne, -, hheld, -⟩
  · rw [if_pos hnil, hkeeps.bytes h.apart]
  · rw [if_neg hne, hheld]
    rfl

/-- A job that is run again leaves the file of the store as it is. -/
theorem Job.Posed.bytes_again (h : j.Posed L path w) (hrun : run j.arguments w = (.exit 0, w'))
    (hfiles : v.files = w'.files) (hnow : v.now = w.now)
    (hrun' : run j.arguments v = (.exit 0, v')) :
    (v'.files.read path.text).toOption = (w'.files.read path.text).toOption := by
  have ht := h.takes hrun
  rw [← hfiles] at ht
  -- the second time the same records are put into a store that has them
  have hbytes := (h.again ht hrun').bytes hrun'
  rw [hnow, ht.stored, Store.putAll_putAll rfl h.keys_nodup, hfiles] at hbytes
  rw [hbytes]
  split
  · rfl
  · next hne => rw [h.bytes hrun, if_neg hne]

end Posed

/-! ## Command lines one after the other -/

/-- Command lines run one after the other on the same files, and all of them end well. Each starts
anew, and the clock stands still. -/
inductive Runs (now : Moment) : List (List Text) → FileSystem → FileSystem → Prop
  | done (fs : FileSystem) : Runs now [] fs fs
  | next {arguments : List Text} {rest : List (List Text)} {fs fs' : FileSystem} {w w' : World}
      (hfiles : w.files = fs) (hnow : w.now = now) (hrun : run arguments w = (.exit 0, w'))
      (hrest : Runs now rest w'.files fs') : Runs now (arguments :: rest) fs fs'

/-- However many jobs are run, the store takes up their records in the order of the jobs. -/
theorem Runs.takes {now : Moment} {jobs : List Job} {rs : List Record} {fs fs' : FileSystem}
    (hruns : Runs now (jobs.map (·.arguments)) fs fs') (h : ∀ j ∈ jobs, j.Posed L path w)
    (ht : Takes L path rs w.files fs) :
    Takes L path (rs ++ jobs.flatMap (Job.records now)) w.files fs' := by
  -- the records taken up so far are those of the jobs that were run
  induction jobs generalizing fs rs with
  | nil =>
    cases hruns
    rwa [List.flatMap_nil, List.append_nil]
  | cons j jobs ih =>
    obtain ⟨hj, hjobs⟩ := List.forall_mem_cons.1 h
    rw [List.map_cons] at hruns
    cases hruns with
    | next hfiles hnow hrun hrest =>
      subst hfiles hnow
      have hstep := ht.trans ((hj.again ht hrun).takes hrun)
      have hall := ih hrest hjobs hstep
      rwa [List.append_assoc, ← List.flatMap_cons] at hall

/-- An analysis made twice leaves the file of the store as it is after the first time. Analyses of
different documents can be made in any order, and the same results are listed, those of a document
or all of them. A listing holds the last record of each key that it is asked for, strictly ordered
by document, line and function, whatever the order in which the records came. -/
theorem analyses_repeat_and_commute (L : Places) (path : Path) :
    (∀ (j : Job) (w w' v v' : World), j.Posed L path w →
      run j.arguments w = (.exit 0, w') → v.files = w'.files → v.now = w.now →
      run j.arguments v = (.exit 0, v') →
      (v'.files.read path.text).toOption = (w'.files.read path.text).toOption) ∧
    (∀ (jobs jobs' : List Job) (arguments : List Text) (i : Invocation) (o : Options)
        (w w₁ x x' y y' : World),
      (∀ j ∈ jobs, j.Posed L path w) → (jobs.map fun j => j.document.uri).Nodup →
      jobs.Perm jobs' →
      Invocation.ofArguments? arguments = some i → Lists L i w w₁ o → o.storePath = path →
      Runs w.now (jobs.map (·.arguments)) w.files x.files → run arguments x = (.exit 0, x') →
      Runs w.now (jobs'.map (·.arguments)) w.files y.files → run arguments y = (.exit 0, y') →
      ∃ document, w.files.askedDocument i.file? = .ok document ∧
        let shown := listing ((w.files.stored path).putAll (jobs.flatMap (Job.records w.now)))
          document
        x'.printed = x.printed ++ shown ∧ y'.printed = y.printed ++ shown) ∧
    (∀ (s : Store) (h : History) (document : Option Text), s.records = [] →
      ((s.putAll h).listed document).Pairwise (fun a b => a.key.Before b.key) ∧
      (∀ r, r ∈ (s.putAll h).listed document ↔
        h.latest? r.key = some r ∧ History.concerns document r = true) ∧
      ∀ h' : History, (∀ k, h'.latest? k = h.latest? k) →
        (s.putAll h').listed document = (s.putAll h).listed document) := by
  refine ⟨?_, ?_, ?_⟩
  · intro j w w' v v' hj hrun hfiles hnow hrun'
    exact hj.bytes_again hrun hfiles hnow hrun'
  · intro jobs jobs' arguments i o w w₁ x x' y y' hposed hd hp hi hl hpath hx hrun hy hrun'
    subst hpath
    have htx := hx.takes hposed (.refl ..)
    have hty := hy.takes (fun j hj => hposed j (hp.mem_iff.2 hj)) (.refl ..)
    obtain ⟨document, hasked, hprinted⟩ := hl.printed_after htx hi hrun
    obtain ⟨document', hasked', hprinted'⟩ := hl.printed_after hty hi hrun'
    obtain rfl := Except.ok.inj (hasked'.symm.trans hasked)
    have hlisted := Store.listed_putAll_of_perm (s := w.files.stored o.storePath) rfl
      (Job.flatMap_keys_nodup hposed hd) (hp.flatMap_right (Job.records w.now)) document'
    refine ⟨document', hasked, hprinted, ?_⟩
    rw [hprinted', List.nil_append, listing, listing, hlisted]
  · intro s h document hs
    have hn : ∀ h : History, ((s.putAll h).records.map (·.key)).Nodup := fun h =>
      Store.putAll_nodup (h := []) hs
    refine ⟨Store.listed_before (hn h) document, fun r => ?_, fun h' hsame => ?_⟩
    · rw [Store.mem_listed_iff_get? (hn h), Store.get?_putAll_of_nil hs]
    · refine Store.listed_congr (hn h') (hn h) (fun k => ?_) document
      rw [Store.get?_putAll_of_nil hs, Store.get?_putAll_of_nil hs, hsame]

/-- Two files with one function each, and no store. -/
def pairWorld : World where
  files :=
    { entries :=
        [(.ofNames ["a.py"],
            .file (Utf8.encode "def f(xs):\n    for x in xs:\n        print(x)\n")),
          (.ofNames ["b.py"], .file (Utf8.encode "def g(x):\n    return x\n"))]
      current := []
      home := [] }
  now := { date := ⟨2024, 5, 1⟩ }

def pairOptions (asJson : Bool) : Options where
  language := none
  asJson := asJson
  timestampFormat := .str "%H:%M:%S"
  showExplanation := true
  useStore := true
  storePath := ⟨1, [".complexity", "results.json"]⟩

def firstJob : Job where
  arguments := ["analyze", "a.py"]
  file := "a.py"
  document := ⟨"file:///a.py", ["def f(xs):", "    for x in xs:", "        print(x)", ""]⟩
  family := .indent
  targets := [⟨"f", 0, 4⟩]

def secondJob : Job where
  arguments := ["analyze", "b.py"]
  file := "b.py"
  document := ⟨"file:///b.py", ["def g(x):", "    return x", ""]⟩
  family := .indent
  targets := [⟨"g", 0, 3⟩]

def listInvocation : Invocation := { command := .results, flags := [.json] }

theorem pair_works {i : Invocation} {asJson : Bool}
    (ho : (Options.resolve i pairWorld).1.toOption = some (pairOptions asJson))
    (hc : (Options.resolve i pairWorld).2.log.channel = .console .warning none)
    (hi : i.value? .config = none) :
    Works (fun _ => False) i pairWorld (Options.resolve i pairWorld).2 (pairOptions asJson) where
  options := Run.eq_ok_of_toOption ho
  usesStore := rfl
  logs := by
    rintro n ⟨level, names, hl, -⟩
    rw [hc] at hl
    cases hl
  store := fun h => h
  settings := by
    have hfiles : ∀ f ∈ pairWorld.files.settingsFiles none, pairWorld.files.place f ≠
        pairWorld.files.place (Path.text ⟨1, [".complexity", "results.json"]⟩) := by
      decide +kernel
    rw [hi]
    rintro f hf (h | h)
    · exact h
    · exact hfiles f hf h
  reached := by
    have hnone : ∀ f ∈ Settings.standardFiles pairWorld.files,
        pairWorld.files.entry? (pairWorld.files.place f) = none := by decide +kernel
    intro f hf content he
    rw [hnone f hf] at he
    cases he

theorem pair_labels :
    ∀ r ∈ (pairWorld.files.stored (pairOptions false).storePath).records, r.HasTextLabels := by
  have hnone : (pairWorld.files.stored (pairOptions false).storePath).records = [] := by
    decide +kernel
  rw [hnone]
  nofun

theorem pair_posed {j : Job} {i : Invocation}
    (hi : Invocation.ofArguments? j.arguments = some i)
    (hworks : Works (fun _ => False) i pairWorld (Options.resolve i pairWorld).2
      (pairOptions false))
    (hcommand : i.command = .analyze) (hfile : i.file? = some j.file)
    (hdocument : (Document.load j.file pairWorld).1.toOption = some j.document)
    (hshort : Json.IsShort j.document.lines.length)
    (hfamily : familyOf (pairOptions false) j.file = j.family)
    (hselects : (Request.targets j.file j.document.lines.length
      (Candidate.scan j.family j.document.lines) i.target).toOption = some j.targets)
    (hapart : (pairWorld.files.expanded (Path.ofText j.file)).toOption.all fun source =>
      pairWorld.files.place source.text !=
        pairWorld.files.place (pairOptions false).storePath.text) :
    j.Posed (fun _ => False) (pairOptions false).storePath pairWorld := by
  refine ⟨i, _, _, hi, ⟨hworks, hcommand, hfile, pair_labels, eq_ok_of_toOption hdocument, hshort,
    hfamily ▸ eq_ok_of_toOption hselects, ?_⟩, rfl, hfamily⟩
  rintro source hs (h | h)
  · exact h
  · rw [hs] at hapart
    exact bne_iff_ne.1 hapart h

theorem pair_jobs_posed : ∀ j ∈ [firstJob, secondJob],
    j.Posed (fun _ => False) (pairOptions false).storePath pairWorld := by
  simp only [List.forall_mem_cons]
  refine ⟨?_, ?_, nofun⟩
  · exact pair_posed (i := { command := .analyze, files := ["a.py"] }) (by decide +kernel)
      (pair_works (by decide +kernel) (by decide +kernel) rfl) rfl rfl (by decide +kernel)
      (by decide) (by decide +kernel) (by decide +kernel) (by decide +kernel)
  · exact pair_posed (i := { command := .analyze, files := ["b.py"] }) (by decide +kernel)
      (pair_works (by decide +kernel) (by decide +kernel) rfl) rfl rfl (by decide +kernel)
      (by decide) (by decide +kernel) (by decide +kernel) (by decide +kernel)

/-- A new world with the files as they are after a command. -/
def pairAfter (arguments : List Text) (w : World) : World :=
  { pairWorld with files := (run arguments w).2.files }

theorem pairAfter_files (arguments : List Text) (w : World) :
    (pairAfter arguments w).files = (run arguments w).2.files := rfl

theorem pairAfter_printed (arguments : List Text) (w : World) :
    (pairAfter arguments w).printed = [] := rfl

def pairBytes (w : World) : Option Bytes :=
  (w.files.read (pairOptions false).storePath.text).toOption

theorem pairAfter_runs {first second : List Text}
    (hfirst : (run first pairWorld).1.code? = some 0)
    (hsecond : (run second (pairAfter first pairWorld)).1.code? = some 0) :
    Runs pairWorld.now [first, second] pairWorld.files
      (pairAfter second (pairAfter first pairWorld)).files := by
  refine .next (w := pairWorld) rfl rfl (run_eq_of_code? hfirst) ?_
  exact .next (w := pairAfter first pairWorld) rfl rfl (run_eq_of_code? hsecond) (.done _)

def forthWorld : World := pairAfter secondJob.arguments (pairAfter firstJob.arguments pairWorld)

def backWorld : World := pairAfter firstJob.arguments (pairAfter secondJob.arguments pairWorld)

def listArguments : List Text := ["results", "--json"]

theorem pair_codes :
    (run firstJob.arguments pairWorld).1.code? = some 0 ∧
    (run secondJob.arguments pairWorld).1.code? = some 0 ∧
    (run firstJob.arguments (pairAfter firstJob.arguments pairWorld)).1.code? = some 0 ∧
    (run secondJob.arguments (pairAfter firstJob.arguments pairWorld)).1.code? = some 0 ∧
    (run firstJob.arguments (pairAfter secondJob.arguments pairWorld)).1.code? = some 0 ∧
    (run listArguments forthWorld).1.code? = some 0 ∧
    (run listArguments backWorld).1.code? = some 0 ∧
    pairBytes forthWorld ≠ pairBytes backWorld := by decide +kernel

/-- The store is made by the first analysis and stays the same when it is made again. Its file tells
in which order the two files were analysed, but the listing does not. -/
theorem analyses_repeat_and_commute_pair :
    pairBytes (pairAfter firstJob.arguments (pairAfter firstJob.arguments pairWorld)) =
      pairBytes (pairAfter firstJob.arguments pairWorld) ∧
    pairBytes forthWorld ≠ pairBytes backWorld ∧
    (run listArguments forthWorld).2.printed = (run listArguments backWorld).2.printed := by
  obtain ⟨hfirst, hsecond, htwice, hforth, hback, hlist, hlist', hne⟩ := pair_codes
  obtain ⟨hagain, horder, -⟩ :=
    analyses_repeat_and_commute (fun _ => False) (pairOptions false).storePath
  refine ⟨?_, hne, ?_⟩
  · have hbytes := hagain firstJob pairWorld _ (pairAfter firstJob.arguments pairWorld) _
      (pair_jobs_posed _ List.mem_cons_self) (run_eq_of_code? hfirst) (pairAfter_files ..) rfl
      (run_eq_of_code? htwice)
    rwa [← pairAfter_files, ← pairAfter_files] at hbytes
  · have hlists : Lists (fun _ => False) listInvocation pairWorld
        (Options.resolve listInvocation pairWorld).2 (pairOptions true) :=
      ⟨pair_works (by decide +kernel) (by decide +kernel) rfl, rfl, rfl⟩
    obtain ⟨document, -, hx, hy⟩ := horder [firstJob, secondJob] [secondJob, firstJob]
      listArguments listInvocation (pairOptions true) pairWorld _ forthWorld _ backWorld _
      pair_jobs_posed (by decide) (.swap ..) (by decide +kernel) hlists rfl
      (pairAfter_runs hfirst hforth) (run_eq_of_code? hlist) (pairAfter_runs hsecond hback)
      (run_eq_of_code? hlist')
    rw [hx, hy, forthWorld, pairAfter_printed, backWorld, pairAfter_printed]

end Command

end CostLens
