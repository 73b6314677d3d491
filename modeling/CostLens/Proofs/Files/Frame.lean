import CostLens.Files.FileSystem

/-! # What an operation leaves alone

An operation on files writes some files and makes some directories; everything else stays as it
is. Since a directory is never removed or replaced, a path that could be followed before leads to
the same place afterwards. Where no directory is made, a path can be followed afterwards only if
it could be before.
-/
namespace CostLens.FileSystem

/-- A set of absolute names. -/
abbrev Places := List Text → Prop

theorem lookup_filter_ne {k k' : Place} (h : k ≠ k') (l : List (Place × Entry)) :
    (l.filter fun p => p.1 != k').lookup k = l.lookup k := by
  induction l with
  | nil => rfl
  | cons p l ih =>
    obtain ⟨q, e⟩ := p
    by_cases hq : q = k'
    · have hk : (k == q) = false := beq_false_of_ne (hq ▸ h)
      simp [hq, List.lookup_cons, ih, hq ▸ hk]
    · simp [hq, List.lookup_cons, ih]

theorem entry?_put_self (fs : FileSystem) {names : List Text} (e : Entry) (h : names ≠ []) :
    entry? (fs.put names e) names = some e := by
  unfold entry? put
  simp [h]

theorem entry?_put_of_ne (fs : FileSystem) {names other : List Text} (e : Entry)
    (h : other ≠ names) : entry? (fs.put names e) other = fs.entry? other := by
  have hp : Place.ofNames other ≠ Place.ofNames names := mt (Place.ofNames_inj _ _).1 h
  have hb : (Place.ofNames other == Place.ofNames names) = false := beq_false_of_ne hp
  unfold entry? put
  simp only [List.lookup_cons, hb, lookup_filter_ne hp]

/-- Files change at most at the places `W`, where no directory was, and directories are made at
most at the places `D`, where nothing was. -/
structure Keeps (W D : Places) (fs fs' : FileSystem) : Prop where
  current : fs'.current = fs.current
  home : fs'.home = fs.home
  accounts : fs'.accounts = fs.accounts
  entry : ∀ names, fs'.entry? names = fs.entry? names ∨
    (W names ∧ fs.entry? names ≠ some .directory ∧
      ∃ content, fs'.entry? names = some (.file content)) ∨
    (D names ∧ fs.entry? names = none ∧ fs'.entry? names = some .directory)

section Keeps
variable {W D : Places} {fs fs' fs'' : FileSystem}

theorem Keeps.refl (W D : Places) (fs : FileSystem) : Keeps W D fs fs :=
  ⟨rfl, rfl, rfl, fun _ => .inl rfl⟩

theorem Keeps.trans (h : Keeps W D fs fs') (h' : Keeps W D fs' fs'') : Keeps W D fs fs'' := by
  refine ⟨h'.current.trans h.current, h'.home.trans h.home, h'.accounts.trans h.accounts, ?_⟩
  intro names
  rcases h.entry names with he | ⟨hw, hd, c, hc⟩ | ⟨hm, hn, hd⟩
  · rw [← he]
    exact h'.entry names
  · rcases h'.entry names with he' | ⟨_, _, hc'⟩ | ⟨_, hn', _⟩
    · exact .inr (.inl ⟨hw, hd, c, he'.trans hc⟩)
    · exact .inr (.inl ⟨hw, hd, hc'⟩)
    · rw [hc] at hn'
      cases hn'
  · rcases h'.entry names with he' | ⟨_, hd', _⟩ | ⟨_, hn', _⟩
    · exact .inr (.inr ⟨hm, hn, he'.trans hd⟩)
    · exact absurd hd hd'
    · rw [hd] at hn'
      cases hn'

theorem Keeps.mono {W' D' : Places} (h : Keeps W D fs fs') (hw : ∀ n, W n → W' n)
    (hd : ∀ n, D n → D' n) : Keeps W' D' fs fs' := by
  refine ⟨h.current, h.home, h.accounts, fun names => ?_⟩
  rcases h.entry names with he | ⟨h1, h2⟩ | ⟨h1, h2⟩
  · exact .inl he
  · exact .inr (.inl ⟨hw _ h1, h2⟩)
  · exact .inr (.inr ⟨hd _ h1, h2⟩)

theorem Keeps.directory (h : Keeps W D fs fs') {names : List Text}
    (hd : fs.entry? names = some .directory) : fs'.entry? names = some .directory := by
  rcases h.entry names with he | ⟨_, hn, _⟩ | ⟨_, _, he⟩
  · exact he.trans hd
  · exact absurd hd hn
  · exact he

theorem Keeps.file (h : Keeps W D fs fs') {names : List Text} {content : Bytes}
    (hw : ¬ W names) (hf : fs.entry? names = some (.file content)) :
    fs'.entry? names = some (.file content) := by
  rcases h.entry names with he | ⟨hn, _⟩ | ⟨_, hn, _⟩
  · exact he.trans hf
  · exact absurd hn hw
  · rw [hf] at hn
    cases hn

theorem Keeps.of_file (h : Keeps W D fs fs') {names : List Text} {content : Bytes}
    (hw : ¬ W names) (hf : fs'.entry? names = some (.file content)) :
    fs.entry? names = some (.file content) := by
  rcases h.entry names with he | ⟨hn, _⟩ | ⟨_, _, hn⟩
  · exact he ▸ hf
  · exact absurd hn hw
  · rw [hf] at hn
    cases hn

theorem keeps_put_file {names : List Text} {content : Bytes} (hw : W names)
    (hd : fs.entry? names ≠ some .directory) : Keeps W D fs (fs.put names (.file content)) := by
  have hne : names ≠ [] := by
    rintro rfl
    exact hd rfl
  refine ⟨rfl, rfl, rfl, fun other => ?_⟩
  by_cases ho : other = names
  · subst ho
    exact .inr (.inl ⟨hw, hd, content, entry?_put_self fs _ hne⟩)
  · exact .inl (entry?_put_of_ne fs _ ho)

theorem keeps_put_directory {names : List Text} (hm : D names) (hn : fs.entry? names = none) :
    Keeps W D fs (fs.put names .directory) := by
  have hne : names ≠ [] := by
    rintro rfl
    cases hn
  refine ⟨rfl, rfl, rfl, fun other => ?_⟩
  by_cases ho : other = names
  · subst ho
    exact .inr (.inr ⟨hm, hn, entry?_put_self fs _ hne⟩)
  · exact .inl (entry?_put_of_ne fs _ ho)

end Keeps

/-! ## Following paths -/

/-- Where one name leads from a directory. -/
def walk (place : List Text) (name : Text) : List Text :=
  if name = ".." then place.dropLast
  else if name.isEmpty || name == "." then place
  else place ++ [name]

/-- A name that is not too long to be looked up. -/
def Fits (name : Text) : Prop :=
  name = ".." ∨ (name.isEmpty || name == ".") = true ∨
    (Utf8.encode name).length ≤ Path.maxNameBytes

theorem follow_cons_eq_ok {fs : FileSystem} {name : Text} {names place place' : List Text} :
    fs.follow place (name :: names) = .ok place' ↔
      fs.entry? place = some .directory ∧ Fits name ∧
        fs.follow (walk place name) names = .ok place' := by
  rw [FileSystem.follow, Fits, walk]
  cases he : fs.entry? place with
  | none => simp
  | some e =>
    cases e with
    | file c => simp
    | directory =>
      by_cases h1 : name = ".."
      · simp only [h1, ↓reduceIte, true_or, true_and]
      by_cases h2 : (name.isEmpty || name == ".") = true
      · simp only [h1, h2, ↓reduceIte, true_or, or_true, true_and]
      by_cases h3 : Path.maxNameBytes < (Utf8.encode name).length
      · simp only [h1, h2, h3, Nat.not_le.2 h3, ↓reduceIte, or_self, false_and, and_false,
          reduceCtorEq]
      · simp only [h1, h2, h3, Nat.not_lt.1 h3, ↓reduceIte, Bool.false_eq_true, or_true, true_and]

/-- The place that a path leads to if it can be followed. -/
def place (fs : FileSystem) (path : Text) : List Text :=
  (Path.splitSlashes path).foldl walk (if startsWith path "/" then [] else fs.current)

theorem foldl_walk_slash (start : List Text) (t : Text) :
    (Path.splitSlashes ('/' :: t)).foldl walk start = (Path.splitSlashes t).foldl walk start := rfl

/-- However many slashes an absolute path begins with, it leads to the same place. -/
theorem place_absolute (fs : FileSystem) (k : Nat) (names : List Text) :
    fs.place (Path.text ⟨k + 1, names⟩) = fs.place (Path.ofNames names).text := by
  have hall : ∀ n, (Path.splitSlashes (List.replicate n '/' ++ joinWith "/" names)).foldl walk [] =
      (Path.splitSlashes (joinWith "/" names)).foldl walk [] := by
    intro n
    induction n with
    | zero => rfl
    | succ n ih => exact (foldl_walk_slash [] _).trans ih
  exact (hall (k + 1)).trans (hall 1).symm

theorem follow_eq_foldl {fs : FileSystem} {names start q : List Text}
    (h : fs.follow start names = .ok q) : q = names.foldl walk start := by
  induction names generalizing start with
  | nil => exact (Except.ok.inj h).symm
  | cons name names ih => exact ih (follow_cons_eq_ok.1 h).2.2

section Locate
variable {W D : Places} {fs fs' : FileSystem}

theorem Keeps.follow (h : Keeps W D fs fs') {names start q : List Text}
    (hf : fs.follow start names = .ok q) : fs'.follow start names = .ok q := by
  induction names generalizing start with
  | nil => exact hf
  | cons name names ih =>
    obtain ⟨hd, hn, hr⟩ := follow_cons_eq_ok.1 hf
    exact follow_cons_eq_ok.2 ⟨h.directory hd, hn, ih hr⟩

/-- Where no directory is made, nothing new can be followed. -/
theorem Keeps.of_follow (h : Keeps W (fun _ => False) fs fs') {names start q : List Text}
    (hf : fs'.follow start names = .ok q) : fs.follow start names = .ok q := by
  induction names generalizing start with
  | nil => exact hf
  | cons name names ih =>
    obtain ⟨hd, hn, hr⟩ := follow_cons_eq_ok.1 hf
    refine follow_cons_eq_ok.2 ⟨?_, hn, ih hr⟩
    rcases h.entry start with he | ⟨_, _, c, hc⟩ | ⟨hm, _⟩
    · exact he ▸ hd
    · rw [hc] at hd
      cases hd
    · exact hm.elim

theorem locatePieces_eq_ok {path : Text} {pieces q : List Text} :
    fs.locatePieces path pieces = .ok q ↔
      ((path.isEmpty || path.contains '\x00') = false ∧
        (Utf8.encode path).length ≤ Path.maxBytes) ∧
      fs.follow (if startsWith path "/" then [] else fs.current) pieces = .ok q := by
  rw [locatePieces]
  cases path.isEmpty || path.contains '\x00' with
  | true => simp
  | false =>
    by_cases h : Path.maxBytes < (Utf8.encode path).length
    · simp [h, Nat.not_le.2 h]
    · simp [h, Nat.not_lt.1 h]

theorem place_of_locate {path : Text} {q : List Text} (h : fs.locate path = .ok q) :
    q = fs.place path := follow_eq_foldl (locatePieces_eq_ok.1 h).2

theorem Keeps.place (h : Keeps W D fs fs') (path : Text) : fs'.place path = fs.place path := by
  rw [FileSystem.place, FileSystem.place, h.current]

theorem Keeps.locate (h : Keeps W D fs fs') {path : Text} {q : List Text}
    (hl : fs.locate path = .ok q) : fs'.locate path = .ok q := by
  obtain ⟨hp, hf⟩ := locatePieces_eq_ok.1 hl
  exact locatePieces_eq_ok.2 ⟨hp, h.current ▸ h.follow hf⟩

theorem Keeps.of_locate (h : Keeps W (fun _ => False) fs fs') {path : Text} {q : List Text}
    (hl : fs'.locate path = .ok q) : fs.locate path = .ok q := by
  obtain ⟨hp, hf⟩ := locatePieces_eq_ok.1 hl
  exact locatePieces_eq_ok.2 ⟨hp, h.current ▸ h.of_follow hf⟩

theorem locate_of_locateFile {path : Text} {q : List Text} (h : fs.locateFile path = .ok q) :
    fs.locate path = .ok q := by
  unfold locateFile at h
  split at h
  · exact h
  · next outer _ =>
    cases hl : fs.locatePieces path (outer ++ [[]]) <;> rw [hl] at h <;> cases h

/-! ## Reading and writing -/

theorem read_eq_ok {path : Text} {content : Bytes} : fs.read path = .ok content ↔
    ∃ q, fs.locate path = .ok q ∧ fs.entry? q = some (.file content) := by
  unfold read
  cases hl : fs.locate path with
  | error fault => simp
  | ok q =>
    cases he : fs.entry? q with
    | none => simp [he]
    | some e => cases e <;> simp [he]

/-- Only a path without null characters can be read. -/
theorem not_contains_null_of_read {path : Text} {content : Bytes}
    (h : fs.read path = .ok content) : path.contains '\x00' = false := by
  obtain ⟨q, hl, -⟩ := read_eq_ok.1 h
  exact (Bool.or_eq_false_iff.1 (locatePieces_eq_ok.1 hl).1.1).2

theorem Keeps.read (h : Keeps W D fs fs') {path : Text} {content : Bytes}
    (hw : ¬ W (fs.place path)) (hr : fs.read path = .ok content) :
    fs'.read path = .ok content := by
  obtain ⟨q, hl, he⟩ := read_eq_ok.1 hr
  have hq := place_of_locate hl
  exact read_eq_ok.2 ⟨q, h.locate hl, h.file (hq ▸ hw) he⟩

theorem Keeps.of_read (h : Keeps W (fun _ => False) fs fs') {path : Text} {content : Bytes}
    (hw : ¬ W (fs.place path)) (hr : fs'.read path = .ok content) :
    fs.read path = .ok content := by
  obtain ⟨q, hl, he⟩ := read_eq_ok.1 hr
  have hl' := h.of_locate hl
  have hq := place_of_locate hl'
  exact read_eq_ok.2 ⟨q, hl', h.of_file (hq ▸ hw) he⟩

theorem modify_eq_ok {path : Text} {f : Bytes → Bytes} (h : fs.modify path f = .ok fs') :
    ∃ content, fs.locate path = .ok (fs.place path) ∧
      fs.entry? (fs.place path) ≠ some .directory ∧
      fs' = fs.put (fs.place path) (.file (f content)) := by
  unfold modify at h
  cases hl : fs.locateFile path with
  | error fault => simp [hl] at h
  | ok q =>
    have hloc := locate_of_locateFile hl
    have hq := place_of_locate hloc
    subst hq
    simp only [hl] at h
    cases he : fs.entry? (fs.place path) with
    | none =>
      rw [he] at h
      exact ⟨[], hloc, by simp, (Except.ok.inj h).symm⟩
    | some e =>
      cases e with
      | file c =>
        rw [he] at h
        exact ⟨c, hloc, by simp, (Except.ok.inj h).symm⟩
      | directory => simp [he] at h

theorem modify_keeps {path : Text} {f : Bytes → Bytes} (h : fs.modify path f = .ok fs')
    (hw : W (fs.place path)) : Keeps W D fs fs' := by
  obtain ⟨c, _, hd, rfl⟩ := modify_eq_ok h
  exact keeps_put_file hw hd

theorem read_of_write {path : Text} {content : Bytes} (h : fs.write path content = .ok fs') :
    fs'.read path = .ok content := by
  obtain ⟨_, hl, hd, rfl⟩ := modify_eq_ok h
  have hk : Keeps (fun _ => True) (fun _ => False) fs (fs.put (fs.place path) (.file content)) :=
    keeps_put_file trivial hd
  have hne : fs.place path ≠ [] := by
    intro he
    rw [he] at hd
    exact hd rfl
  exact read_eq_ok.2 ⟨_, hk.locate hl, entry?_put_self fs _ hne⟩

/-! ## Overwriting files -/

/-- Only files that are there get a new content, and only at the places `W`. Then every path leads
where it led, also one that leads nowhere. -/
structure Overwrites (W : Places) (fs fs' : FileSystem) : Prop where
  current : fs'.current = fs.current
  home : fs'.home = fs.home
  accounts : fs'.accounts = fs.accounts
  entry : ∀ names, fs'.entry? names = fs.entry? names ∨
    (W names ∧ ∃ old new, fs.entry? names = some (.file old) ∧
      fs'.entry? names = some (.file new))

theorem Overwrites.refl (W : Places) (fs : FileSystem) : Overwrites W fs fs :=
  ⟨rfl, rfl, rfl, fun _ => .inl rfl⟩

theorem overwrites_put {names : List Text} {old new : Bytes} (hw : W names)
    (he : fs.entry? names = some (.file old)) : Overwrites W fs (fs.put names (.file new)) := by
  have hne : names ≠ [] := by
    rintro rfl
    cases he
  refine ⟨rfl, rfl, rfl, fun other => ?_⟩
  by_cases ho : other = names
  · subst ho
    exact .inr ⟨hw, old, new, he, entry?_put_self fs _ hne⟩
  · exact .inl (entry?_put_of_ne fs _ ho)

theorem Overwrites.follow (h : Overwrites W fs fs') (start names : List Text) :
    fs'.follow start names = fs.follow start names := by
  induction names generalizing start with
  | nil => rfl
  | cons name names ih =>
    rw [FileSystem.follow, FileSystem.follow]
    rcases h.entry start with he | ⟨_, old, new, ho, hn⟩
    · simp only [he, ih]
    · rw [ho, hn]

theorem Overwrites.place (h : Overwrites W fs fs') (path : Text) :
    fs'.place path = fs.place path := by
  rw [FileSystem.place, FileSystem.place, h.current]

/-- What a path outside `W` gives stays, a refusal included. -/
theorem Overwrites.read (h : Overwrites W fs fs') {path : Text} (hw : ¬ W (fs.place path)) :
    fs'.read path = fs.read path := by
  have hl : fs'.locate path = fs.locate path := by
    unfold locate locatePieces
    rw [h.current, h.follow]
  unfold FileSystem.read
  rw [hl]
  cases hq : fs.locate path with
  | error fault => rfl
  | ok q =>
    have he : fs'.entry? q = fs.entry? q := by
      rcases h.entry q with he | ⟨hq', _⟩
      · exact he
      · exact absurd (place_of_locate hq ▸ hq') hw
    simp only [he]

/-! ## Making directories -/

theorem settle_keeps (path : Text) (found : Except FileFault (List Text)) :
    Keeps W (fun _ => True) fs (fs.settle path found).1 := by
  unfold settle
  split
  · exact .refl ..
  · split
    · next hn => exact keeps_put_directory trivial hn
    · exact .refl ..
    · exact .refl ..

theorem makeDirectoriesFrom_keeps (slashes : Nat) (names : List Text) :
    Keeps W (fun _ => True) fs (fs.makeDirectoriesFrom slashes names).1 := by
  induction names with
  | nil => exact settle_keeps ..
  | cons name outer ih =>
    rw [makeDirectoriesFrom]
    split
    · exact settle_keeps ..
    · split
      · next made place hm =>
        rw [hm] at ih
        exact ih.trans (settle_keeps ..)
      · next made e hm =>
        rw [hm] at ih
        split
        · exact ih.trans (settle_keeps ..)
        · exact ih

theorem makeDirectories_keeps (p : Path) :
    Keeps W (fun _ => True) fs (fs.makeDirectories p).1 := makeDirectoriesFrom_keeps ..

end Locate

end CostLens.FileSystem
