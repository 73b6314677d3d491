import CostLens.Proofs.Run.Reading

/-! # Names without slashes

A path that is written out and read again has the same names, as long as none of them is empty, a
dot or has a slash in it. In files whose directories have such names, a path leads where its names
do, one after the other, and the directories made on the way to a file are its parents.
-/
namespace CostLens

namespace Path

/-- A name as it stands between slashes. -/
def IsName (n : Text) : Prop := n ≠ [] ∧ n ≠ "." ∧ '/' ∉ n

instance : DecidablePred IsName := fun n => inferInstanceAs (Decidable (n ≠ [] ∧ n ≠ "." ∧ '/' ∉ n))

/-- An empty component or a dot, which leads nowhere. -/
def isIdle (n : Text) : Bool := n.isEmpty || n == "."

/-- A component that leads from a directory to something in it. -/
def Stays (n : Text) : Prop := n ≠ [] ∧ n ≠ "." ∧ n ≠ ".."

theorem isIdle_eq_false {n : Text} (hne : n ≠ []) (hdot : n ≠ ".") : isIdle n = false :=
  Bool.or_eq_false_iff.2 ⟨List.isEmpty_eq_false_iff.2 hne, beq_false_of_ne hdot⟩

theorem Stays.isIdle {n : Text} (h : Stays n) : isIdle n = false := isIdle_eq_false h.1 h.2.1

theorem idle_or_dots_or_stays (n : Text) : isIdle n = true ∨ n = ".." ∨ Stays n := by
  by_cases hempty : n = []
  · exact .inl (by simp [Path.isIdle, hempty])
  by_cases hdot : n = "."
  · exact .inl (by simp [Path.isIdle, hdot])
  by_cases hdots : n = ".."
  · exact .inr (.inl hdots)
  · exact .inr (.inr ⟨hempty, hdot, hdots⟩)

theorem splitSlashes_ne_nil (t : Text) : splitSlashes t ≠ [] := by
  cases t with
  | nil => exact nofun
  | cons c t =>
    rw [splitSlashes]
    split
    · exact nofun
    · split <;> exact nofun

theorem splitSlashes_cons_of_ne {c : Char} {t name : Text} {names : List Text} (hc : c ≠ '/')
    (h : splitSlashes t = name :: names) : splitSlashes (c :: t) = (c :: name) :: names := by
  rw [splitSlashes, if_neg hc, h]

theorem not_mem_of_mem_splitSlashes (t : Text) : ∀ n ∈ splitSlashes t, '/' ∉ n := by
  induction t with
  | nil => simp [splitSlashes]
  | cons c t ih =>
    by_cases hc : c = '/'
    · rw [splitSlashes, if_pos hc]
      exact List.forall_mem_cons.2 ⟨List.not_mem_nil, ih⟩
    · obtain ⟨name, names, h⟩ := List.exists_cons_of_ne_nil (splitSlashes_ne_nil t)
      rw [h] at ih
      obtain ⟨hname, hnames⟩ := List.forall_mem_cons.1 ih
      rw [splitSlashes_cons_of_ne hc h]
      refine List.forall_mem_cons.2 ⟨fun hm => ?_, hnames⟩
      rcases List.mem_cons.1 hm with he | hm
      · exact hc he.symm
      · exact hname hm

theorem splitSlashes_of_not_mem {n : Text} (h : '/' ∉ n) : splitSlashes n = [n] := by
  induction n with
  | nil => rfl
  | cons c n ih =>
    obtain ⟨hc, hn⟩ := not_or.1 (mt List.mem_cons.2 h)
    exact splitSlashes_cons_of_ne (Ne.symm hc) (ih hn)

theorem splitSlashes_append {n : Text} (h : '/' ∉ n) (t : Text) :
    splitSlashes (n ++ '/' :: t) = n :: splitSlashes t := by
  induction n with
  | nil => rfl
  | cons c n ih =>
    obtain ⟨hc, hn⟩ := not_or.1 (mt List.mem_cons.2 h)
    exact splitSlashes_cons_of_ne (Ne.symm hc) (ih hn)

theorem splitSlashes_joinWith {names : List Text} (h : ∀ n ∈ names, '/' ∉ n) (hne : names ≠ []) :
    splitSlashes (joinWith "/" names) = names := by
  induction names with
  | nil => exact absurd rfl hne
  | cons n names ih =>
    obtain ⟨hn, hnames⟩ := List.forall_mem_cons.1 h
    cases names with
    | nil => exact splitSlashes_of_not_mem hn
    | cons m names =>
      have hj : joinWith "/" (n :: m :: names) = n ++ '/' :: joinWith "/" (m :: names) := by
        simp [joinWith]
      rw [hj, splitSlashes_append hn, ih hnames (List.cons_ne_nil m names)]

theorem namesOf_isName (t : Text) : ∀ n ∈ namesOf t, IsName n := by
  intro n hn
  obtain ⟨hm, hp⟩ := List.mem_filter.1 hn
  simp only [Bool.and_eq_true, Bool.not_eq_true', List.isEmpty_eq_false_iff, bne_iff_ne] at hp
  exact ⟨hp.1, hp.2, not_mem_of_mem_splitSlashes t n hm⟩

theorem normalNames_isName {names : List Text} (h : ∀ n ∈ names, IsName n) :
    ∀ n ∈ normalNames names, IsName n ∧ n ≠ ".." := by
  have hall : ∀ before : List Text, (∀ n ∈ before, IsName n ∧ n ≠ "..") →
      ∀ n ∈ names.foldl (fun before (n : Text) =>
        if n = ".." then before.dropLast else before ++ [n]) before, IsName n ∧ n ≠ ".." := by
    induction names with
    | nil => exact fun before hb => hb
    | cons m names ih =>
      obtain ⟨hm, hnames⟩ := List.forall_mem_cons.1 h
      intro before hb
      refine ih hnames _ ?_
      dsimp only
      split
      · exact fun n hn => hb n ((List.dropLast_sublist before).subset hn)
      · next hdots =>
        intro n hn
        rcases List.mem_append.1 hn with hn | hn
        · exact hb n hn
        · obtain rfl := List.mem_singleton.1 hn
          exact ⟨hm, hdots⟩
  exact hall [] nofun

end Path

namespace FileSystem

/-- The current directory and the home directories have names without slashes. -/
structure Proper (fs : FileSystem) : Prop where
  current : ∀ n ∈ fs.current, Path.IsName n
  home : ∀ n ∈ fs.home, Path.IsName n
  accounts : ∀ a ∈ fs.accounts, ∀ n ∈ a.2, Path.IsName n

theorem startsWith_joinWith {n : Text} (hn : Path.IsName n) (names : List Text) :
    startsWith (joinWith "/" (n :: names)) "/" = false := by
  obtain ⟨hne, -, hslash⟩ := hn
  cases n with
  | nil => exact absurd rfl hne
  | cons c n =>
    have hc : ('/' == c) = false := beq_false_of_ne fun he => hslash (he ▸ List.mem_cons_self)
    cases names <;> simp [joinWith, startsWith, List.isPrefixOf, hc]

/-- A path leads where its names lead one after the other. -/
theorem place_text (fs : FileSystem) (slashes : Nat) {names : List Text}
    (h : ∀ n ∈ names, Path.IsName n) :
    fs.place (Path.text ⟨slashes, names⟩) =
      names.foldl walk (if slashes = 0 then fs.current else []) := by
  have hnames : ∀ start : List Text,
      (Path.splitSlashes (joinWith "/" names)).foldl walk start = names.foldl walk start := by
    intro start
    cases names with
    | nil => rfl
    | cons n names => rw [Path.splitSlashes_joinWith (fun m hm => (h m hm).2.2) (List.cons_ne_nil n names)]
  cases slashes with
  | succ k =>
    rw [place_absolute]
    exact (foldl_walk_slash [] _).trans (hnames [])
  | zero =>
    cases names with
    | nil => rfl
    | cons n names =>
      have hstart := startsWith_joinWith (h n List.mem_cons_self) names
      change (Path.splitSlashes (joinWith "/" (n :: names))).foldl walk
        (if startsWith (joinWith "/" (n :: names)) "/" then [] else fs.current) = _
      rw [hstart]
      exact hnames fs.current

theorem place_concat (fs : FileSystem) (slashes : Nat) {names : List Text} {name : Text}
    (h : ∀ n ∈ names ++ [name], Path.IsName n) :
    fs.place (Path.text ⟨slashes, names ++ [name]⟩) =
      walk (fs.place (Path.text ⟨slashes, names⟩)) name := by
  have hnames : ∀ n ∈ names, Path.IsName n := fun n hn => h n (List.mem_append_left _ hn)
  rw [place_text fs slashes h, place_text fs slashes hnames, List.foldl_append]
  rfl

theorem walk_of_stays {n : Text} (h : Path.Stays n) (place : List Text) :
    walk place n = place ++ [n] := by
  have hidle : ¬ (n.isEmpty || n == ".") = true := Bool.eq_false_iff.1 h.isIdle
  rw [walk, if_neg h.2.2, if_neg hidle]

theorem foldl_walk_of_stays {names : List Text} (h : ∀ n ∈ names, Path.Stays n) (start : List Text) :
    names.foldl walk start = start ++ names := by
  induction names generalizing start with
  | nil => exact (List.append_nil start).symm
  | cons n names ih =>
    obtain ⟨hn, hnames⟩ := List.forall_mem_cons.1 h
    rw [List.foldl_cons, walk_of_stays hn, ih hnames, List.append_assoc, List.singleton_append]

/-- Names without double dots are those of the place that they lead to. -/
theorem place_ofNames (fs : FileSystem) {names : List Text}
    (h : ∀ n ∈ names, Path.IsName n ∧ n ≠ "..") : fs.place (Path.ofNames names).text = names := by
  have hstays : ∀ n ∈ names, Path.Stays n := fun n hn =>
    ⟨(h n hn).1.1, (h n hn).1.2.1, (h n hn).2⟩
  rw [Path.ofNames, place_text fs 1 fun n hn => (h n hn).1]
  exact foldl_walk_of_stays hstays []

section Proper
variable {fs : FileSystem}

theorem homeOf?_isName (hp : fs.Proper) {owner : Text} {home : List Text}
    (h : fs.homeOf? owner = some home) : ∀ n ∈ home, Path.IsName n := by
  unfold homeOf? at h
  split at h
  · cases h
    exact hp.home
  · obtain ⟨l₁, l₂, he, -⟩ := List.lookup_eq_some_iff.1 h
    exact hp.accounts (owner, home) (by simp [he])

theorem expanded_isName (hp : fs.Proper) {p q : Path} (hn : ∀ n ∈ p.names, Path.IsName n)
    (h : fs.expanded p = .ok q) : ∀ n ∈ q.names, Path.IsName n := by
  unfold expanded at h
  split at h
  · cases h
  split at h
  · next r hr =>
    cases h
    unfold expandHome? at hr
    split at hr
    · cases hr
      exact hn
    · obtain ⟨home, hh, rfl⟩ := Option.map_eq_some_iff.1 hr
      intro n hm
      rcases List.mem_append.1 hm with hm | hm
      · exact homeOf?_isName hp hh n hm
      · exact hn n (List.mem_of_mem_tail hm)
  · cases h

theorem absolutePath_isName (hp : fs.Proper) {p : Path} (hn : ∀ n ∈ p.names, Path.IsName n) :
    ∀ n ∈ (Log.absolutePath fs p).names, Path.IsName n ∧ n ≠ ".." := by
  refine Path.normalNames_isName ?_
  split
  · exact hn
  · intro n hm
    rcases List.mem_append.1 hm with hm | hm
    · exact hp.current n hm
    · exact hn n hm

end Proper

/-! ## The directories that are made -/

section Directories
variable {W D : Places} {fs : FileSystem}

theorem settle_keeps_at {path : Text} {found : Except FileFault (List Text)}
    (h : ∀ names, found = .ok names → D names) : Keeps W D fs (fs.settle path found).1 := by
  unfold settle
  split
  · exact .refl ..
  · next names =>
    split
    · next hn => exact keeps_put_directory (h names rfl) hn
    · exact .refl ..
    · exact .refl ..

theorem settle_eq_ok {path : Text} {found : Except FileFault (List Text)} {q : List Text}
    (h : (fs.settle path found).2 = .ok q) : found = .ok q := by
  unfold settle at h
  split at h
  · cases h
  · split at h <;> cases h <;> rfl

theorem ensureDirectory_keeps {path : Text} (h : D (fs.place path)) :
    Keeps W D fs (fs.ensureDirectory path).1 :=
  settle_keeps_at fun _ hl => place_of_locate hl ▸ h

theorem ensureDirectory_eq_ok {path : Text} {q : List Text}
    (h : (fs.ensureDirectory path).2 = .ok q) : q = fs.place path :=
  place_of_locate (settle_eq_ok h)

/-- The directories that are made for a path are where the path and its parents lead, and where the
path leads is what is given back. The names are in reverse, as they are worked through. -/
theorem makeDirectoriesFrom_spec (slashes : Nat) {names : List Text}
    (hn : ∀ n ∈ names, Path.IsName n)
    (hD : ∀ outer, outer <:+ names → D (fs.place (Path.text ⟨slashes, outer.reverse⟩))) :
    Keeps W D fs (fs.makeDirectoriesFrom slashes names).1 ∧
      ∀ q, (fs.makeDirectoriesFrom slashes names).2 = .ok q →
        q = fs.place (Path.text ⟨slashes, names.reverse⟩) := by
  induction names with
  | nil => exact ⟨ensureDirectory_keeps (hD [] List.suffix_rfl), fun q => ensureDirectory_eq_ok⟩
  | cons name outer ih =>
    have hself := hD (name :: outer) List.suffix_rfl
    obtain ⟨hk, hq⟩ := ih (fun n h => hn n (List.mem_cons_of_mem _ h))
      fun o ho => hD o (ho.trans (List.suffix_cons name outer))
    rw [makeDirectoriesFrom]
    split
    · exact ⟨ensureDirectory_keeps hself, fun q => ensureDirectory_eq_ok⟩
    split
    · next made place hm =>
      rw [hm] at hk hq
      -- the parent is where it was asked for, and the new directory is right below it
      have hplace : ∀ q, made.follow place [name] = .ok q →
          q = fs.place (Path.text ⟨slashes, (name :: outer).reverse⟩) := by
        intro q hf
        have hall : ∀ n ∈ outer.reverse ++ [name], Path.IsName n := by
          intro n h
          exact hn n (by simpa [or_comm] using h)
        rw [follow_eq_foldl hf, hq place rfl, List.reverse_cons, place_concat fs slashes hall]
        rfl
      refine ⟨hk.trans (settle_keeps_at fun q hf => (hplace q hf).symm ▸ hself), ?_⟩
      exact fun q h => hplace q (settle_eq_ok h)
    · next made e hm =>
      rw [hm] at hk
      split
      · have hm' := hk.place (Path.text ⟨slashes, (name :: outer).reverse⟩)
        refine ⟨hk.trans (ensureDirectory_keeps (hm'.symm ▸ hself)), fun q h => ?_⟩
        exact (ensureDirectory_eq_ok h).trans hm'
      · refine ⟨hk, fun q h => ?_⟩
        cases h

/-- Directories are made at most where a path and its parents lead. -/
theorem makeDirectories_keeps_at {p : Path} (hn : ∀ n ∈ p.names, Path.IsName n)
    (hD : ∀ outer, outer <+: p.names → D (fs.place (Path.text ⟨p.slashes, outer⟩))) :
    Keeps W D fs (fs.makeDirectories p).1 := by
  refine (makeDirectoriesFrom_spec p.slashes (fun n h => hn n (List.mem_reverse.1 h)) ?_).1
  intro outer ho
  have hprefix : outer.reverse <+: p.names := List.reverse_suffix.1 (by simpa using ho)
  exact hD _ hprefix

end Directories

end FileSystem

end CostLens
