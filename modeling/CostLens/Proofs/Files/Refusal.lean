import CostLens.Proofs.Files.Names
import Mathlib.Data.List.Basic

/-! # Refused file operations

What a refusal tells of the files. A path leads to something only through the directory around it. So
a path whose directory could not be made leads nowhere afterwards, and a path that could not be
written leads to no file.
-/
namespace CostLens

namespace Path

variable {slashes : Nat} {names : List Text} {name : Text}

theorem joinWith_concat (hne : names ≠ []) :
    joinWith "/" (names ++ [name]) = joinWith "/" names ++ '/' :: name := by
  induction names with
  | nil => exact absurd rfl hne
  | cons n names ih =>
    cases names with
    | nil => simp [joinWith]
    | cons m names =>
      have hrest := ih (List.cons_ne_nil m names)
      simp only [List.cons_append, joinWith] at hrest ⊢
      rw [hrest]
      simp

/-- Only the path without a root and without names has a text of its own. -/
theorem text_eq (h : slashes ≠ 0 ∨ names ≠ []) :
    text ⟨slashes, names⟩ = List.replicate slashes '/' ++ joinWith "/" names := by
  unfold text
  rw [if_neg]
  rintro ⟨hs, hn⟩
  exact h.elim (fun h => h hs) fun h => h (List.isEmpty_iff.1 hn)

theorem text_concat (slashes : Nat) (names : List Text) (name : Text) :
    text ⟨slashes, names ++ [name]⟩ =
      List.replicate slashes '/' ++ joinWith "/" (names ++ [name]) :=
  text_eq (.inr (List.concat_ne_nil name names))

theorem text_prefix_concat (h : slashes ≠ 0 ∨ names ≠ []) :
    text ⟨slashes, names⟩ <+: text ⟨slashes, names ++ [name]⟩ := by
  rw [text_eq h, text_concat, List.prefix_append_right_inj]
  by_cases hne : names = []
  · rw [hne]
    exact List.nil_prefix
  · rw [joinWith_concat hne]
    exact List.prefix_append ..

theorem text_ne_nil (h : ∀ n ∈ names, IsName n) : text ⟨slashes, names⟩ ≠ [] := by
  cases names with
  | nil => cases slashes <;> simp [text, joinWith, List.replicate_succ]
  | cons n names =>
    have hn : n ≠ [] := (h n List.mem_cons_self).1
    rw [text_eq (.inr (List.cons_ne_nil n names))]
    cases names <;> simp [joinWith, hn]

theorem splitSlashes_replicate (k : Nat) (t : Text) :
    splitSlashes (List.replicate k '/' ++ t) = List.replicate k [] ++ splitSlashes t := by
  induction k with
  | zero => rfl
  | succ k ih => exact congrArg ([] :: ·) ih

theorem splitSlashes_text_concat (h : ∀ n ∈ names ++ [name], IsName n) :
    splitSlashes (text ⟨slashes, names ++ [name]⟩) =
      List.replicate slashes [] ++ (names ++ [name]) := by
  have hslash : ∀ n ∈ names ++ [name], '/' ∉ n := fun n hn => (h n hn).2.2
  rw [text_concat, splitSlashes_replicate,
    splitSlashes_joinWith hslash (List.concat_ne_nil name names)]

/-- The text of a path with a name asks for no directory. -/
theorem beforeSlashed?_text_concat (h : ∀ n ∈ names ++ [name], IsName n) :
    beforeSlashed? (text ⟨slashes, names ++ [name]⟩) = none := by
  have hne : name ≠ [] := (h name (by simp)).1
  unfold beforeSlashed?
  rw [splitSlashes_text_concat h, ← List.append_assoc, List.reverse_concat]
  split
  · next heq => exact absurd (List.cons.inj heq).1 hne
  · rfl

end Path

namespace FileSystem

variable {fs : FileSystem}

/-! ## Following names -/

theorem follow_append_eq_ok {xs ys start q : List Text} :
    fs.follow start (xs ++ ys) = .ok q ↔
      ∃ p, fs.follow start xs = .ok p ∧ fs.follow p ys = .ok q := by
  induction xs generalizing start with
  | nil => simp [FileSystem.follow]
  | cons x xs ih =>
    simp only [List.cons_append, follow_cons_eq_ok, ih]
    constructor
    · rintro ⟨hd, hx, p, hp, hq⟩
      exact ⟨p, ⟨hd, hx, hp⟩, hq⟩
    · rintro ⟨p, ⟨hd, hx, hp⟩, hq⟩
      exact ⟨hd, hx, p, hp, hq⟩

/-- Empty pieces lead from the root to the root. -/
theorem follow_replicate (k : Nat) (names : List Text) :
    fs.follow [] (List.replicate k [] ++ names) = fs.follow [] names := by
  induction k with
  | zero => rfl
  | succ k ih => exact ih

/-- A text that can be followed as a path at all. -/
def Followable (path : Text) : Prop :=
  (path.isEmpty || path.contains '\x00') = false ∧ (Utf8.encode path).length ≤ Path.maxBytes

theorem Followable.of_prefix {path more : Text} (h : Followable more) (hp : path <+: more)
    (hne : path ≠ []) : Followable path := by
  obtain ⟨rest, rfl⟩ := hp
  obtain ⟨hchars, hlen⟩ := h
  simp only [Bool.or_eq_false_iff, List.isEmpty_eq_false_iff, List.contains_append] at hchars
  refine ⟨?_, ?_⟩
  · rw [Bool.or_eq_false_iff, List.isEmpty_eq_false_iff]
    exact ⟨hne, hchars.2.1⟩
  · rw [Utf8.encode, List.flatMap_append, List.length_append] at hlen
    exact Nat.le_trans (Nat.le_add_right _ _) hlen

/-- Where the names of a path are followed from. -/
def base (fs : FileSystem) (slashes : Nat) : List Text := if slashes = 0 then fs.current else []

/-- A path that leads to a directory. -/
def HasDirectory (fs : FileSystem) (path : Text) : Prop :=
  ∃ q, fs.locate path = .ok q ∧ fs.entry? q = some .directory

section Concat
variable {slashes : Nat} {names q : List Text} {name : Text}

theorem locate_text_concat (h : ∀ n ∈ names ++ [name], Path.IsName n) :
    fs.locate (Path.text ⟨slashes, names ++ [name]⟩) = .ok q ↔
      Followable (Path.text ⟨slashes, names ++ [name]⟩) ∧
        fs.follow (fs.base slashes) (names ++ [name]) = .ok q := by
  rw [locate, locatePieces_eq_ok, Path.splitSlashes_text_concat h]
  refine and_congr_right fun _ => ?_
  cases slashes with
  | zero =>
    obtain ⟨n, rest, he⟩ := List.exists_cons_of_ne_nil (List.concat_ne_nil name names)
    have hstart : startsWith (Path.text ⟨0, names ++ [name]⟩) "/" = false := by
      rw [Path.text_concat, he]
      exact startsWith_joinWith (h n (he ▸ List.mem_cons_self)) rest
    rw [hstart]
    rfl
  | succ k =>
    have hstart : startsWith (Path.text ⟨k + 1, names ++ [name]⟩) "/" = true := by
      rw [Path.text_concat]
      rfl
    rw [if_pos hstart, follow_replicate]
    rfl

/-- Without names a path leads to the directory that it starts from. -/
theorem locate_text_nil : fs.locate (Path.text ⟨slashes, []⟩) = .ok q ↔
    Followable (Path.text ⟨slashes, []⟩) ∧ fs.entry? (fs.base slashes) = some .directory ∧
      fs.base slashes = q := by
  rw [locate, locatePieces_eq_ok]
  refine and_congr_right fun _ => ?_
  cases slashes with
  | zero =>
    change fs.follow fs.current [['.']] = .ok q ↔ _
    rw [follow_cons_eq_ok]
    constructor
    · rintro ⟨hd, -, hq⟩
      exact ⟨hd, Except.ok.inj hq⟩
    · rintro ⟨hd, hq⟩
      exact ⟨hd, .inr (.inl rfl), congrArg Except.ok hq⟩
  | succ k =>
    rw [Path.text_eq (.inl k.succ_ne_zero), Path.splitSlashes_replicate]
    change fs.follow [] (List.replicate (k + 1) [] ++ [[]]) = .ok q ↔ _
    rw [follow_replicate]
    constructor
    · intro hq
      exact ⟨rfl, Except.ok.inj hq⟩
    · rintro ⟨-, hq⟩
      exact congrArg Except.ok hq

theorem hasDirectory_of_locate_concat (h : ∀ n ∈ names ++ [name], Path.IsName n)
    (hl : fs.locate (Path.text ⟨slashes, names ++ [name]⟩) = .ok q) :
    fs.HasDirectory (Path.text ⟨slashes, names⟩) ∧
      fs.follow (fs.place (Path.text ⟨slashes, names⟩)) [name] = .ok q := by
  have hnames : ∀ n ∈ names, Path.IsName n := fun n hn => h n (List.mem_append_left _ hn)
  obtain ⟨hf, hfollow⟩ := (locate_text_concat h).1 hl
  obtain ⟨p, hp, hlast⟩ := follow_append_eq_ok.1 hfollow
  have hdir : fs.entry? p = some .directory := (follow_cons_eq_ok.1 hlast).1
  have hplace : p = fs.place (Path.text ⟨slashes, names⟩) := by
    rw [place_text fs slashes hnames]
    exact follow_eq_foldl hp
  refine ⟨⟨p, ?_, hdir⟩, hplace ▸ hlast⟩
  rcases List.eq_nil_or_concat' names with rfl | ⟨outer, last, rfl⟩
  · obtain rfl : fs.base slashes = p := Except.ok.inj hp
    refine locate_text_nil.2 ⟨?_, hdir, rfl⟩
    by_cases hs : slashes = 0
    · subst hs
      exact ⟨by decide, by decide⟩
    · exact hf.of_prefix (Path.text_prefix_concat (.inl hs)) (Path.text_ne_nil hnames)
  · have hprefix : Path.text ⟨slashes, outer ++ [last]⟩ <+:
        Path.text ⟨slashes, outer ++ [last] ++ [name]⟩ :=
      Path.text_prefix_concat (.inr (List.concat_ne_nil last outer))
    exact (locate_text_concat hnames).2 ⟨hf.of_prefix hprefix (Path.text_ne_nil hnames), hp⟩

end Concat

/-! ## Refusals -/

/-- What could not be made is not there: the place that was found, if any, is where the path leads. -/
theorem not_hasDirectory_settle {path : Text} {found : Except FileFault (List Text)} {e : FileError}
    (hfound : ∀ q, fs.locate path = .ok q → found = .ok q)
    (h : (fs.settle path found).2 = .error e) : ¬ (fs.settle path found).1.HasDirectory path := by
  cases found with
  | error fault =>
    rintro ⟨q, hl, -⟩
    cases hfound q hl
  | ok names =>
    unfold settle at h ⊢
    cases he : fs.entry? names with
    | none => simp [he] at h
    | some entry =>
      cases entry with
      | directory => simp [he] at h
      | file content =>
        simp only [he]
        rintro ⟨q, hl, hd⟩
        cases hfound q hl
        rw [he] at hd
        cases hd

theorem not_hasDirectory_ensureDirectory {path : Text} {e : FileError}
    (h : (fs.ensureDirectory path).2 = .error e) :
    ¬ (fs.ensureDirectory path).1.HasDirectory path := not_hasDirectory_settle (fun _ => id) h

/-- A path for which directories could not be made leads to none afterwards, whatever was made on the
way. The names are in reverse, as they are worked through. -/
theorem not_hasDirectory_makeDirectoriesFrom (slashes : Nat) {names : List Text}
    (hn : ∀ n ∈ names, Path.IsName n) {e : FileError}
    (h : (fs.makeDirectoriesFrom slashes names).2 = .error e) :
    ¬ (fs.makeDirectoriesFrom slashes names).1.HasDirectory
      (Path.text ⟨slashes, names.reverse⟩) := by
  induction names generalizing e with
  | nil => exact not_hasDirectory_ensureDirectory h
  | cons name outer ih =>
    have hall : ∀ n ∈ outer.reverse ++ [name], Path.IsName n := by
      intro n h
      exact hn n (by simpa [or_comm] using h)
    have houter : ∀ n ∈ outer, Path.IsName n := fun n h => hn n (List.mem_cons_of_mem _ h)
    have hkept : Keeps (fun _ => False) (fun _ => True) fs
        (fs.makeDirectoriesFrom slashes outer).1 := makeDirectoriesFrom_keeps slashes outer
    have hplace : ∀ q, (fs.makeDirectoriesFrom slashes outer).2 = .ok q →
        q = fs.place (Path.text ⟨slashes, outer.reverse⟩) :=
      (makeDirectoriesFrom_spec (W := fun _ => False) (D := fun _ => True) slashes houter
        fun _ _ => trivial).2
    generalize hr : fs.makeDirectoriesFrom slashes (name :: outer) = result at h ⊢
    rw [makeDirectoriesFrom] at hr
    rw [List.reverse_cons] at hr ⊢
    split at hr
    · subst hr
      exact not_hasDirectory_ensureDirectory h
    split at hr
    · next made place hm =>
      subst hr
      rw [hm] at hkept hplace
      refine not_hasDirectory_settle (fun q hl => ?_) h
      obtain ⟨-, hfollow⟩ := hasDirectory_of_locate_concat hall hl
      rwa [hkept.place, ← hplace place rfl] at hfollow
    · next made e' hm =>
      rw [hm] at ih
      split at hr
      · subst hr
        exact not_hasDirectory_ensureDirectory h
      · subst hr
        rintro ⟨q, hl, -⟩
        exact ih houter rfl (hasDirectory_of_locate_concat hall hl).1

section Reading
variable {p : Path} {q : List Text} {content : Bytes}

/-- A path that can be read has a directory around it. -/
theorem hasDirectory_parent_of_read (hn : ∀ n ∈ p.names, Path.IsName n)
    (h : fs.read p.text = .ok content) : fs.HasDirectory p.parent.text := by
  obtain ⟨q, hl, he⟩ := read_eq_ok.1 h
  obtain ⟨slashes, names⟩ := p
  rcases List.eq_nil_or_concat' names with rfl | ⟨outer, last, rfl⟩
  · obtain ⟨-, hd, rfl⟩ := locate_text_nil.1 hl
    exact ⟨_, hl, hd⟩
  · rw [Path.parent, List.dropLast_concat]
    exact (hasDirectory_of_locate_concat hn hl).1

/-- A path that leads somewhere and cannot be written leads to a directory. -/
theorem entry?_of_write_eq_error (hn : ∀ n ∈ p.names, Path.IsName n) {e : FileError}
    (h : fs.write p.text content = .error e) (hl : fs.locate p.text = .ok q) :
    fs.entry? q = some .directory := by
  obtain ⟨slashes, names⟩ := p
  rcases List.eq_nil_or_concat' names with rfl | ⟨outer, last, rfl⟩
  · obtain ⟨-, hd, rfl⟩ := locate_text_nil.1 hl
    exact hd
  · unfold write modify locateFile at h
    simp only [Path.beforeSlashed?_text_concat hn, hl] at h
    cases he : fs.entry? q with
    | none => simp [he] at h
    | some entry =>
      cases entry with
      | directory => rfl
      | file old => simp [he] at h

theorem toOption_read_eq_none_iff {path : Text} :
    (fs.read path).toOption = none ↔ ∀ content, fs.read path ≠ .ok content := by
  cases fs.read path with
  | error e => exact ⟨fun _ _ => nofun, fun _ => rfl⟩
  | ok content => exact ⟨nofun, fun h => absurd rfl (h content)⟩

/-- Where directories could not be made, nothing can be read. -/
theorem read_of_makeDirectories_eq_error (hn : ∀ n ∈ p.names, Path.IsName n) {e : FileError}
    (h : (fs.makeDirectories p.parent).2 = .error e) :
    ((fs.makeDirectories p.parent).1.read p.text).toOption = none := by
  have hparent : ∀ n ∈ p.parent.names.reverse, Path.IsName n := fun n hm =>
    hn n ((List.dropLast_sublist _).subset (List.mem_reverse.1 hm))
  have hnone := not_hasDirectory_makeDirectoriesFrom p.parent.slashes hparent h
  rw [List.reverse_reverse] at hnone
  exact toOption_read_eq_none_iff.2 fun _ hr => hnone (hasDirectory_parent_of_read hn hr)

/-- What could not be written cannot be read, not even when other files are written. -/
theorem read_of_write_eq_error {W : Places} {fs' : FileSystem}
    (hn : ∀ n ∈ p.names, Path.IsName n) {e : FileError} (h : fs.write p.text content = .error e)
    (hk : Keeps W (fun _ => False) fs fs') : (fs'.read p.text).toOption = none := by
  refine toOption_read_eq_none_iff.2 fun _ hr => ?_
  obtain ⟨q, hl, hfile⟩ := read_eq_ok.1 hr
  have hd := hk.directory (entry?_of_write_eq_error hn h (hk.of_locate hl))
  rw [hd] at hfile
  cases hfile

end Reading

end FileSystem
end CostLens
