import CostLens.Proofs.Files.Denoting
import CostLens.Proofs.Text.Phrase
import CostLens.Proofs.Text.Utf8

/-! # Identifiers of documents

The identifier of a document spells the absolute path that its path denotes, byte by byte. Nothing
is lost in it: an escaped byte can be told from one that stands for itself, the bytes from those of
any other text, and the names from those of any other path. So two paths have the same identifier
when they denote the same absolute path, and only then.
-/
namespace CostLens

/-! ## Bytes -/

/-- What stands for a byte in an identifier. -/
def encodedByte (c : Char) : Text := if isUnreserved c then [c] else '%' :: upperHex c.toNat

theorem upperHex_digits {n : Nat} (h : n < 0x100) : ∃ a b, upperHex n = [a, b] ∧
    Json.Reader.hexValue? a = some (n / 16) ∧ Json.Reader.hexValue? b = some (n % 16) := by
  have hall : ∀ n < 0x100,
      (upperHex n).map Json.Reader.hexValue? = [some (n / 16), some (n % 16)] := by
    decide +kernel
  have hn := hall n h
  rcases hx : upperHex n with _ | ⟨a, _ | ⟨b, _ | ⟨c, t⟩⟩⟩
  all_goals rw [hx] at hn; simp at hn
  exact ⟨a, b, rfl, hn.1, hn.2⟩

theorem upperHex_append_inj {m n : Nat} {s t : Text} (hm : m < 0x100) (hn : n < 0x100)
    (h : upperHex m ++ s = upperHex n ++ t) : m = n ∧ s = t := by
  obtain ⟨a, b, hab, ha, hb⟩ := upperHex_digits hm
  obtain ⟨a', b', hab', ha', hb'⟩ := upperHex_digits hn
  simp only [hab, hab', List.cons_append, List.nil_append, List.cons.injEq] at h
  obtain ⟨rfl, rfl, hst⟩ := h
  have hhigh := Option.some.inj (ha.symm.trans ha')
  have hlow := Option.some.inj (hb.symm.trans hb')
  exact ⟨by omega, hst⟩

/-- What stands for a byte shows which one it is, whatever follows. -/
theorem encodedByte_append_inj {c d : Char} {s t : Text} (hc : c.toNat < 0x100)
    (hd : d.toNat < 0x100) (h : encodedByte c ++ s = encodedByte d ++ t) : c = d ∧ s = t := by
  have hpercent : isUnreserved '%' = false := by decide
  unfold encodedByte at h
  split at h <;> split at h
  · exact List.cons.inj h
  · next hu _ =>
    rw [(List.cons.inj h).1, hpercent] at hu
    cases hu
  · next _ hu =>
    rw [← (List.cons.inj h).1, hpercent] at hu
    cases hu
  · obtain ⟨hn, hst⟩ := upperHex_append_inj hc hd (List.cons.inj h).2
    exact ⟨Char.toNat_inj.1 hn, hst⟩

theorem encodedByte_ne_nil (c : Char) : encodedByte c ≠ [] := by
  unfold encodedByte
  split <;> exact List.cons_ne_nil _ _

theorem flatMap_encodedByte_inj {s t : Text} (hs : ∀ c ∈ s, c.toNat < 0x100)
    (ht : ∀ c ∈ t, c.toNat < 0x100) (h : s.flatMap encodedByte = t.flatMap encodedByte) :
    s = t := by
  induction s generalizing t with
  | nil =>
    cases t with
    | nil => rfl
    | cons d t => exact absurd (List.append_eq_nil_iff.1 h.symm).1 (encodedByte_ne_nil d)
  | cons c s ih =>
    cases t with
    | nil => exact absurd (List.append_eq_nil_iff.1 h).1 (encodedByte_ne_nil c)
    | cons d t =>
      rw [List.forall_mem_cons] at hs ht
      obtain ⟨rfl, hrest⟩ := encodedByte_append_inj hs.1 ht.1 h
      rw [ih hs.2 ht.2 hrest]

namespace Utf8

theorem encode_inj {s t : Text} (h : encode s = encode t) : s = t := by
  have hdecoded : (.ok s : Except Fault Text) = .ok t := by
    rw [← decode_encode s, h, decode_encode t]
  exact Except.ok.inj hdecoded

theorem toNat_ofNat_byte (b : UInt8) : (Char.ofNat b.toNat).toNat = b.toNat := by
  have hb : b.toNat.isValidChar := .inl (by have := b.toNat_lt; omega)
  rw [Char.ofNat, dif_pos hb]
  rfl

theorem octets_lt (t : Text) : ∀ c ∈ octets t, c.toNat < 0x100 := by
  intro c hc
  obtain ⟨b, -, rfl⟩ := List.mem_map.1 hc
  rw [toNat_ofNat_byte]
  exact b.toNat_lt

theorem octets_inj {s t : Text} (h : octets s = octets t) : s = t := by
  refine encode_inj (List.map_injective_iff.2 (fun a b hab => ?_) h)
  have hn : a.toNat = b.toNat := by rw [← toNat_ofNat_byte a, hab, toNat_ofNat_byte]
  exact UInt8.toNat_inj.1 hn

end Utf8

/-! ## Names -/

theorem Path.namesOf_eq (t : Text) :
    namesOf t = (splitSlashes t).filter fun n => !isIdle n := by
  unfold namesOf
  congr
  funext n
  rw [isIdle, Bool.not_or, bne]

/-- The names of an absolute path are read back from its text. -/
theorem Path.namesOf_text {names : List Text} (h : ∀ n ∈ names, IsName n ∧ n ≠ "..") :
    namesOf (ofNames names).text = names := by
  have htext : (ofNames names).text = '/' :: joinWith "/" names := rfl
  have hsplit : namesOf (joinWith "/" names) = names := by
    cases names with
    | nil => rfl
    | cons n names =>
      rw [namesOf_eq, splitSlashes_joinWith (fun n hn => (h n hn).1.2.2) (List.cons_ne_nil n names),
        List.filter_eq_self]
      intro m hm
      obtain ⟨⟨hne, hdot, -⟩, hdots⟩ := h m hm
      rw [Stays.isIdle ⟨hne, hdot, hdots⟩]
      rfl
  rw [htext]
  exact hsplit

theorem documentUri_inj {a b : List Text} (ha : ∀ n ∈ a, Path.IsName n ∧ n ≠ "..")
    (hb : ∀ n ∈ b, Path.IsName n ∧ n ≠ "..") (h : documentUri a = documentUri b) : a = b := by
  have hbytes := flatMap_encodedByte_inj (Utf8.octets_lt _) (Utf8.octets_lt _)
    (List.append_cancel_left h)
  rw [← Path.namesOf_text ha, Utf8.octets_inj hbytes, Path.namesOf_text hb]

/-! ## Paths -/

namespace Path

theorem rootSlashes_eq_zero_iff (t : Text) : rootSlashes t = 0 ↔ startsWith t "/" = false := by
  cases t with
  | nil => exact iff_of_true rfl rfl
  | cons c t =>
    by_cases hc : c = '/'
    · have hlen : rootSlashes (c :: t) ≠ 0 := by
        simp only [rootSlashes, hc, List.takeWhile_cons, beq_self_eq_true, ↓reduceIte,
          List.length_cons]
        split <;> omega
      exact iff_of_false hlen (by simp [startsWith, hc])
    · have hb : ('/' == c) = false := beq_false_of_ne (Ne.symm hc)
      exact iff_of_true (by simp [rootSlashes, hc]) (by simp [startsWith, List.isPrefixOf, hb])

/-- Removing the double dots from the names of some components leads where the components lead. -/
theorem normalNames_filter (components : List Text) :
    normalNames (components.filter fun n => !isIdle n) = components.foldl FileSystem.walk [] := by
  have hstep : (fun (before : List Text) (n : Text) =>
      if (!isIdle n) = true then if n = ".." then before.dropLast else before ++ [n]
      else before) = FileSystem.walk := by
    funext before n
    rcases idle_or_dots_or_stays n with hidle | rfl | hn
    · rw [FileSystem.walk_of_idle hidle, hidle]
      rfl
    · rfl
    · rw [FileSystem.walk_of_stays hn, hn.isIdle, Bool.not_false, if_pos rfl, if_neg hn.2.2]
  rw [normalNames, List.foldl_filter, hstep]

theorem filter_dropWhile_isIdle (components : List Text) :
    (components.dropWhile isIdle).filter (fun n => !isIdle n) =
      components.filter fun n => !isIdle n := by
  induction components with
  | nil => rfl
  | cons n components ih => cases hn : isIdle n <;> simp [hn, ih]

theorem isIdle_of_dropWhile {components rest : List Text} {name : Text}
    (h : components.dropWhile isIdle = name :: rest) : isIdle name = false := by
  have hhead := List.head?_dropWhile_not isIdle components
  rwa [h] at hhead

theorem namesOf_of_dropWhile {t : Text} {components : List Text}
    (h : (splitSlashes t).dropWhile isIdle = components) :
    namesOf t = components.filter fun n => !isIdle n := by
  rw [namesOf_eq, ← filter_dropWhile_isIdle, h]

theorem mem_of_mem_splitSlashes {t n : Text} {c : Char} (hn : n ∈ splitSlashes t) (hc : c ∈ n) :
    c ∈ t := by
  induction t generalizing n with
  | nil =>
    rw [List.mem_singleton.1 hn] at hc
    cases hc
  | cons d t ih =>
    obtain ⟨name, names, hs⟩ := List.exists_cons_of_ne_nil (splitSlashes_ne_nil t)
    rw [splitSlashes, hs] at hn
    rw [hs] at ih
    split at hn
    · rcases List.mem_cons.1 hn with rfl | hn
      · cases hc
      · exact List.mem_cons_of_mem d (ih hn hc)
    · rcases List.mem_cons.1 hn with rfl | hn
      · rcases List.mem_cons.1 hc with rfl | hc
        · exact List.mem_cons_self
        · exact List.mem_cons_of_mem d (ih List.mem_cons_self hc)
      · exact List.mem_cons_of_mem d (ih (List.mem_cons_of_mem _ hn) hc)

theorem not_mem_text {c : Char} {p : Path} (hc : c ≠ '/' ∧ c ≠ '.') (h : ∀ n ∈ p.names, c ∉ n) :
    c ∉ p.text := by
  unfold text
  split
  · simpa using hc.2
  · rw [List.mem_append, not_or]
    refine ⟨fun hm => hc.1 (List.eq_of_mem_replicate hm), fun hm => ?_⟩
    rcases mem_joinWith hm with hm | ⟨n, hn, hm⟩
    · exact hc.1 (List.mem_singleton.1 hm)
    · exact h n hn hm

/-- Whose home directory is meant is told by the first component that leads anywhere, unless the
text begins at the root. -/
theorem homeOwner?_ofText_eq_some_iff {t owner : Text} :
    (ofText t).homeOwner? = some owner ↔ startsWith t "/" = false ∧
      ∃ rest, (splitSlashes t).dropWhile isIdle = ('~' :: owner) :: rest := by
  rw [← rootSlashes_eq_zero_iff, homeOwner?, ofText]
  constructor
  · intro h
    split at h
    · next hslashes hnames =>
      cases h
      refine ⟨hslashes, ?_⟩
      cases hd : (splitSlashes t).dropWhile isIdle with
      | nil =>
        rw [namesOf_of_dropWhile hd] at hnames
        cases hnames
      | cons name rest =>
        rw [namesOf_of_dropWhile hd, List.filter_cons_of_pos (by rw [isIdle_of_dropWhile hd]; rfl)]
          at hnames
        rw [(List.cons.inj hnames).1]
        exact ⟨rest, rfl⟩
    · cases h
  · rintro ⟨hslashes, rest, hd⟩
    have hnames : namesOf t = ('~' :: owner) :: rest.filter fun n => !isIdle n := by
      rw [namesOf_of_dropWhile hd]
      exact List.filter_cons_of_pos (by rw [isIdle_of_dropWhile hd]; rfl)
    rw [hslashes, hnames]
    rfl

end Path

namespace FileSystem

/-- The home directory of somebody else does not stand in front of a text. -/
def NamesNobody (t : Text) : Prop := ∀ owner, (Path.ofText t).homeOwner? = some owner → owner = []

section Uri
variable {fs : FileSystem} {t : Text}

theorem filter_isIdle_of_isName {names : List Text} (h : ∀ n ∈ names, Path.IsName n) :
    names.filter (fun n => !Path.isIdle n) = names := by
  rw [List.filter_eq_self]
  intro n hn
  rw [Path.isIdle_eq_false (h n hn).1 (h n hn).2.1]
  rfl

/-- What a path is expanded to stands for the components of its text. -/
theorem exists_expanded (proper : fs.Proper) (hu : NamesNobody t) :
    ∃ q, fs.expanded (.ofText t) = .ok q ∧
      q.absoluteNames fs.current = (fs.components t).foldl walk [] ∧
      ∀ n ∈ q.names, n ∈ fs.home ∨ n ∈ Path.namesOf t := by
  cases howner : (Path.ofText t).homeOwner? with
  | none =>
    refine ⟨.ofText t, expanded_of_none howner, ?_, fun n hn => .inr hn⟩
    cases hroot : startsWith t "/" with
    | true =>
      have habs : (Path.ofText t).isAbsolute = true :=
        bne_iff_ne.2 (mt (Path.rootSlashes_eq_zero_iff t).1 (by rw [hroot]; decide))
      rw [Path.absoluteNames, if_pos habs, components, if_pos hroot, ← Path.normalNames_filter,
        ← Path.namesOf_eq]
      rfl
    | false =>
      have habs : (Path.ofText t).isAbsolute = false :=
        bne_eq_false_iff_eq.2 ((Path.rootSlashes_eq_zero_iff t).2 hroot)
      have hcomponents : fs.components t = fs.current ++ Path.splitSlashes t := by
        rw [components, hroot, if_neg Bool.false_ne_true]
        split
        · next hd =>
          cases howner.symm.trans (Path.homeOwner?_ofText_eq_some_iff.2 ⟨hroot, _, hd⟩)
        · rfl
      rw [Path.absoluteNames, habs, hcomponents, ← Path.normalNames_filter, List.filter_append,
        filter_isIdle_of_isName proper.current, ← Path.namesOf_eq]
      rfl
  | some owner =>
    obtain rfl := hu owner howner
    obtain ⟨hroot, rest, hd⟩ := Path.homeOwner?_ofText_eq_some_iff.1 howner
    have hexpand : fs.expanded (.ofText t) = .ok ((Path.ofText t).withHome fs.home) := by
      simp [expanded, expandHome?, howner, homeOf?]
    have hnames : Path.namesOf t = ['~'] :: rest.filter fun n => !Path.isIdle n := by
      rw [Path.namesOf_of_dropWhile hd]
      rfl
    have hwith : ((Path.ofText t).withHome fs.home).names =
        fs.home ++ rest.filter fun n => !Path.isIdle n := by
      rw [Path.withHome, Path.ofText, hnames]
      rfl
    have hcomponents : fs.components t = fs.home ++ rest := by
      rw [components, hroot, hd]
      rfl
    refine ⟨_, hexpand, ?_, fun n hn => ?_⟩
    · rw [hcomponents, ← Path.normalNames_filter, List.filter_append,
        filter_isIdle_of_isName proper.home, ← hwith]
      rfl
    · rw [hwith] at hn
      rw [hnames]
      exact (List.mem_append.1 hn).imp_right (List.mem_cons_of_mem _)

/-- The identifier of the document at a path is that of the absolute path which its text denotes. -/
theorem uri_ofText (proper : fs.Proper) (home : ∀ n ∈ fs.home, '\x00' ∉ n) (hu : NamesNobody t)
    (ht : '\x00' ∉ t) :
    fs.uri (.ofText t) = .ok (documentUri ((fs.components t).foldl walk [])) := by
  obtain ⟨q, hq, habs, hnames⟩ := exists_expanded proper hu
  have hnull : q.text.contains '\x00' = false := by
    rw [← Bool.not_eq_true, List.contains_iff_mem]
    apply Path.not_mem_text (by decide)
    intro n hn
    rcases hnames n hn with hm | hm
    · exact home n hm
    · exact fun hc => ht (Path.mem_of_mem_splitSlashes (List.mem_filter.1 hm).1 hc)
  rw [uri, hq]
  simp only [hnull, habs]
  rfl

theorem not_mem_components (proper : fs.Proper) (t : Text) : ∀ n ∈ fs.components t, '/' ∉ n := by
  have hsplit := Path.not_mem_of_mem_splitSlashes t
  unfold components
  split
  · exact hsplit
  split
  · next rest hd =>
    refine List.forall_mem_append.2 ⟨fun n hn => (proper.home n hn).2.2, fun n hn => hsplit n ?_⟩
    exact (List.dropWhile_sublist _).subset (hd ▸ List.mem_cons_of_mem _ hn)
  · exact List.forall_mem_append.2 ⟨fun n hn => (proper.current n hn).2.2, hsplit⟩

theorem foldl_components_isName (proper : fs.Proper) (t : Text) :
    ∀ n ∈ (fs.components t).foldl walk [], Path.IsName n ∧ n ≠ ".." := by
  intro n hn
  have hnone : ∀ n ∈ ([] : List Text), Path.Stays n := fun _ hn => nomatch hn
  obtain ⟨hne, hdot, hdots⟩ := foldl_walk_stays hnone _ n hn
  have hslash : '/' ∉ n := by
    rcases mem_of_mem_foldl_walk hn with hn | hn
    · cases hn
    · exact not_mem_components proper t n hn
  exact ⟨⟨hne, hdot, hslash⟩, hdots⟩

/-- Two texts denote the same absolute path when their components lead to the same place. -/
theorem denote_same_iff {s t : Text} : (∃ names, fs.Denotes s names ∧ fs.Denotes t names) ↔
    (fs.components s).foldl walk [] = (fs.components t).foldl walk [] := by
  simp only [denotes_iff, exists_eq_left]

end Uri

end FileSystem

/-- Two paths have an identifier each, and it is the same one exactly when they denote the same
absolute path. A document that is read has the identifier of its path. -/
theorem Document.uri_eq_iff_denote_same {w : World} {s t : Text} (proper : w.files.Proper)
    (home : ∀ n ∈ w.files.home, '\x00' ∉ n) (hs : '\x00' ∉ s) (ht : '\x00' ∉ t)
    (hus : FileSystem.NamesNobody s) (hut : FileSystem.NamesNobody t) :
    ∃ u v, Run.uriOf (.ofText s) w = (.ok u, w) ∧ Run.uriOf (.ofText t) w = (.ok v, w) ∧
      (u = v ↔ ∃ names, w.files.Denotes s names ∧ w.files.Denotes t names) ∧
      (∀ d, (Document.load s w).1 = .ok d → d.uri = u) ∧
      ∀ d, (Document.load t w).1 = .ok d → d.uri = v := by
  have hread {r u : Text} (hr : w.files.uri (.ofText r) = .ok u) (d : Document)
      (hd : (Document.load r w).1 = .ok d) : d.uri = u := by
    rw [(Document.load_apply r w).1] at hd
    exact Except.ok.inj ((FileSystem.uri_of_document hd).symm.trans hr)
  have hsu := FileSystem.uri_ofText proper home hus hs
  have htv := FileSystem.uri_ofText proper home hut ht
  refine ⟨_, _, ?_, ?_, ?_, hread hsu, hread htv⟩
  · rw [Run.uriOf_apply, hsu]
  · rw [Run.uriOf_apply, htv]
  · rw [FileSystem.denote_same_iff]
    refine ⟨fun h => ?_, fun h => congrArg documentUri h⟩
    exact documentUri_inj (FileSystem.foldl_components_isName proper s)
      (FileSystem.foldl_components_isName proper t) h

/-- A document with a percent sign, a space and an umlaut in its name. -/
def spelledWorld : World where
  files :=
    { entries := [(.ofNames ["w"], .directory), (.ofNames ["w", "ä 100%.py"], .file [])]
      current := ["w"]
      home := ["h"] }
  now := { date := ⟨2024, 5, 1⟩ }

theorem Document.uri_eq_iff_denote_same_spelled :
    ∃ u, Run.uriOf (.ofText "./x//../ä 100%.py") spelledWorld = (.ok u, spelledWorld) ∧
      Run.uriOf (.ofText "~/../../w/ä 100%.py") spelledWorld = (.ok u, spelledWorld) ∧
      ∀ d, (Document.load "./x//../ä 100%.py" spelledWorld).1 = .ok d → d.uri = u := by
  have hplain : FileSystem.NamesNobody "./x//../ä 100%.py" := by
    have hnone : (Path.ofText "./x//../ä 100%.py").homeOwner? = none := by decide +kernel
    intro owner h
    cases hnone.symm.trans h
  have htilde : FileSystem.NamesNobody "~/../../w/ä 100%.py" := by
    have hsome : (Path.ofText "~/../../w/ä 100%.py").homeOwner? = some [] := by decide +kernel
    intro owner h
    cases hsome.symm.trans h
    rfl
  obtain ⟨u, v, hu, hv, hiff, hread, -⟩ := Document.uri_eq_iff_denote_same (w := spelledWorld)
    ⟨by decide, by decide, nofun⟩ (by decide) (by decide) (by decide) hplain htilde
  have hnames : ∀ t ∈ (["./x//../ä 100%.py", "~/../../w/ä 100%.py"] : List Text),
      spelledWorld.files.Denotes t ["w", "ä 100%.py"] := by
    simp only [FileSystem.denotes_iff]
    decide +kernel
  obtain rfl := hiff.2 ⟨_, hnames _ (by simp), hnames _ (by simp)⟩
  exact ⟨u, hu, hv, hread⟩

end CostLens
