import CostLens.Analysis.Recursion
import CostLens.Proofs.Text.Order
import CostLens.Proofs.Text.Test
import CostLens.Proofs.Text.Word

/-! # Names called behind their declaration

Declarations are read from left to right, each behind the one before, so their names lie apart and
in order. A call is looked for from the second character of the declared name on. None is found
inside the name: the declared name is a whole word, and a call that began further right in it would
have to go on past its end.
-/
namespace CostLens.Recursion

/-! ## One declaration -/

/-- A declaration at the front of a text: its name is the whole rest of a word and lies within. -/
structure Found.Fits (f : Found) (t : Text) : Prop where
  ne_nil : f.name ≠ []
  takeWhile_eq : (t.drop f.skipped).takeWhile isWord = f.name
  le_length : f.skipped + f.name.length ≤ f.length

theorem Found.Fits.length_pos {f : Found} {t : Text} (h : f.Fits t) : 0 < f.length := by
  have hname := List.length_pos_iff.2 h.ne_nil
  have hle := h.le_length
  omega

theorem wordThenName?_fits {word t : Text} {f : Found} (h : wordThenName? word t = some f) :
    f.Fits t := by
  unfold wordThenName? at h
  split at h
  · cases h
  · next rest hr =>
    simp only at h
    split at h
    · cases h
    · next hne =>
      obtain rfl := Option.some.inj h
      obtain rfl := List.append_eq_of_isPrefixOf?_eq_some hr
      rw [Bool.or_eq_true, not_or, List.isEmpty_iff, List.isEmpty_iff] at hne
      exact ⟨hne.2, by rw [List.drop_length_add_append], Nat.le_refl _⟩

theorem nameThenFunction?_fits {t : Text} {f : Found} (h : nameThenFunction? t = some f) :
    f.Fits t := by
  unfold nameThenFunction? at h
  simp only at h
  split at h
  · cases h
  · next value hv =>
    split at h
    · cases h
    · next after ha =>
      split at h
      · cases h
      · next hne =>
        obtain rfl := Option.some.inj h
        rw [List.isEmpty_iff] at hne
        -- what is read behind the name is read from the text behind the name
        have hbehind : after.length ≤ t.length - (t.takeWhile isWord).length := by
          have htrim (s : Text) : (trimStart s).length ≤ s.length :=
            (List.dropWhile_sublist isBlank).length_le
          have hrest := htrim (t.drop (t.takeWhile isWord).length)
          have hvalue := htrim value
          rw [← List.append_eq_of_isPrefixOf?_eq_some hv, List.length_append,
            List.length_drop] at hrest
          rw [← List.append_eq_of_isPrefixOf?_eq_some ha, List.length_append] at hvalue
          omega
        have hname : (t.takeWhile isWord).length ≤ t.length :=
          (List.takeWhile_prefix isWord).length_le
        exact ⟨hne, rfl, by simp only; omega⟩

theorem found?_fits {t : Text} {f : Found} (h : found? t = some f) : f.Fits t := by
  unfold found? at h
  rcases Option.or_eq_some_iff.1 h with hword | ⟨-, h⟩
  · exact wordThenName?_fits hword
  · rcases Option.or_eq_some_iff.1 h with hassigned | ⟨-, hword⟩
    · exact nameThenFunction?_fits hassigned
    · exact wordThenName?_fits hword

/-! ## All declarations -/

section Reading
variable {offset skip : Nat} {t : Text}

theorem exists_of_mem_declarationsFrom {d : Text × Nat} (h : d ∈ declarationsFrom offset skip t) :
    ∃ i f, skip ≤ i ∧ found? (t.drop i) = some f ∧ d = (f.name, offset + i + f.skipped) := by
  fun_induction declarationsFrom offset skip t with
  | case1 => cases h
  | case2 offset skip c t ih =>
    obtain ⟨i, f, hi, hf, rfl⟩ := ih h
    exact ⟨i + 1, f, Nat.succ_le_succ hi, hf, by rw [Nat.succ_add_eq_add_succ]⟩
  | case3 offset c t f hf ih =>
    rcases List.mem_cons.1 h with rfl | h
    · exact ⟨0, f, Nat.le_refl 0, hf, rfl⟩
    · obtain ⟨i, g, -, hg, rfl⟩ := ih h
      exact ⟨i + 1, g, Nat.zero_le _, hg, by rw [Nat.succ_add_eq_add_succ]⟩
  | case4 offset c t hf ih =>
    obtain ⟨i, g, -, hg, rfl⟩ := ih h
    exact ⟨i + 1, g, Nat.zero_le _, hg, by rw [Nat.succ_add_eq_add_succ]⟩

theorem declarationsFrom_pairwise (offset skip : Nat) (t : Text) :
    (declarationsFrom offset skip t).Pairwise fun d e => d.2 < e.2 := by
  fun_induction declarationsFrom offset skip t with
  | case1 => exact .nil
  | case2 _ _ _ _ ih => exact ih
  | case3 offset c t f hf ih =>
    refine List.pairwise_cons.2 ⟨?_, ih⟩
    intro d hd
    obtain ⟨i, g, hi, -, rfl⟩ := exists_of_mem_declarationsFrom hd
    have hname := List.length_pos_iff.2 (found?_fits hf).ne_nil
    have hle := (found?_fits hf).le_length
    simp only
    omega
  | case4 _ _ _ _ ih => exact ih

/-- A declaration that begins at some position is read there, unless the position lies in one that
is read before. -/
theorem exists_declaration_around (offset : Nat) {i : Nat} {f : Found} (hi : skip ≤ i)
    (h : found? (t.drop i) = some f) : ∃ j g, j ≤ i ∧ i < j + g.length ∧
      found? (t.drop j) = some g ∧
      (g.name, offset + j + g.skipped) ∈ declarationsFrom offset skip t := by
  fun_induction declarationsFrom offset skip t generalizing i with
  | case1 =>
    rw [List.drop_nil] at h
    cases h
  | case2 offset skip c t ih =>
    obtain ⟨i, rfl⟩ : ∃ k, i = k + 1 := ⟨i - 1, by omega⟩
    obtain ⟨j, g, hj, hlt, hg, hm⟩ := ih (Nat.le_of_succ_le_succ hi) h
    rw [Nat.succ_add_eq_add_succ] at hm
    exact ⟨j + 1, g, Nat.succ_le_succ hj, by omega, hg, hm⟩
  | case3 offset c t g hg ih =>
    by_cases hlt : i < g.length
    · exact ⟨0, g, Nat.zero_le i, by omega, hg, List.mem_cons_self⟩
    · have hpos := (found?_fits hg).length_pos
      obtain ⟨i, rfl⟩ : ∃ k, i = k + 1 := ⟨i - 1, by omega⟩
      obtain ⟨j, g', hj, hlt', hg', hm⟩ := ih (by omega) h
      rw [Nat.succ_add_eq_add_succ] at hm
      exact ⟨j + 1, g', Nat.succ_le_succ hj, by omega, hg', List.mem_cons_of_mem _ hm⟩
  | case4 offset c t hnone ih =>
    cases i with
    | zero =>
      rw [List.drop_zero, hnone] at h
      cases h
    | succ i =>
      obtain ⟨j, g, hj, hlt, hg, hm⟩ := ih (Nat.zero_le i) h
      rw [Nat.succ_add_eq_add_succ] at hm
      exact ⟨j + 1, g, Nat.succ_le_succ hj, by omega, hg, hm⟩

end Reading

theorem takeWhile_of_mem_declarations {span name : Text} {o : Nat}
    (h : (name, o) ∈ declarations span) : name ≠ [] ∧ (span.drop o).takeWhile isWord = name := by
  obtain ⟨i, f, -, hf, he⟩ := exists_of_mem_declarationsFrom h
  obtain ⟨rfl, rfl⟩ := Prod.mk.inj he
  have hfits := found?_fits hf
  refine ⟨hfits.ne_nil, ?_⟩
  rw [Nat.zero_add, ← List.drop_drop]
  exact hfits.takeWhile_eq

/-! ## Calls -/

theorem length_le_of_call {t : Text} {m : Nat} (hm : 0 < m)
    (h : (t.takeWhile isWord ++ "(" : Text) <+: t.drop m) : (t.takeWhile isWord).length ≤ m := by
  by_contra hlt
  obtain ⟨behind, he⟩ := h
  rw [List.append_assoc] at he
  have hcalled : (t.drop m).takeWhile isWord = t.takeWhile isWord := by
    rw [← he]
    exact (takeWhile_append_cons (fun _ => List.mem_takeWhile_imp) (by decide)).1
  have hrest : (t.drop m).takeWhile isWord = (t.takeWhile isWord).drop m :=
    takeWhile_drop (by omega)
  have hlen := congrArg List.length (hcalled.symm.trans hrest)
  rw [List.length_drop] at hlen
  omega

/-- Looking for a call from the second character of a declared name on finds those behind it. -/
theorem has_call_iff {span name : Text} {o : Nat} (h : (name, o) ∈ declarations span) :
    Test.has (name ++ "(") (span.drop (o + 1)) = true ↔
      ∃ i, o + name.length ≤ i ∧ (name ++ "(" : Text) <+: span.drop i := by
  obtain ⟨hne, rfl⟩ := takeWhile_of_mem_declarations h
  have hpos := List.length_pos_iff.2 hne
  rw [Test.has_iff]
  constructor
  · rintro ⟨j, hj⟩
    rw [List.drop_drop, Nat.add_assoc, ← List.drop_drop] at hj
    have hle := length_le_of_call (by omega) hj
    rw [List.drop_drop] at hj
    exact ⟨_, Nat.add_le_add_left hle o, hj⟩
  · rintro ⟨i, hi, hcall⟩
    refine ⟨i - (o + 1), ?_⟩
    rwa [List.drop_drop, Nat.add_sub_of_le (by omega)]

theorem mem_names_iff {span name : Text} : name ∈ names span ↔
    ∃ o i, (name, o) ∈ declarations span ∧ o + name.length ≤ i ∧
      (name ++ "(" : Text) <+: span.drop i := by
  rw [names, mem_sortedNames]
  constructor
  · intro h
    obtain ⟨⟨_, o⟩, hd, rfl⟩ := List.mem_map.1 h
    obtain ⟨hd, hcall⟩ := List.mem_filter.1 hd
    obtain ⟨i, hi, hcall⟩ := (has_call_iff hd).1 hcall
    exact ⟨o, i, hd, hi, hcall⟩
  · rintro ⟨o, i, hd, hi, hcall⟩
    refine List.mem_map.2 ⟨(name, o), List.mem_filter.2 ⟨hd, ?_⟩, rfl⟩
    exact (has_call_iff hd).2 ⟨i, hi, hcall⟩

/-- The declarations of a text are in order, each with the whole rest of a word as its name, and
none is passed over unless it begins within another. A name is recursive when it is called behind
one of its declarations; the parenthesis of the declaration itself is no call. -/
theorem names_called_behind (span : Text) :
    (declarations span).Pairwise (fun d e => d.2 < e.2) ∧
    (∀ d ∈ declarations span, d.1 ≠ [] ∧ (∀ c ∈ d.1, isWord c = true) ∧
      (span.drop d.2).take d.1.length = d.1 ∧
      ∀ c ∈ span[d.2 + d.1.length]?, isWord c = false) ∧
    (∀ i f, found? (span.drop i) = some f → ∃ j g, j ≤ i ∧ i < j + g.length ∧
      found? (span.drop j) = some g ∧ (g.name, j + g.skipped) ∈ declarations span) ∧
    ∀ name, name ∈ names span ↔ ∃ o i, (name, o) ∈ declarations span ∧ o + name.length ≤ i ∧
      (name ++ "(" : Text) <+: span.drop i := by
  refine ⟨declarationsFrom_pairwise 0 0 span, ?_, ?_, fun _ => mem_names_iff⟩
  · rintro ⟨name, o⟩ hd
    obtain ⟨hne, rfl⟩ := takeWhile_of_mem_declarations hd
    refine ⟨hne, fun _ => List.mem_takeWhile_imp, take_length_takeWhile _, ?_⟩
    rw [← List.getElem?_drop]
    exact isWord_behind_takeWhile _
  · intro i f hf
    obtain ⟨j, g, hj, hlt, hg, hm⟩ := exists_declaration_around 0 (Nat.zero_le i) hf
    rw [Nat.zero_add] at hm
    exact ⟨j, g, hj, hlt, hg, hm⟩

/-- A function that is called in another one, which its body declares. Its own parenthesis is not
the call. -/
theorem names_called_behind_assigned :
    let span : Text := "function f(x) \x7b g = function() f(x) \x7d"
    declarations span = [("f".toList, 9), ("g".toList, 16)] ∧
      (∀ c ∈ span[10]?, isWord c = false) ∧ ("f(" : Text) <+: span.drop 31 ∧
      "f".toList ∈ names span := by
  intro span
  have hd : declarations span = [("f".toList, 9), ("g".toList, 16)] := by decide +kernel
  have hf : ("f".toList, 9) ∈ declarations span := hd ▸ List.mem_cons_self
  have hcall : ("f(" : Text) <+: span.drop 31 := by decide
  obtain ⟨-, hwhole, -, hnames⟩ := names_called_behind span
  exact ⟨hd, (hwhole _ hf).2.2.2, hcall, (hnames _).2 ⟨9, 31, hf, by decide, hcall⟩⟩

end CostLens.Recursion
