import CostLens.Proofs.Source.Balance
import CostLens.Proofs.Source.Entry

/-! # The analysis of a function is local to its block

Lines put before a document move its entries and change nothing else in them. Lines put behind it
leave an entry as it is once its block has ended within the document.
-/
namespace CostLens

theorem exists_lines_behind {lines : List Text} {i : Nat} {line : Text}
    (h : lines[i]? = some line) :
    ∃ block, lines.drop i = line :: block ∧ i + 1 + block.length = lines.length := by
  obtain ⟨hi, rfl⟩ := List.getElem?_eq_some_iff.1 h
  refine ⟨_, List.drop_eq_getElem_cons hi, ?_⟩
  rw [List.length_drop]
  omega

theorem getElem?_append_left (before lines : List Text) (i : Nat) :
    (before ++ lines)[before.length + i]? = lines[i]? := by
  rw [List.getElem?_append_right (Nat.le_add_right _ _), Nat.add_sub_cancel_left]

/-- An entry moved down by a number of lines. -/
def Analysis.shift (n : Nat) (a : Analysis) : Analysis :=
  { a with candidate :=
      { a.candidate with startLine := a.candidate.startLine + n
                         endLine := a.candidate.endLine + n } }

namespace Block

variable {family : Family} {line : Text} {i : Nat}

theorem end?_append_left (before : List Text) {lines : List Text} (h : lines[i]? = some line) :
    Block.end? family (before ++ lines) (before.length + i : Nat) =
      (Block.end? family lines i).map (· + (before.length : Int)) := by
  have h' : (before ++ lines)[before.length + i]? = some line := by rw [getElem?_append_left, h]
  have hd : (before ++ lines).drop (before.length + i) = lines.drop i :=
    List.drop_length_add_append i
  obtain ⟨block, hb, -⟩ := exists_lines_behind h
  rw [end?_of_line h, end?_of_line h']
  split
  · rw [indentEnd?_natCast (hd.trans hb), indentEnd?_natCast hb, Option.map_some]
    congr 1
    cases (block.take maxSpan).findIdx? (isDedent (indentation line)) with
    | none =>
      simp only [Option.map_none, Option.getD_none, List.length_append]
      omega
    | some k =>
      simp only [Option.map_some, Option.getD_some]
      omega
  · rw [braceEnd?_natCast, braceEnd?_natCast, hd, Option.map_some]
    congr 1
    cases balanceOffset? false 0 (lines.drop i) with
    | none =>
      simp only [Option.map_none, Option.getD_none, List.length_append]
      omega
    | some k =>
      simp only [Option.map_some, Option.getD_some]
      omega

theorem span_append_left (before lines : List Text) (a b : Nat) :
    span (before ++ lines) (before.length + a : Nat) (before.length + b : Nat) = span lines a b := by
  rw [span, span, sliceLines_append_left]

theorem text?_append_left (before : List Text) {lines : List Text} (h : lines[i]? = some line)
    (n : Nat) :
    text? family (before ++ lines) (before.length + i : Nat) (before.length + n : Nat) =
      text? family lines i n := by
  have h' : (before ++ lines)[before.length + i]? = some line := by rw [getElem?_append_left, h]
  rw [text?_of_line _ h, text?_of_line _ h']
  have hm : (min (((before.length + n : Nat) : Int) + 1) ((before ++ lines).length : Nat)) =
      ((before.length + min (n + 1) lines.length : Nat) : Int) := by
    rw [List.length_append]
    omega
  have hn : (min ((n : Int) + 1) (lines.length : Nat)) = ((min (n + 1) lines.length : Nat) : Int) := by
    omega
  rw [hm, hn, span_append_left, span_append_left]

end Block

namespace Analysis

theorem atLine?_append_left (family : Family) (before lines : List Text) (i : Nat) :
    atLine? family (before ++ lines) (before.length + i) =
      (atLine? family lines i).map (shift before.length) := by
  refine Option.ext fun a => ?_
  rw [atLine?_eq_some_iff, Option.map_eq_some_iff]
  constructor
  · rintro ⟨line, name, last, text, hl, hn, he, hlt, ht, rfl⟩
    rw [getElem?_append_left] at hl
    rw [Block.end?_append_left before hl] at he
    obtain ⟨last', he', rfl⟩ := Option.map_eq_some_iff.1 he
    obtain ⟨n, rfl⟩ := Int.eq_ofNat_of_zero_le (a := last') (by omega)
    have hc : ((n : Int) + (before.length : Int)) = ((before.length + n : Nat) : Int) := by omega
    rw [hc, Block.text?_append_left before hl] at ht
    refine ⟨_, atLine?_eq_some_iff.2 ⟨line, name, n, text, hl, hn, he', by omega, ht, rfl⟩, ?_⟩
    simp only [shift, make, Analysis.mk.injEq, Candidate.mk.injEq, true_and, and_true]
    omega
  · rintro ⟨b, hb, rfl⟩
    obtain ⟨line, name, last, text, hl, hn, he, hlt, ht, rfl⟩ := atLine?_eq_some_iff.1 hb
    obtain ⟨n, rfl⟩ := Int.eq_ofNat_of_zero_le (a := last) (by omega)
    refine ⟨line, name, (before.length + n : Nat), text, ?_, hn, ?_, by omega, ?_, ?_⟩
    · rw [getElem?_append_left, hl]
    · rw [Block.end?_append_left before hl, he, Option.map_some]
      congr 1
      omega
    · rw [Block.text?_append_left before hl, ht]
    · simp only [shift, make, Analysis.mk.injEq, Candidate.mk.injEq, true_and, and_true]
      omega

/-- The entries of a longer document from a line on are those of the lines from there on. -/
theorem ofDocument_append_left (family : Family) (before lines : List Text) :
    (ofDocument family (before ++ lines)).filter
        (fun a => decide ((before.length : Int) ≤ a.candidate.startLine)) =
      (ofDocument family lines).map (shift before.length) := by
  have hfirst : ((List.range before.length).filterMap (atLine? family (before ++ lines))).filter
      (fun a => decide ((before.length : Int) ≤ a.candidate.startLine)) = [] := by
    refine List.filter_eq_nil_iff.2 fun a ha => ?_
    obtain ⟨i, hi, h⟩ := List.mem_filterMap.1 ha
    rw [startLine_of_atLine? h, decide_eq_true_eq]
    have := List.mem_range.1 hi
    omega
  have hrest : ∀ a ∈ (List.range lines.length).filterMap
      (fun i => atLine? family (before ++ lines) (before.length + i)),
      decide ((before.length : Int) ≤ a.candidate.startLine) = true := by
    intro a ha
    obtain ⟨i, _, h⟩ := List.mem_filterMap.1 ha
    rw [startLine_of_atLine? h, decide_eq_true_eq]
    omega
  have hmoved : (atLine? family (before ++ lines) ∘ fun i => before.length + i) =
      fun i => atLine? family (before ++ lines) (before.length + i) := rfl
  rw [ofDocument_eq, ofDocument_eq, List.length_append, List.range_add, List.filterMap_append,
    List.filter_append, hfirst, List.nil_append, List.filterMap_map, hmoved,
    List.filter_eq_self.2 hrest, List.map_filterMap]
  simp only [atLine?_append_left]

end Analysis

/-! ## Lines behind a document -/

namespace Block

theorem braceEnd?_append_right {lines : List Text} {i n : Nat} (behind : List Text)
    (h : Balanced ((lines.drop i).take n)) :
    ∃ e : Nat, e < lines.length ∧ braceEnd? lines i = some (e : Int) ∧
      braceEnd? (lines ++ behind) i = some (e : Int) := by
  obtain ⟨k, hk⟩ := exists_balanceOffset? h
  have hlt := (balanceOffset?_eq_some_iff.1 hk).1
  rw [List.length_drop] at hlt
  refine ⟨i + k, by omega, ?_, ?_⟩
  · rw [braceEnd?_natCast, hk]
    rfl
  · have hil : i ≤ lines.length := by omega
    rw [braceEnd?_natCast, List.drop_append_of_le_length hil, balanceOffset?_append hk behind]
    rfl

theorem indentEnd?_append_right {lines : List Text} {line : Text} {i : Nat} {e : Int}
    (behind : List Text) (hl : lines[i]? = some line) (he : indentEnd? lines i = some e)
    (hlt : e < lines.length) : indentEnd? (lines ++ behind) i = some e := by
  obtain ⟨hi, -⟩ := List.getElem?_eq_some_iff.1 hl
  obtain ⟨block, hb, hlen⟩ := exists_lines_behind hl
  have hb' : (lines ++ behind).drop i = line :: (block ++ behind) := by
    rw [List.drop_append_of_le_length (Nat.le_of_lt hi), hb, List.cons_append]
  rw [indentEnd?_natCast hb] at he
  rw [indentEnd?_natCast hb', ← he]
  cases hf : (block.take maxSpan).findIdx? (isDedent (indentation line)) with
  | none =>
    rw [hf] at he
    simp only [Option.map_none, Option.getD_none, Option.some.injEq] at he
    have hcap : maxSpan ≤ block.length := by omega
    rw [List.take_append_of_le_length hcap, hf]
    simp only [Option.map_none, Option.getD_none, Option.some.injEq, List.length_append]
    omega
  | some k =>
    have hf' : ((block ++ behind).take maxSpan).findIdx? (isDedent (indentation line)) = some k := by
      rw [List.take_append, List.findIdx?_append, hf]
      rfl
    rw [hf']
    simp only [Option.map_some, Option.getD_some]

end Block

namespace Analysis

/-- The block of a candidate ends within the document: its braces balance, or the line behind it
is one of the document. -/
def Closed (family : Family) (lines : List Text) (c : Candidate) : Prop :=
  ∃ i line, c.startLine = (i : Nat) ∧ lines[i]? = some line ∧
    if family.ofLine line = .indent then c.endLine < lines.length
    else ∃ n, Block.Balanced ((lines.drop i).take n)

theorem atLine?_append_right {family : Family} {lines : List Text} {i : Nat} {a : Analysis}
    (behind : List Text) (h : atLine? family lines i = some a)
    (hc : Closed family lines a.candidate) : atLine? family (lines ++ behind) i = some a := by
  obtain ⟨line, name, last, text, hl, hn, he, hlt, ht, rfl⟩ := atLine?_eq_some_iff.1 h
  obtain ⟨j, line', hj, hl', hclosed⟩ := hc
  obtain rfl : i = j := Int.ofNat_inj.1 hj
  obtain rfl : line = line' := Option.some.inj (hl.symm.trans hl')
  obtain ⟨hi, -⟩ := List.getElem?_eq_some_iff.1 hl
  have hl₂ : (lines ++ behind)[i]? = some line := by rw [List.getElem?_append_left hi, hl]
  rw [Block.end?_of_line hl] at he
  rw [Block.text?_of_line _ hl] at ht
  refine atLine?_eq_some_iff.2 ⟨line, name, last, text, hl₂, hn, ?_, hlt, ?_, rfl⟩
  · rw [Block.end?_of_line hl₂]
    split at hclosed
    · next hf =>
      rw [if_pos hf] at he ⊢
      exact Block.indentEnd?_append_right behind hl he hclosed
    · next hf =>
      rw [if_neg hf] at he ⊢
      obtain ⟨n, hb⟩ := hclosed
      obtain ⟨e, -, he₁, he₂⟩ := Block.braceEnd?_append_right behind hb
      rw [← he, he₁, he₂]
  · rw [Block.text?_of_line _ hl₂, ← ht]
    obtain ⟨n, rfl⟩ := Int.eq_ofNat_of_zero_le (a := last) (by omega)
    split at hclosed
    · next hf =>
      have hle : n ≤ lines.length := by
        have : (n : Int) < lines.length := hclosed
        omega
      simp only [if_pos hf, Block.span, sliceLines_append_right behind i hle]
    · next hf =>
      rw [if_neg hf] at he
      obtain ⟨m, hb⟩ := hclosed
      obtain ⟨e, hlt', he₁, -⟩ := Block.braceEnd?_append_right behind hb
      have hen : (e : Int) = n := Option.some.inj (he₁.symm.trans he)
      have hm : min ((n : Int) + 1) ((lines ++ behind).length : Nat) = ((n + 1 : Nat) : Int) := by
        rw [List.length_append]
        omega
      have hm' : min ((n : Int) + 1) (lines.length : Nat) = ((n + 1 : Nat) : Int) := by omega
      simp only [if_neg hf, Block.span, hm, hm',
        sliceLines_append_right behind i (show n + 1 ≤ lines.length by omega)]

/-- The analysis of a function is local to its block: lines before a document move its entries,
and lines behind it leave alone those whose block ends within it. -/
theorem ofDocument_local (family : Family) (before lines behind : List Text) :
    (ofDocument family (before ++ lines)).filter
        (fun a => decide ((before.length : Int) ≤ a.candidate.startLine)) =
      (ofDocument family lines).map (shift before.length) ∧
    ∀ a ∈ ofDocument family lines, Closed family lines a.candidate →
      a ∈ ofDocument family (lines ++ behind) := by
  refine ⟨ofDocument_append_left family before lines, fun a ha hc => ?_⟩
  obtain ⟨i, hi⟩ := mem_ofDocument_iff.1 ha
  exact mem_ofDocument_iff.2 ⟨i, atLine?_append_right behind hi hc⟩

/-- A block with braces and an indented one, with a line behind both. -/
theorem ofDocument_local_two_blocks :
    let lines : List Text := ["function f() \x7b", "\x7d", "def g():", "  y", "z"]
    let behind : List Text := ["w"]
    let f : Analysis := ⟨⟨"f", 0, 1⟩, {}, {}⟩
    let g : Analysis := ⟨⟨"g", 2, 4⟩, {}, {}⟩
    (Closed .mixed lines f.candidate ∧ f ∈ ofDocument .mixed (lines ++ behind)) ∧
      Closed .mixed lines g.candidate ∧ g ∈ ofDocument .mixed (lines ++ behind) := by
  intro lines behind f g
  have hf : f ∈ ofDocument .mixed lines := by decide +kernel
  have hg : g ∈ ofDocument .mixed lines := by decide +kernel
  have hcf : Closed .mixed lines f.candidate := by
    refine ⟨0, _, rfl, rfl, ?_⟩
    rw [if_neg (by decide +kernel)]
    exact ⟨2, by decide +kernel⟩
  have hcg : Closed .mixed lines g.candidate := by
    refine ⟨2, _, rfl, rfl, ?_⟩
    rw [if_pos (by decide +kernel)]
    decide
  have hlocal := (ofDocument_local .mixed [] lines behind).2
  exact ⟨⟨hcf, hlocal f hf hcf⟩, hcg, hlocal g hg hcg⟩

end Analysis

end CostLens
