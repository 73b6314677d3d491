import CostLens.Analysis.Document
import CostLens.Proofs.Text.Lines

/-! # The entries of a document, line by line

The analysis of a document has at most one entry for each line. An entry is made from the line, the
end of its block and the text of the block, and from nothing else.
-/
namespace CostLens

namespace Block

variable {family : Family} {lines : List Text} {i : Nat} {line : Text}

theorem end?_of_line (h : lines[i]? = some line) :
    Block.end? family lines i =
      if family.ofLine line = .indent then indentEnd? lines i else braceEnd? lines i := by
  simp only [Block.end?, lineAt?_natCast, h, Option.bind_eq_bind, Option.bind_some]
  cases family.ofLine line <;> rfl

theorem text?_of_line (last : Int) (h : lines[i]? = some line) :
    text? family lines i last =
      some (if family.ofLine line = .indent then span lines i last
        else span lines i (min (last + 1) lines.length)) := by
  simp only [text?, lineAt?_natCast, h, Option.bind_eq_bind, Option.bind_some]
  cases family.ofLine line <;> rfl

theorem braceEnd?_natCast : braceEnd? lines i =
    some (((balanceOffset? false 0 (lines.drop i)).map fun (k : Nat) => (i : Int) + k).getD
      (min ((i : Int) + maxSpan) (lines.length - 1))) := by
  rw [braceEnd?, linesFrom?_natCast]
  simp only [Option.map_some]
  cases balanceOffset? false 0 (lines.drop i) <;> rfl

theorem indentEnd?_natCast {block : List Text} (h : lines.drop i = line :: block) :
    indentEnd? lines i =
      some ((((block.take maxSpan).findIdx? (isDedent (indentation line))).map
        fun (k : Nat) => (i : Int) + 1 + k).getD (min lines.length ((i : Int) + maxSpan))) := by
  simp only [indentEnd?, linesFrom?_natCast, h]
  cases (block.take maxSpan).findIdx? (isDedent (indentation line)) <;> rfl

end Block

namespace Analysis

/-- The entry for a name declared on a line, with the end and the text of its block. -/
def make (family : Family) (line name text : Text) (first last : Int) : Analysis :=
  let features := Features.ofSpan (family.ofLine line) text
  ⟨⟨name, first, last⟩, features.verdict, features⟩

/-- The entry for a line of a document. -/
def atLine? (family : Family) (lines : List Text) (i : Nat) : Option Analysis :=
  (Candidate.atLine? family lines i).bind (ofCandidate? family lines)

theorem ofDocument_eq (family : Family) (lines : List Text) :
    ofDocument family lines = (List.range lines.length).filterMap (atLine? family lines) :=
  List.filterMap_filterMap

theorem atLine?_eq_some_iff {family : Family} {lines : List Text} {i : Nat} {a : Analysis} :
    atLine? family lines i = some a ↔ ∃ line name last text,
      lines[i]? = some line ∧ Declaration.name? family line = some name ∧
      Block.end? family lines i = some last ∧ (i : Int) < last ∧
      Block.text? family lines i last = some text ∧ a = make family line name text i last := by
  constructor
  · intro h
    obtain ⟨c, hc, ha⟩ := Option.bind_eq_some_iff.1 h
    unfold Candidate.atLine? at hc
    cases hl : lines[i]? with
    | none => simp [hl] at hc
    | some line =>
      cases hn : Declaration.name? family line with
      | none => simp [hl, hn] at hc
      | some name =>
        cases he : Block.end? family lines i with
        | none => simp [hl, he] at hc
        | some last =>
          simp only [hl, hn, he, Option.bind_eq_bind, Option.bind_some] at hc
          split at hc
          · next hlt =>
            cases hc
            obtain ⟨text, ht, ha⟩ := Option.bind_eq_some_iff.1 ha
            simp only [lineAt?_natCast, hl, Option.bind_eq_bind, Option.bind_some] at ha
            exact ⟨line, name, last, text, rfl, hn, rfl, hlt, ht, (Option.some.inj ha).symm⟩
          · cases hc
  · rintro ⟨line, name, last, text, hl, hn, he, hlt, ht, rfl⟩
    simp [atLine?, Candidate.atLine?, ofCandidate?, hl, hn, he, hlt, ht, lineAt?_natCast, make]

theorem startLine_of_atLine? {family : Family} {lines : List Text} {i : Nat} {a : Analysis}
    (h : atLine? family lines i = some a) : a.candidate.startLine = i := by
  obtain ⟨_, _, _, _, _, _, _, _, _, rfl⟩ := atLine?_eq_some_iff.1 h
  rfl

theorem mem_ofDocument_iff {family : Family} {lines : List Text} {a : Analysis} :
    a ∈ ofDocument family lines ↔ ∃ i, atLine? family lines i = some a := by
  rw [ofDocument_eq, List.mem_filterMap]
  constructor
  · rintro ⟨i, _, h⟩
    exact ⟨i, h⟩
  · rintro ⟨i, h⟩
    obtain ⟨line, _, _, _, hl, _⟩ := atLine?_eq_some_iff.1 h
    obtain ⟨hi, _⟩ := List.getElem?_eq_some_iff.1 hl
    exact ⟨i, List.mem_range.2 hi, h⟩

/-- The entries of a document that start on a line. -/
def startingAt (family : Family) (lines : List Text) (i : Nat) : List Analysis :=
  (ofDocument family lines).filter fun a => decide (a.candidate.startLine = (i : Int))

theorem startingAt_eq (family : Family) (lines : List Text) (i : Nat) :
    startingAt family lines i = (atLine? family lines i).toList := by
  have hall : ∀ n, ((List.range n).filterMap (atLine? family lines)).filter
      (fun a => decide (a.candidate.startLine = (i : Int))) =
        if i < n then (atLine? family lines i).toList else [] := by
    intro n
    induction n with
    | zero => rfl
    | succ n ih =>
      rw [List.range_succ, List.filterMap_append, List.filter_append, ih]
      cases ha : atLine? family lines n with
      | none =>
        by_cases hi : i = n
        · subst hi
          simp [ha]
        · have hlt : i < n + 1 ↔ i < n := by omega
          simp [ha, hlt]
      | some a =>
        have hs := startLine_of_atLine? ha
        by_cases hi : i = n
        · subst hi
          simp [ha, hs]
        · have hlt : i < n + 1 ↔ i < n := by omega
          have hne : ¬ (n : Int) = i := by omega
          simp [ha, hs, hlt, hne]
  rw [startingAt, ofDocument_eq, hall]
  split
  · rfl
  · next hi =>
    cases ha : atLine? family lines i with
    | none => rfl
    | some a =>
      obtain ⟨_, _, _, _, hl, _⟩ := atLine?_eq_some_iff.1 ha
      exact absurd (List.getElem?_eq_some_iff.1 hl).1 hi

end Analysis

end CostLens
