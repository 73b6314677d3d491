import CostLens.Proofs.Run.Basic
import CostLens.Request

/-! # Targets stand on different lines

The candidates of a document stand on different lines of it, and so do the targets of a request:
they are some of the candidates, or one range of lines.
-/
namespace CostLens

namespace Candidate

theorem startLine_of_atLine? {family : Family} {lines : List Text} {i : Nat} {c : Candidate}
    (h : atLine? family lines i = some c) : c.startLine = i := by
  unfold atLine? at h
  obtain ⟨line, -, h⟩ := Option.bind_eq_some_iff.1 h
  obtain ⟨name, -, h⟩ := Option.bind_eq_some_iff.1 h
  obtain ⟨last, -, h⟩ := Option.bind_eq_some_iff.1 h
  split at h
  · cases h
    rfl
  · cases h

theorem scan_sorted (family : Family) (lines : List Text) :
    (scan family lines).Pairwise fun a b => a.startLine < b.startLine := by
  unfold scan
  refine List.Pairwise.filterMap _ ?_ List.pairwise_lt_range
  intro i j hij a ha b hb
  rw [startLine_of_atLine? ha, startLine_of_atLine? hb]
  omega

theorem mem_scan_bounds {family : Family} {lines : List Text} {c : Candidate}
    (h : c ∈ scan family lines) : 0 ≤ c.startLine ∧ c.startLine < lines.length := by
  obtain ⟨i, hi, hc⟩ := List.mem_filterMap.1 h
  rw [startLine_of_atLine? hc]
  have := List.mem_range.1 hi
  omega

end Candidate

namespace Request

theorem lineBound_nonneg {name : Text} {v : Json} {n : Int} (h : lineBound name v = .ok n) :
    0 ≤ n := by
  unfold lineBound at h
  split at h
  · cases h
  split at h
  · cases h
  · cases h
    omega

theorem span_bounds {candidates : List Candidate} {count : Nat} {function : Option Text}
    {first last : Text} {c : Candidate} (h : span candidates count function first last = .ok c) :
    0 ≤ c.startLine ∧ c.startLine < c.endLine ∧ c.endLine ≤ count := by
  obtain ⟨a, hf, h⟩ := exists_of_bind_eq_ok h
  obtain ⟨b, hl, h⟩ := exists_of_bind_eq_ok h
  obtain ⟨_, hc, h⟩ := exists_of_bind_eq_ok h
  have hlines : c.startLine = a ∧ c.endLine = b := by
    cases function with
    | some name =>
      cases h
      exact ⟨rfl, rfl⟩
    | none =>
      simp only at h
      split at h
      · cases h
        exact ⟨rfl, rfl⟩
      · cases h
  have ha := lineBound_nonneg hf
  have hspan : a < b ∧ b ≤ count := by
    unfold checkSpan at hc
    split at hc
    · cases hc
    split at hc
    · cases hc
    · omega
  omega

/-- The targets of a request are one range of lines or some of the candidates. -/
theorem targets_cases {path : Text} {count : Nat} {candidates targets : List Candidate}
    {t : Target} (h : Request.targets path count candidates t = .ok targets) :
    (∃ first last c, span candidates count t.function first last = .ok c ∧ targets = [c]) ∨
      targets.Sublist candidates := by
  obtain ⟨function, first?, last?⟩ := t
  cases first? with
  | some first =>
    cases last? with
    | none => cases h
    | some last =>
      obtain ⟨c, hs, h⟩ := exists_of_bind_eq_ok h
      cases h
      exact .inl ⟨first, last, c, hs, rfl⟩
  | none =>
    cases last? with
    | some last => cases h
    | none =>
      cases function with
      | none =>
        cases h
        exact .inr (List.Sublist.refl _)
      | some name =>
        simp only [Request.targets] at h
        split at h
        · cases h
        · cases h
          exact .inr List.filter_sublist

/-- The targets of a request stand on different lines of the document. -/
theorem targets_lines {path : Text} {family : Family} {lines : List Text} {t : Target}
    {targets : List Candidate}
    (h : Request.targets path lines.length (Candidate.scan family lines) t = .ok targets) :
    targets.Pairwise (fun a b => a.startLine ≠ b.startLine) ∧
      ∀ c ∈ targets, 0 ≤ c.startLine ∧ c.startLine < lines.length := by
  rcases targets_cases h with ⟨first, last, c, hs, rfl⟩ | hs
  · obtain ⟨h0, hlt, hle⟩ := span_bounds hs
    exact ⟨List.pairwise_singleton _ _, List.forall_mem_singleton.2 ⟨h0, by omega⟩⟩
  · refine ⟨((Candidate.scan_sorted family lines).sublist hs).imp ?_, ?_⟩
    · intro a b hlt
      omega
    · intro c hc
      exact Candidate.mem_scan_bounds (hs.subset hc)

end Request

end CostLens
