import CostLens.Proofs.Json.RoundTrip
import CostLens.Proofs.Source.Scan

/-! # What a request selects

The bounds of a candidate, written out and given as a request, select that candidate again: numbers
are read back, the range passes the check of bounds although the end of a block belongs to it or
not, and the name is found again since no two candidates start on one line. Whatever is selected
lies within the document, so its block can be taken from it.
-/
namespace CostLens

/-! ## Numbers read back -/

theorem dropWhile_of_forall_not {p : Char → Bool} {t : Text} (h : ∀ c ∈ t, p c = false) :
    t.dropWhile p = t := by
  cases t with
  | nil => rfl
  | cons c t => exact List.dropWhile_cons_of_neg (by simp [h c List.mem_cons_self])

theorem stripped_of_forall_not {p : Char → Bool} {t : Text} (h : ∀ c ∈ t, p c = false) :
    ((t.dropWhile p).reverse.dropWhile p).reverse = t := by
  have hr : ∀ c ∈ t.reverse, p c = false := fun c hc => h c (List.mem_reverse.1 hc)
  rw [dropWhile_of_forall_not h, dropWhile_of_forall_not hr, List.reverse_reverse]

theorem isBlank_of_isDigit {c : Char} (h : c.isDigit = true) : isBlank c = false :=
  isBlank_of_isWord (isWord_of_isAlphanum (by simp [Char.isAlphanum, h]))

namespace Integer

theorem digitValue?_of_isDigit {c : Char} (h : c.isDigit = true) :
    digitValue? c = some (c.toNat - '0'.toNat) := by
  have hc : '0' ≤ c ∧ c ≤ '9' := by simpa [Char.isDigit, Char.le_def] using h
  exact if_pos hc

theorem digits?_of_isDigit (afterDigit : Bool) {t : Text} (h : ∀ c ∈ t, c.isDigit = true)
    (ht : afterDigit = true ∨ t ≠ []) :
    digits? afterDigit t = some (t.map fun c => c.toNat - '0'.toNat) := by
  induction t generalizing afterDigit with
  | nil =>
    have ha : afterDigit = true := ht.resolve_right (fun hne => hne rfl)
    simp [digits?, ha]
  | cons c t ih =>
    have hd := h c List.mem_cons_self
    have hc : c ≠ '_' := by
      rintro rfl
      revert hd
      decide
    have hrest := ih true (fun d hm => h d (List.mem_cons_of_mem c hm)) (.inl rfl)
    simp [digits?, hc, digitValue?_of_isDigit hd, hrest]

theorem natural?_natText {n : Nat} (h : (natText n).length ≤ maxDigits) :
    natural? (natText n) = some n := by
  have hd := digits?_of_isDigit false (fun _ => isDigit_of_mem_natText) (.inr (natText_ne_nil n))
  have hv : ofDigits ((natText n).map fun c => c.toNat - '0'.toNat) = n := by
    rw [ofDigits, List.foldl_map]
    exact Json.Reader.digitsValue_natText n
  rw [natural?, hd]
  simp only [List.length_map, h, ↓reduceIte, hv]

theorem read?_natText {n : Nat} (h : (natText n).length ≤ maxDigits) :
    read? (natText n) = some (n : Int) := by
  have hpad : ∀ c ∈ natText n, isPadding c = false := by
    intro c hc
    simp [isPadding, isBlank_of_isDigit (isDigit_of_mem_natText hc)]
  obtain ⟨c, t, ht⟩ := List.exists_cons_of_ne_nil (natText_ne_nil n)
  have hc : c.isDigit = true := isDigit_of_mem_natText (n := n) (ht ▸ List.mem_cons_self)
  -- the first digit is no sign
  have hsign : c ≠ '-' ∧ c ≠ '+' := by
    constructor <;> rintro rfl <;> revert hc <;> decide
  unfold read?
  simp only [stripped_of_forall_not hpad]
  split
  · next heq => exact absurd (List.cons.inj (ht.symm.trans heq)).1 hsign.1
  · next heq => exact absurd (List.cons.inj (ht.symm.trans heq)).1 hsign.2
  · rw [natural?_natText h]
    rfl

end Integer

/-! ## Requests -/

namespace Candidate

variable {family : Family} {lines : List Text} {c d : Candidate}

theorem eq_of_startLine (hc : c ∈ scan family lines) (hd : d ∈ scan family lines)
    (h : c.startLine = d.startLine) : c = d := by
  obtain ⟨i, hi⟩ := mem_scan_iff.1 hc
  obtain ⟨j, hj⟩ := mem_scan_iff.1 hd
  have hij : i = j := by
    rw [startLine_of_atLine? hi, startLine_of_atLine? hj] at h
    exact Int.ofNat_inj.1 h
  subst hij
  exact Option.some.inj (hi.symm.trans hj)

theorem find?_startLine (hc : c ∈ scan family lines) :
    (scan family lines).find? (fun d => d.startLine == c.startLine) = some c := by
  have hsome : ((scan family lines).find? fun d => d.startLine == c.startLine).isSome := by
    rw [List.find?_isSome]
    exact ⟨c, hc, by simp⟩
  obtain ⟨d, hd⟩ := Option.isSome_iff_exists.1 hsome
  have hs : d.startLine = c.startLine := by simpa using List.find?_some hd
  rw [hd, eq_of_startLine (List.mem_of_find?_eq_some hd) hc hs]

/-- A candidate is a range of lines that the check of bounds accepts. -/
theorem mem_scan_range (hc : c ∈ scan family lines) :
    0 ≤ c.startLine ∧ c.startLine < c.endLine ∧ c.endLine ≤ lines.length := by
  obtain ⟨i, hi⟩ := mem_scan_iff.1 hc
  obtain ⟨line, name, last, hl, -, -, hlt, rfl⟩ := atLine?_eq_some_iff.1 hi
  obtain ⟨hbrace, hindent⟩ := endLine_le hi hl
  refine ⟨Int.natCast_nonneg i, hlt, ?_⟩
  cases hf : family.ofLine line with
  | mixed => exact absurd hf (family.ofLine_ne_mixed line)
  | brace =>
    have hle := hbrace hf
    simp only at hle ⊢
    omega
  | indent =>
    have hle := hindent hf
    simp only at hle ⊢
    omega

end Candidate

namespace Analysis

variable {family : Family} {lines : List Text} {c : Candidate}

/-- A block that begins on a line of the document has an analysis. -/
theorem exists_ofCandidate? (h0 : 0 ≤ c.startLine) (hlt : c.startLine < lines.length) :
    ∃ a, ofCandidate? family lines c = some a ∧ a.candidate = c := by
  obtain ⟨name, first, last⟩ := c
  obtain ⟨i, rfl⟩ := Int.eq_ofNat_of_zero_le h0
  have hi : i < lines.length := Int.ofNat_lt.1 hlt
  have hl : lines[i]? = some (lines.get ⟨i, hi⟩) := List.getElem?_eq_getElem hi
  obtain ⟨text, ht⟩ : ∃ text, Block.text? family lines i last = some text :=
    ⟨_, Block.text?_of_line last hl⟩
  refine ⟨make family (lines.get ⟨i, hi⟩) name text i last, ?_, rfl⟩
  simp only [ofCandidate?, ht, lineAt?_natCast, hl, Option.bind_eq_bind, Option.bind_some]
  rfl

/-- The analysis of a candidate is the one entry of the document for its line. -/
theorem mem_ofDocument_of_mem_scan {a : Analysis} (hc : c ∈ Candidate.scan family lines)
    (ha : ofCandidate? family lines c = some a) :
    a ∈ ofDocument family lines ∧
      ∀ b ∈ ofDocument family lines, b.candidate.startLine = c.startLine → b = a := by
  refine ⟨List.mem_filterMap.2 ⟨c, hc, ha⟩, ?_⟩
  intro b hb hs
  obtain ⟨d, hd, hb⟩ := List.mem_filterMap.1 hb
  obtain ⟨h0, hlt, hle⟩ := Candidate.mem_scan_range hd
  obtain ⟨b', hb', hcand⟩ : ∃ b', ofCandidate? family lines d = some b' ∧ b'.candidate = d :=
    exists_ofCandidate? h0 (Int.lt_of_lt_of_le hlt hle)
  obtain rfl : b' = b := Option.some.inj (hb'.symm.trans hb)
  have hdc : d = c := by
    apply Candidate.eq_of_startLine hd hc
    rw [← hs, hcand]
  rw [hdc, ha] at hb
  exact (Option.some.inj hb).symm

end Analysis

namespace Request

theorem lineBound_natText (name : Text) {n : Nat}
    (h : (natText n).length ≤ Integer.maxDigits) :
    lineBound name (.str (intText n)) = .ok (n : Int) := by
  have htext : intText n = natText n := by
    rw [intText, if_neg (by omega), Int.natAbs_natCast]
  have htrim : trim (natText n) = natText n :=
    stripped_of_forall_not fun c hc => isBlank_of_isDigit (isDigit_of_mem_natText hc)
  have hread : number? (.str (intText n)) = some (n : Int) := by
    rw [number?, Json.plain, htext, htrim]
    · exact Integer.read?_natText h
    · exact fun _ h => nomatch h
    · exact fun _ h => nomatch h
  rw [lineBound, hread]
  exact if_neg (by omega)

variable {family : Family} {lines : List Text} {c : Candidate}

theorem span_of_mem_scan (hc : c ∈ Candidate.scan family lines) (hs : Json.IsShort c.endLine) :
    span (Candidate.scan family lines) lines.length none (intText c.startLine)
      (intText c.endLine) = .ok c := by
  obtain ⟨h0, hlt, hle⟩ := Candidate.mem_scan_range hc
  have hfind := Candidate.find?_startLine hc
  obtain ⟨name, first, last⟩ := c
  simp only at h0 hlt hle hfind hs ⊢
  obtain ⟨a, rfl⟩ := Int.eq_ofNat_of_zero_le h0
  obtain ⟨b, rfl⟩ := Int.eq_ofNat_of_zero_le (a := last) (by omega)
  have hb : (natText b).length ≤ Integer.maxDigits := hs
  have ha : (natText a).length ≤ Integer.maxDigits := by
    rw [length_natText_le_iff (by decide)] at hb ⊢
    omega
  have hspan : checkSpan (a : Int) b lines.length = .ok () := by
    rw [checkSpan, if_neg (by omega), if_neg (by omega)]
  rw [span, lineBound_natText _ ha, lineBound_natText _ hb]
  simp only [bind, Except.bind, hspan, hfind]
  rfl

/-- The bounds of a candidate, given as a request, select it alone, and its analysis is the entry of
the document for it. Every target of a request that is accepted lies within the document, so that
it has an analysis. An end is read back as long as it has no more digits than may be read. -/
theorem targets_of_scan (path : Text) (family : Family) (lines : List Text) :
    (∀ c ∈ Candidate.scan family lines, Json.IsShort c.endLine →
      Request.targets path lines.length (Candidate.scan family lines)
        { first := some (intText c.startLine), last := some (intText c.endLine) } = .ok [c] ∧
      ∃ a ∈ Analysis.ofDocument family lines, a.candidate = c ∧
        Analysis.ofCandidate? family lines c = some a ∧
        ∀ b ∈ Analysis.ofDocument family lines, b.candidate.startLine = c.startLine → b = a) ∧
    ∀ (t : Target) (targets : List Candidate),
      Request.targets path lines.length (Candidate.scan family lines) t = .ok targets →
      ∀ c ∈ targets, 0 ≤ c.startLine ∧ c.startLine < c.endLine ∧ c.endLine ≤ lines.length ∧
        ∃ a, Analysis.ofCandidate? family lines c = some a ∧ a.candidate = c := by
  have hanalysis : ∀ c : Candidate,
      0 ≤ c.startLine ∧ c.startLine < c.endLine ∧ c.endLine ≤ lines.length →
      ∃ a, Analysis.ofCandidate? family lines c = some a ∧ a.candidate = c := by
    rintro c ⟨h0, hlt, hle⟩
    exact Analysis.exists_ofCandidate? h0 (Int.lt_of_lt_of_le hlt hle)
  constructor
  · intro c hc hs
    obtain ⟨a, ha, hcand⟩ := hanalysis c (Candidate.mem_scan_range hc)
    obtain ⟨hmem, honly⟩ := Analysis.mem_ofDocument_of_mem_scan hc ha
    refine ⟨?_, a, hmem, hcand, ha, honly⟩
    simp only [Request.targets, span_of_mem_scan hc hs]
    rfl
  · intro t targets ht c hc
    have hrange : 0 ≤ c.startLine ∧ c.startLine < c.endLine ∧ c.endLine ≤ lines.length := by
      rcases targets_cases ht with ⟨first, last, d, hs, rfl⟩ | hs
      · rw [List.mem_singleton.1 hc]
        exact span_bounds hs
      · exact Candidate.mem_scan_range (hs.subset hc)
    exact ⟨hrange.1, hrange.2.1, hrange.2.2, hanalysis c hrange⟩

/-- A block with braces that ends on the last line, selected by its bounds, and a range of lines
with a name of its own that reaches to the end of the document. -/
theorem targets_of_scan_both :
    let lines : List Text := ["def g():", "  y", "function f() \x7b", "\x7d"]
    let f : Candidate := ⟨"f", 2, 3⟩
    let h : Candidate := ⟨"h", 1, 4⟩
    (f ∈ Candidate.scan .mixed lines ∧ Json.IsShort f.endLine ∧
      Request.targets "a" lines.length (Candidate.scan .mixed lines)
        { first := some (intText f.startLine), last := some (intText f.endLine) } = .ok [f]) ∧
    Request.targets "a" lines.length (Candidate.scan .mixed lines)
        { function := some "h".toList, first := some " +1 ".toList, last := some "0_4".toList } =
      .ok [h] ∧
    ∃ a, Analysis.ofCandidate? .mixed lines h = some a ∧ a.candidate = h := by
  intro lines f h
  have hf : f ∈ Candidate.scan .mixed lines := by decide +kernel
  have hspan : Request.targets "a" lines.length (Candidate.scan .mixed lines)
      { function := some "h".toList, first := some " +1 ".toList, last := some "0_4".toList } =
      .ok [h] := eq_ok_of_toOption (by decide +kernel)
  obtain ⟨hback, hrange⟩ := targets_of_scan "a" .mixed lines
  refine ⟨⟨hf, by decide, (hback f hf (by decide)).1⟩, hspan, ?_⟩
  exact (hrange _ _ hspan _ List.mem_cons_self).2.2.2

end Request

end CostLens
