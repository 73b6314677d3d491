import CostLens.Analysis.Explanation
import CostLens.Proofs.Analysis.Verdict
import CostLens.Proofs.Text.Order
import CostLens.Proofs.Text.Phrase

/-! # Explanations and the features behind them

An explanation chooses its sentences by the labels of a verdict. It is read here as a list of
sentences chosen by the rates of growth themselves, so that what it says is compared with the
features sentence by sentence. A phrase is found in the text of one sentence only: most sentences are
fixed texts, and those filled with names or numbers have few signs before a space.
-/
namespace CostLens.Explanation

/-- A line of an explanation. -/
inductive Sentence
  | time (g : Growth)
  | noLoops
  | binarySearch
  | onePass
  | twoLoops
  | quadraticSort
  | linearithmicSort
  | recursion (names : List Text)
  | loops (depth : Int)
  | space (linear : Bool)
  | containers (linear : Bool)
  | structures (kinds : List Structure)
  | potential
  | hashing
  | memoizing
  deriving DecidableEq

namespace Sentence

/-- What follows the label in the first line. -/
def rate : Growth → Text
  | .constant => " - Constant time"
  | .logarithmic => " - Logarithmic time"
  | .linear => " - Linear time"
  | .quadratic => " - Quadratic time"
  | .linearithmic => ""
  | .exponential => " - Exponential time"
  | .power _ => " - Polynomial time"

def text : Sentence → Text
  | time g => "Time Complexity: " ++ g.label ++ rate g
  | noLoops => "  • No loops, recursion or sorting were detected."
  | binarySearch => "  • The function looks like a binary search."
  | onePass => "  • The function iterates through its input once."
  | twoLoops => "  • The function uses two nested loops."
  | quadraticSort => "  • The function sorts with a built-in or quadratic sort."
  | linearithmicSort => "  • The function uses quicksort or mergesort."
  | recursion names => "  • Recursive calls detected: " ++ joinWith ", " names ++ "."
  | loops depth => "  • The function uses " ++ intText depth ++ " nested loops."
  | space false => "\nSpace Complexity: O(1) - Constant space"
  | space true => "\nSpace Complexity: O(n) - Linear space"
  | containers false => "  • No input-sized arrays or maps are constructed."
  | containers true => "  • The function builds arrays or maps that grow with the input."
  | structures kinds => "\nData structures: " ++ joinWith ", " (kinds.map Structure.label)
  | potential => "\nOptimization Potential:"
  | hashing => "  • Consider using hash maps for O(1) lookups."
  | memoizing => "  • Consider memoization to avoid redundant recursive calculations."

/-- The sentence that gives the reason for a time. -/
def reason (x : Features) : Growth → Sentence
  | .constant => noLoops
  | .logarithmic => binarySearch
  | .linear => onePass
  | .quadratic => if 2 ≤ x.depth then twoLoops else quadraticSort
  | .linearithmic => linearithmicSort
  | .exponential => recursion (sortedNames x.recursiveNames)
  | .power _ => loops x.depth

def found (x : Features) : List Sentence :=
  if x.structures.isEmpty then [] else [structures (Structure.all.filter x.structures.contains)]

def advice (x : Features) (g : Growth) : List Sentence :=
  let lookups := if x.structures.contains .hashMap then [] else [hashing]
  match g with
  | .quadratic | .power _ => potential :: lookups
  | .exponential => potential :: (lookups ++ [memoizing])
  | _ => []

/-- The sentences of an explanation, in order. -/
def chosen (x : Features) : List Sentence :=
  let linear := x.structures.any Structure.isLinear
  time x.verdict.time :: reason x x.verdict.time :: space linear :: containers linear ::
    (found x ++ advice x x.verdict.time)

end Sentence

open Sentence

theorem timeLines_label (g : Growth) (x : Features) :
    timeLines g.label x = [(time g).text, (reason x g).text] := by
  cases g with
  | quadratic =>
    have hlines : timeLines Growth.quadratic.label x = [(time .quadratic).text,
        if 2 ≤ x.depth then twoLoops.text else quadraticSort.text] := rfl
    rw [hlines, reason]
    split <;> rfl
  | _ => rfl

theorem spaceLines_label (x : Features) :
    spaceLines x.verdict.space.label = [(space (x.structures.any Structure.isLinear)).text,
      (containers (x.structures.any Structure.isLinear)).text] := by
  unfold Features.verdict
  cases x.structures.any Structure.isLinear <;> rfl

theorem structureLines_eq (x : Features) : structureLines x = (found x).map text := by
  unfold structureLines found
  split <;> rfl

theorem adviceLines_label (g : Growth) (x : Features) :
    adviceLines g.label x = (advice x g).map text := by
  unfold adviceLines advice
  cases x.structures.contains .hashMap <;> cases g <;> rfl

theorem ofVerdict_eq (x : Features) :
    ofVerdict x.verdict x = joinLines ((chosen x).map text) := by
  rw [ofVerdict, ofLabels, timeLines_label, spaceLines_label, structureLines_eq, adviceLines_label]
  simp [chosen]

/-! ## Which sentences are chosen -/

namespace Sentence

/-- Whether a sentence gives a reason for a time. -/
def isReason : Sentence → Bool
  | noLoops | binarySearch | onePass | twoLoops | quadraticSort | linearithmicSort
  | recursion _ | loops _ => true
  | _ => false

section
variable {x : Features} {s : Sentence}

theorem isReason_reason (x : Features) (g : Growth) : (reason x g).isReason = true := by
  cases g with
  | quadratic =>
    rw [reason]
    split <;> rfl
  | _ => rfl

theorem mem_advice {g : Growth} (h : s ∈ advice x g) : s ∈ [potential, hashing, memoizing] := by
  have hsub : advice x g ⊆ [potential, hashing, memoizing] := by
    unfold advice
    cases x.structures.contains .hashMap <;> cases g <;> simp
  exact hsub h

theorem mem_chosen_cases (h : s ∈ chosen x) :
    s = time x.verdict.time ∨ s = reason x x.verdict.time ∨
    s = space (x.structures.any Structure.isLinear) ∨
    s = containers (x.structures.any Structure.isLinear) ∨
    (∃ kinds, s = structures kinds) ∨ s ∈ [potential, hashing, memoizing] := by
  simp only [chosen, List.mem_cons, List.mem_append] at h
  rcases h with h | h | h | h | h | h
  · exact .inl h
  · exact .inr (.inl h)
  · exact .inr (.inr (.inl h))
  · exact .inr (.inr (.inr (.inl h)))
  · unfold found at h
    split at h
    · cases h
    · exact .inr (.inr (.inr (.inr (.inl ⟨_, List.mem_singleton.1 h⟩))))
  · exact .inr (.inr (.inr (.inr (.inr (mem_advice h)))))

theorem mem_chosen_iff_of_isReason (h : s.isReason = true) :
    s ∈ chosen x ↔ reason x x.verdict.time = s := by
  constructor
  · intro hm
    obtain rfl | rfl | rfl | rfl | ⟨kinds, rfl⟩ | hm := mem_chosen_cases hm
    · cases h
    · rfl
    · cases h
    · cases h
    · cases h
    · simp only [List.mem_cons, List.not_mem_nil, or_false] at hm
      rcases hm with rfl | rfl | rfl <;> cases h
  · rintro rfl
    simp [chosen]

theorem containers_mem_chosen_iff {linear : Bool} :
    containers linear ∈ chosen x ↔ x.structures.any Structure.isLinear = linear := by
  constructor
  · intro hm
    obtain hm | hm | hm | hm | ⟨kinds, hm⟩ | hm := mem_chosen_cases hm
    · cases hm
    · have hr := isReason_reason x x.verdict.time
      rw [← hm] at hr
      cases hr
    · cases hm
    · exact (containers.inj hm).symm
    · cases hm
    · simp at hm
  · rintro rfl
    simp [chosen]

theorem exists_grounds (x : Features) (h : s.isReason = true) :
    ∃ g, x.Grounds g ∧ (s ∈ chosen x ↔ reason x g = s) :=
  ⟨x.verdict.time, x.verdict_grounds, mem_chosen_iff_of_isReason h⟩

theorem any_isLinear_iff {kinds : List Structure} :
    kinds.any Structure.isLinear = true ↔ .array ∈ kinds ∨ .hashMap ∈ kinds := by
  rw [List.any_eq_true]
  constructor
  · rintro ⟨kind, hm, hl⟩
    cases kind with
    | array => exact .inl hm
    | hashMap => exact .inr hm
    | _ => cases hl
  · rintro (hm | hm)
    · exact ⟨_, hm, rfl⟩
    · exact ⟨_, hm, rfl⟩

theorem noLoops_mem_chosen_iff : noLoops ∈ chosen x ↔ x.depth < 1 ∧ x.recursiveNames = [] ∧
    x.idioms.quadraticSort = false ∧ x.idioms.linearithmicSort = false ∧
      x.idioms.binarySearch = false := by
  obtain ⟨g, hg, hm⟩ := exists_grounds (s := noLoops) x rfl
  rw [hm]
  cases hg <;> simp [reason, *]
  omega

theorem twoLoops_mem_chosen_iff :
    twoLoops ∈ chosen x ↔ x.depth = 2 ∧ x.idioms.linearithmicSort = false := by
  obtain ⟨g, hg, hm⟩ := exists_grounds (s := twoLoops) x rfl
  rw [hm]
  cases hg <;> simp [reason, *] <;> omega

theorem linearithmicSort_mem_chosen_iff :
    linearithmicSort ∈ chosen x ↔ x.idioms.linearithmicSort = true := by
  obtain ⟨g, hg, hm⟩ := exists_grounds (s := linearithmicSort) x rfl
  rw [hm]
  cases hg <;> simp [reason, *]

theorem quadraticSort_of_mem_chosen : quadraticSort ∈ chosen x → x.idioms.quadraticSort = true := by
  obtain ⟨g, hg, hm⟩ := exists_grounds (s := quadraticSort) x rfl
  rw [hm]
  cases hg <;> simp [reason, *]

theorem binarySearch_of_mem_chosen : binarySearch ∈ chosen x → x.idioms.binarySearch = true := by
  obtain ⟨g, hg, hm⟩ := exists_grounds (s := binarySearch) x rfl
  rw [hm]
  cases hg <;> simp [reason, *]

theorem depth_of_loops_mem_chosen {depth : Int} :
    loops depth ∈ chosen x → x.depth = depth ∧ 3 ≤ x.depth := by
  obtain ⟨g, hg, hm⟩ := exists_grounds (s := loops depth) x rfl
  rw [hm]
  cases hg <;> simp [reason, *]

theorem names_of_recursion_mem_chosen {names : List Text} :
    recursion names ∈ chosen x → sortedNames x.recursiveNames = names ∧ x.recursiveNames ≠ [] := by
  obtain ⟨g, hg, hm⟩ := exists_grounds (s := recursion names) x rfl
  rw [hm]
  cases hg <;> simp [reason, *]

end

end Sentence

/-! ## Which sentence a phrase is from -/

/-- The signs that may stand before a space in a sentence filled with names, labels or an exponent. -/
def filledSigns : Text := " •e:s,nd)-lah"

namespace Sentence

/-- The sentences of one text. -/
def fixed : List Sentence :=
  [time .constant, time .logarithmic, time .linear, time .linearithmic, time .quadratic,
    time .exponential, noLoops, binarySearch, onePass, twoLoops, quadraticSort, linearithmicSort,
    space false, space true, containers false, containers true, potential, hashing, memoizing]

/-- The names in a sentence are words. -/
def Wordy : Sentence → Prop
  | recursion names => ∀ n ∈ names, ∀ c ∈ n, isWord c = true
  | _ => True

theorem isDigit_filledSigns {c : Char} (h : c ∈ filledSigns) : c.isDigit = false := by
  have hall : filledSigns.all (fun c => !c.isDigit) = true := by decide
  simpa using List.all_eq_true.1 hall c h

theorem space_notMem_word {n : Text} (h : ∀ c ∈ n, isWord c = true) : ' ' ∉ n := by
  intro hm
  exact absurd (h ' ' hm) (by decide +kernel)

theorem label_power (e : Int) : Growth.label (.power e) = "O(n^" ++ intText e ++ ")" := rfl

theorem text_power (e : Int) : (time (.power e)).text =
    "Time Complexity: " ++ Growth.label (.power e) ++ " - Polynomial time" := rfl

theorem text_recursion (names : List Text) : (recursion names).text =
    "  • Recursive calls detected: " ++ joinWith ", " names ++ "." := rfl

theorem text_loops (depth : Int) : (loops depth).text =
    "  • The function uses " ++ intText depth ++ " nested loops." := rfl

theorem text_structures (kinds : List Structure) : (structures kinds).text =
    "\nData structures: " ++ joinWith ", " (kinds.map Structure.label) := rfl

theorem signs_around : ∀ part ∈ (["Time Complexity: ", " - Polynomial time",
    "  • Recursive calls detected: ", "  • The function uses ", " nested loops.",
    "\nData structures: "] : List Text), beforeSpaces part ⊆ filledSigns := by
  decide +kernel

theorem signs_power (e : Int) : beforeSpaces (time (.power e)).text ⊆ filledSigns := by
  intro c h
  have hlabel : ' ' ∉ Growth.label (.power e) := by
    simp [label_power, space_notMem_intText]
  rw [text_power] at h
  obtain h | ⟨-, h⟩ | h := mem_beforeSpaces_append h
  · rw [beforeSpaces_append_of_not_mem _ hlabel] at h
    exact signs_around _ (by simp) h
  · rw [label_power, ← List.append_assoc, List.getLast?_append] at h
    have hc : c = ')' := by simpa using h.symm
    rw [hc]
    decide
  · exact signs_around _ (by simp) h

theorem signs_listed {part : Text} {items : List Text} (hpart : beforeSpaces part ⊆ filledSigns)
    (hlast : part.getLast? = some ' ') (hitems : ∀ item ∈ items, beforeSpaces item ⊆ filledSigns) :
    beforeSpaces (part ++ joinWith ", " items) ⊆ filledSigns := by
  intro c h
  obtain h | ⟨-, h⟩ | h := mem_beforeSpaces_append h
  · exact hpart h
  · obtain rfl : ' ' = c := Option.some.inj (hlast.symm.trans h)
    decide
  · obtain rfl | rfl | ⟨item, hm, h⟩ := beforeSpaces_joinWith h
    · decide
    · decide
    · exact hitems item hm h

theorem signs_recursion {names : List Text} (hnames : (recursion names).Wordy) :
    beforeSpaces (recursion names).text ⊆ filledSigns := by
  intro c h
  rw [text_recursion] at h
  obtain h | ⟨hd, -⟩ | h := mem_beforeSpaces_append h
  · refine signs_listed (signs_around _ (by simp)) (by simp) ?_ h
    intro n hn
    rw [beforeSpaces_eq_nil (space_notMem_word (hnames n hn))]
    exact List.nil_subset _
  · simp at hd
  · simp [beforeSpaces] at h

theorem signs_loops (depth : Int) {c : Char} (h : c ∈ beforeSpaces (loops depth).text) :
    c ∈ filledSigns ∨ c.isDigit = true := by
  rw [text_loops] at h
  obtain h | ⟨-, h⟩ | h := mem_beforeSpaces_append h
  · rw [beforeSpaces_append_of_not_mem _ (space_notMem_intText depth)] at h
    exact .inl (signs_around _ (by simp) h)
  · obtain ⟨d, hd, hlast⟩ := exists_getLast?_intText depth
    rw [List.getLast?_append, hlast] at h
    have hc : c = d := by simpa using h.symm
    exact .inr (hc ▸ hd)
  · exact .inl (signs_around _ (by simp) h)

theorem signs_structures (kinds : List Structure) :
    beforeSpaces (structures kinds).text ⊆ filledSigns := by
  rw [text_structures]
  refine signs_listed (signs_around _ (by simp)) (by simp) ?_
  intro label hl
  obtain ⟨kind, -, rfl⟩ := List.mem_map.1 hl
  cases kind <;> decide

theorem mem_fixed_or_filled (s : Sentence) : s ∈ fixed ∨ (∃ e, s = time (.power e)) ∨
    (∃ names, s = recursion names) ∨ (∃ depth, s = loops depth) ∨ ∃ kinds, s = structures kinds := by
  cases s with
  | time g =>
    cases g with
    | power e => exact .inr (.inl ⟨e, rfl⟩)
    | _ => exact .inl (by decide)
  | recursion names => exact .inr (.inr (.inl ⟨names, rfl⟩))
  | loops depth => exact .inr (.inr (.inr (.inl ⟨depth, rfl⟩)))
  | structures kinds => exact .inr (.inr (.inr (.inr ⟨kinds, rfl⟩)))
  | space linear => cases linear <;> exact .inl (by decide)
  | containers linear => cases linear <;> exact .inl (by decide)
  | _ => exact .inl (by decide)

theorem signs_of_not_mem_fixed {s : Sentence} (hs : s.Wordy) (h : s ∉ fixed) {c : Char}
    (hc : c ∈ beforeSpaces s.text) :
    c ∈ filledSigns ∨ c.isDigit = true ∧ ∃ depth, s = loops depth := by
  obtain hf | ⟨e, rfl⟩ | ⟨names, rfl⟩ | ⟨depth, rfl⟩ | ⟨kinds, rfl⟩ := mem_fixed_or_filled s
  · exact absurd hf h
  · exact .inl (signs_power e hc)
  · exact .inl (signs_recursion hs hc)
  · exact (signs_loops depth hc).imp_right fun hd => ⟨hd, depth, rfl⟩
  · exact .inl (signs_structures kinds hc)

theorem wordy_of_mem_chosen {x : Features} (hx : ∀ n ∈ x.recursiveNames, ∀ c ∈ n, isWord c = true)
    {s : Sentence} (hs : s ∈ chosen x) : s.Wordy := by
  cases s with
  | recursion names =>
    intro n hn
    rw [← (names_of_recursion_mem_chosen hs).1, mem_sortedNames] at hn
    exact hx n hn
  | _ => trivial

end Sentence

/-- A phrase that stands in one of the fixed sentences only, and has a sign before a space that the
filled sentences do not have there. -/
def Tells (w : Text) (s : Sentence) : Prop :=
  newline ∉ w ∧ contains w s.text = true ∧ (∀ t ∈ fixed, contains w t.text = true → t = s) ∧
    (beforeSpaces w).any (fun c => !c.isDigit && !filledSigns.contains c) = true

instance (w : Text) (s : Sentence) : Decidable (Tells w s) :=
  inferInstanceAs (Decidable (_ ∧ _ ∧ _ ∧ _))

-- One evaluation of all the fixed texts: most of the work is to spell them out.
theorem fixed_texts :
    (∀ t ∈ fixed, 'R' ∉ t.text ∧ (beforeSpaces t.text).any Char.isDigit = false) ∧
    Tells "No loops, recursion or sorting were detected." noLoops ∧
    Tells "two nested loops" twoLoops ∧
    Tells "sorts with a built-in or quadratic sort" quadraticSort ∧
    Tells "looks like a binary search" binarySearch ∧
    Tells "quicksort or mergesort" linearithmicSort ∧
    Tells "The function builds arrays or maps that grow with the input." (containers true) := by
  decide +kernel

theorem exists_recursion {s : Sentence} (h : 'R' ∈ s.text) : ∃ names, s = recursion names := by
  have hnumber : ∀ i, 'R' ∉ intText i := notMem_intText (by decide)
  obtain hf | ⟨e, rfl⟩ | ⟨names, rfl⟩ | ⟨depth, rfl⟩ | ⟨kinds, rfl⟩ := mem_fixed_or_filled s
  · exact absurd h (fixed_texts.1 s hf).1
  · simp [text_power, label_power, hnumber] at h
  · exact ⟨names, rfl⟩
  · simp [text_loops, hnumber] at h
  · rw [text_structures, List.mem_append] at h
    rcases h with h | h
    · simp at h
    obtain h | ⟨label, hl, h⟩ := mem_joinWith h
    · simp at h
    · obtain ⟨kind, -, rfl⟩ := List.mem_map.1 hl
      cases kind <;> exact absurd h (by decide)

theorem newline_notMem_recursion {names : List Text} (h : (recursion names).Wordy) :
    newline ∉ (recursion names).text := by
  intro hm
  rw [text_recursion, List.mem_append, List.mem_append] at hm
  rcases hm with (hm | hm) | hm
  · exact absurd hm (by decide)
  · obtain hm | ⟨n, hn, hm⟩ := mem_joinWith hm
    · exact absurd hm (by decide)
    · exact absurd (h n hn newline hm) (by decide +kernel)
  · exact absurd hm (by decide)

theorem newline_notMem_time (g : Growth) : newline ∉ (time g).text := by
  cases g with
  | power e =>
    rw [text_power, label_power]
    simp only [List.mem_append, not_or]
    exact ⟨⟨by decide, ⟨by decide, notMem_intText (by decide) e⟩, by decide⟩, by decide⟩
  | _ => decide

/-- The number of loops that a sentence gives is a whole word of it. -/
theorem eq_of_infix_loops {k depth : Int}
    (h : "uses ".toList ++ intText k ++ " nested loops".toList <:+: (loops depth).text) :
    k = depth := by
  have hword : ' ' :: (intText k ++ [' ']) <:+: (loops depth).text :=
    List.IsInfix.trans ⟨"uses".toList, "nested loops".toList, by simp⟩ h
  have hm := mem_splitOn_of_infix (space_notMem_intText k) hword
  have htext : (loops depth).text =
      "  • The function uses".toList ++ ' ' :: (intText depth ++ ' ' :: "nested loops.".toList) := by
    simp [text_loops]
  have hother : ∀ word ∈ "  • The function uses".toList.splitOn ' ' ++
      "nested loops.".toList.splitOn ' ', word.any Char.isDigit = false := by decide +kernel
  have hnot : intText k ∉ "  • The function uses".toList.splitOn ' ' ++
      "nested loops.".toList.splitOn ' ' := by
    intro hk
    obtain ⟨d, hd, hlast⟩ := exists_getLast?_intText k
    exact List.any_eq_false.1 (hother _ hk) d (List.mem_of_getLast? hlast) hd
  rw [htext, List.splitOn_append_cons_self, List.splitOn_append_cons_self,
    List.splitOn_eq_singleton (space_notMem_intText depth)] at hm
  rw [List.mem_append, not_or] at hnot
  simp only [List.mem_append, List.mem_singleton, hnot.1, hnot.2, false_or, or_false] at hm
  exact intText_inj hm

/-- The explanation of the verdict on some features has a phrase. -/
def Says (x : Features) (w : Text) : Prop := contains w (ofVerdict x.verdict x) = true

section
variable {x : Features} {w : Text}

theorem says_iff_exists (hline : newline ∉ w) (hne : w ≠ []) :
    Says x w ↔ ∃ s ∈ chosen x, w <:+: s.text := by
  rw [Says, contains_iff, ofVerdict_eq, infix_joinLines_iff hline hne]
  simp only [List.mem_map, exists_exists_and_eq_and]

variable (hx : ∀ n ∈ x.recursiveNames, ∀ c ∈ n, isWord c = true)
include hx

theorem Tells.says_iff {s : Sentence} (hw : Tells w s) : Says x w ↔ s ∈ chosen x := by
  obtain ⟨hline, hs, hfixed, hsigns⟩ := hw
  obtain ⟨c, hc, hsign⟩ := List.any_eq_true.1 hsigns
  have hne : w ≠ [] := by
    rintro rfl
    cases hc
  rw [says_iff_exists hline hne]
  constructor
  · rintro ⟨t, ht, hw⟩
    by_cases hf : t ∈ fixed
    · rw [← hfixed t hf ((contains_iff _ _).2 hw)]
      exact ht
    · have hc := beforeSpaces_mono hw hc
      obtain hc | ⟨hd, -⟩ := signs_of_not_mem_fixed (wordy_of_mem_chosen hx ht) hf hc
      · simp [hc] at hsign
      · simp [hd] at hsign
  · intro h
    exact ⟨s, h, (contains_iff _ _).1 hs⟩

theorem says_loops {k : Int} (h : Says x ("uses " ++ intText k ++ " nested loops")) :
    loops k ∈ chosen x := by
  obtain ⟨d, hd, hlast⟩ := exists_getLast?_intText k
  have hsign : d ∈ beforeSpaces ("uses " ++ intText k ++ " nested loops") := by
    rw [beforeSpaces_append, List.getLast?_append, hlast]
    simp
  have hline : newline ∉ "uses ".toList ++ intText k ++ " nested loops".toList := by
    simp only [List.mem_append, not_or]
    exact ⟨⟨by decide, notMem_intText (by decide) k⟩, by decide⟩
  obtain ⟨s, hs, hw⟩ := (says_iff_exists hline (by simp)).1 h
  have hsign := beforeSpaces_mono hw hsign
  have hf : s ∉ fixed := by
    intro hf
    exact List.any_eq_false.1 (fixed_texts.1 s hf).2 d hsign hd
  obtain hc | ⟨-, depth, rfl⟩ := signs_of_not_mem_fixed (wordy_of_mem_chosen hx hs) hf hsign
  · rw [isDigit_filledSigns hc] at hd
    cases hd
  · rw [eq_of_infix_loops hw]
    exact hs

theorem recursion_line {line : Text} (hl : line ∈ splitLines (ofVerdict x.verdict x))
    (hw : contains "Recursive calls detected" line = true) :
    recursion (sortedNames x.recursiveNames) ∈ chosen x ∧
      line = (recursion (sortedNames x.recursiveNames)).text := by
  rw [ofVerdict_eq, splitLines_joinLines (by simp [chosen])] at hl
  obtain ⟨t, ht, hl⟩ := List.mem_flatMap.1 hl
  obtain ⟨s, hs, rfl⟩ := List.mem_map.1 ht
  have hR : 'R' ∈ s.text :=
    (infix_of_mem_splitLines hl).subset (((contains_iff _ _).1 hw).subset (by decide))
  obtain ⟨names, rfl⟩ := exists_recursion hR
  obtain ⟨rfl, -⟩ := names_of_recursion_mem_chosen hs
  rw [splitLines_of_not_mem (newline_notMem_recursion (wordy_of_mem_chosen hx hs))] at hl
  exact ⟨hs, List.mem_singleton.1 hl⟩

end

theorem splitLines_ofVerdict (x : Features) : ∃ rest,
    splitLines (ofVerdict x.verdict x) = (time x.verdict.time).text :: rest := by
  rw [ofVerdict_eq, splitLines_joinLines (by simp [chosen]), chosen, List.map_cons,
    List.flatMap_cons, splitLines_of_not_mem (newline_notMem_time _)]
  exact ⟨_, rfl⟩

/-- Every sentence of an explanation is backed by the features. -/
theorem sentences_backed (x : Features)
    (hx : ∀ n ∈ x.recursiveNames, ∀ c ∈ n, isWord c = true) :
    (∃ first rest, splitLines (ofVerdict x.verdict x) = first :: rest ∧
      startsWith first ("Time Complexity: " ++ x.verdict.time.label) = true) ∧
    (Says x "No loops, recursion or sorting were detected." ↔
      x.depth < 1 ∧ x.recursiveNames = [] ∧ x.idioms.quadraticSort = false ∧
        x.idioms.linearithmicSort = false ∧ x.idioms.binarySearch = false) ∧
    (Says x "two nested loops" ↔ x.depth = 2 ∧ x.idioms.linearithmicSort = false) ∧
    (Says x "sorts with a built-in or quadratic sort" → x.idioms.quadraticSort = true) ∧
    (Says x "looks like a binary search" → x.idioms.binarySearch = true) ∧
    (Says x "quicksort or mergesort" ↔ x.idioms.linearithmicSort = true) ∧
    (∀ k : Int, Says x ("uses " ++ intText k ++ " nested loops") → k = x.depth ∧ 3 ≤ x.depth) ∧
    (∀ line ∈ splitLines (ofVerdict x.verdict x),
      contains "Recursive calls detected" line = true →
        x.recursiveNames ≠ [] ∧ ∃ names : List Text,
          line = "  • Recursive calls detected: " ++ joinWith ", " names ++ "." ∧
          names.Pairwise (fun a b => textLe a b = true ∧ a ≠ b) ∧
          ∀ n, n ∈ names ↔ n ∈ x.recursiveNames) ∧
    (Says x "The function builds arrays or maps that grow with the input." ↔
      .array ∈ x.structures ∨ .hashMap ∈ x.structures) := by
  obtain ⟨-, hnone, htwo, hsort, hsearch, hquick, hspace⟩ := fixed_texts
  refine ⟨?_, ?_, ?_, ?_, ?_, ?_, ?_, ?_, ?_⟩
  · obtain ⟨rest, hrest⟩ := splitLines_ofVerdict x
    exact ⟨_, rest, hrest, (startsWith_iff _ _).2 (List.prefix_append _ (rate _))⟩
  · rw [hnone.says_iff hx, noLoops_mem_chosen_iff]
  · rw [htwo.says_iff hx, twoLoops_mem_chosen_iff]
  · rw [hsort.says_iff hx]
    exact quadraticSort_of_mem_chosen
  · rw [hsearch.says_iff hx]
    exact binarySearch_of_mem_chosen
  · rw [hquick.says_iff hx, linearithmicSort_mem_chosen_iff]
  · intro k hk
    obtain ⟨hd, hthree⟩ := depth_of_loops_mem_chosen (says_loops hx hk)
    exact ⟨hd.symm, hthree⟩
  · intro line hl hw
    obtain ⟨hm, rfl⟩ := recursion_line hx hl hw
    exact ⟨(names_of_recursion_mem_chosen hm).2, _, rfl, sortedNames_pairwise _,
      fun n => mem_sortedNames⟩
  · rw [hspace.says_iff hx, containers_mem_chosen_iff, any_isLinear_iff]

/-- Two functions that call each other. -/
def mutualCalls : Features where
  recursiveNames := ["odd", "even"]

theorem sentences_backed_mutual :
    (∀ n ∈ mutualCalls.recursiveNames, ∀ c ∈ n, isWord c = true) ∧
      ¬ Says mutualCalls "No loops, recursion or sorting were detected." ∧
      ∀ line ∈ splitLines (ofVerdict mutualCalls.verdict mutualCalls),
        contains "Recursive calls detected" line = true → ∃ names : List Text,
          line = "  • Recursive calls detected: " ++ joinWith ", " names ++ "." ∧
          names.Pairwise (fun a b => textLe a b = true ∧ a ≠ b) ∧
          ∀ n, n ∈ names ↔ n = "odd" ∨ n = "even" := by
  have hall : ∀ n ∈ mutualCalls.recursiveNames, n.all isWord = true := by decide +kernel
  have hx : ∀ n ∈ mutualCalls.recursiveNames, ∀ c ∈ n, isWord c = true :=
    fun n hn => List.all_eq_true.1 (hall n hn)
  obtain ⟨-, hnone, -, -, -, -, -, hline, -⟩ := sentences_backed mutualCalls hx
  refine ⟨hx, fun h => absurd (hnone.1 h).2.1 (by decide), ?_⟩
  intro line hl hw
  obtain ⟨-, names, he, hsorted, hmem⟩ := hline line hl hw
  refine ⟨names, he, hsorted, fun n => ?_⟩
  rw [hmem n]
  simp [mutualCalls]

end CostLens.Explanation
