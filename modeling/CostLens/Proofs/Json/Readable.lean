import CostLens.Json.Shown
import CostLens.Proofs.Json.Bounds

/-! # Values that are read can be shown

A value that is read has no integer with too many digits and no more containers open at once than
may be. Nothing else keeps a value from being shown, so each value that is read can be.
-/
namespace CostLens.Json

/-- A value such as are read: its numbers are short, and not too many containers are within each
other. -/
structure Readable (v : Json) : Prop where
  bounded : v.Bounded
  depth : v.depth ≤ maxDepth

section Depth
variable {n : Nat}

theorem depthItems_le_iff {items : List Json} :
    depthItems items ≤ n ↔ ∀ v ∈ items, v.depth ≤ n := by
  induction items with
  | nil => simp [depthItems]
  | cons v vs ih => rw [depthItems, Nat.max_le, ih, List.forall_mem_cons]

theorem depthMembers_le_iff {members : List (Text × Json)} :
    depthMembers members ≤ n ↔ ∀ m ∈ members, m.2.depth ≤ n := by
  induction members with
  | nil => simp [depthMembers]
  | cons m ms ih => rw [depthMembers, Nat.max_le, ih, List.forall_mem_cons]

end Depth

namespace Reader

theorem number_depth {t rest : Text} {v : Json} (h : number t = .ok (v, rest)) : v.depth = 0 := by
  unfold number at h
  simp only at h
  split at h
  all_goals
    dsimp only at h
    split at h
    · cases h
    split at h
    · cases h
      rfl
    split at h
    · split at h
      · cases h
      · cases h
        rfl
    · cases h
      rfl

theorem scalar_depth {t rest : Text} {v : Json} (h : scalar t = .ok (v, rest)) : v.depth = 0 := by
  unfold scalar at h
  split at h
  · next found hf =>
    cases h
    obtain ⟨w, hw, hr⟩ := List.exists_of_findSome?_eq_some hf
    obtain ⟨r, _, hr⟩ := Option.map_eq_some_iff.1 hr
    cases hr
    have hwords : ∀ w ∈ words, w.2.depth = 0 := by decide
    exact hwords w hw
  · exact number_depth h

end Reader

/-- Whatever is read is readable. -/
theorem read_readable {t : Text} {v : Json} (h : read t = .ok v) : v.Readable := by
  have hbuilds : Reader.Builds fun room v => v.depth ≤ room := by
    refine ⟨fun _ _ => Nat.zero_le _, fun h => ?_, fun h => ?_, fun h => ?_⟩
    · rw [Reader.scalar_depth h]
      exact Nat.zero_le _
    · exact Nat.succ_le_succ (depthItems_le_iff.2 h)
    · exact Nat.succ_le_succ (depthMembers_le_iff.2 h)
  exact ⟨read_bounded h, hbuilds.read h⟩

theorem Readable.item {items : List Json} (h : (arr items).Readable) {v : Json} (hv : v ∈ items) :
    v.Readable := by
  obtain ⟨hb, hd⟩ := h
  cases hb with
  | arr hall => exact ⟨hall v hv, (depthItems_le_iff.1 (Nat.le_of_succ_le hd) v hv)⟩

theorem Readable.member {members : List (Text × Json)} (h : (obj members).Readable)
    {m : Text × Json} (hm : m ∈ members) : m.2.Readable := by
  obtain ⟨hb, hd⟩ := h
  cases hb with
  | obj hall => exact ⟨hall m hm, (depthMembers_le_iff.1 (Nat.le_of_succ_le hd) m hm)⟩

theorem Readable.member? {members : List (Text × Json)} (h : (obj members).Readable) {key : Text}
    {v : Json} (hv : Json.member? key members = some v) : v.Readable := by
  obtain ⟨m, hm, rfl⟩ := mem_of_member? hv
  exact h.member hm

/-! ## Obstacles -/

section Obstacle
variable {room : Nat}

theorem obstacleItems?_eq_none_iff {items : List Json} :
    obstacleItems? room items = none ↔ ∀ v ∈ items, v.obstacle? room = none := by
  induction items with
  | nil => simp [obstacleItems?]
  | cons v vs ih => rw [obstacleItems?, Option.or_eq_none_iff, ih, List.forall_mem_cons]

theorem obstacleMembers?_eq_none_iff {members : List (Text × Json)} :
    obstacleMembers? room members = none ↔ ∀ m ∈ members, m.2.obstacle? room = none := by
  induction members with
  | nil => simp [obstacleMembers?]
  | cons m ms ih => rw [obstacleMembers?, Option.or_eq_none_iff, ih, List.forall_mem_cons]

theorem obstacle?_int_of_long {i : Int} (h : ¬ IsShort i) :
    (int i).obstacle? room = some (.tooManyDigits none) := by
  cases room <;> exact if_pos (Nat.not_le.1 h)

theorem obstacle?_eq_none {v : Json} (hb : v.Bounded) (hd : v.depth ≤ room) :
    v.obstacle? room = none := by
  induction hb generalizing room with
  | int short =>
    cases room <;> exact if_neg (Nat.not_lt.2 short)
  | @arr items _ ih =>
    obtain ⟨room, rfl⟩ := Nat.exists_eq_add_one.2 (Nat.zero_lt_of_lt hd)
    have hitems := depthItems_le_iff.1 (Nat.le_of_succ_le_succ hd)
    exact obstacleItems?_eq_none_iff.2 fun v hv => ih v hv (hitems v hv)
  | @obj members _ ih =>
    obtain ⟨room, rfl⟩ := Nat.exists_eq_add_one.2 (Nat.zero_lt_of_lt hd)
    have hmembers := depthMembers_le_iff.1 (Nat.le_of_succ_le_succ hd)
    exact obstacleMembers?_eq_none_iff.2 fun m hm => ih m hm (hmembers m hm)
  | _ => cases room <;> rfl

end Obstacle

theorem Readable.shown?_eq {v : Json} (h : v.Readable) : v.shown? = .ok v.shown := by
  rw [shown?, obstacle?_eq_none h.bounded h.depth]

/-- A value is shown unless it is not readable. -/
theorem shown?_cases (v : Json) :
    v.shown? = .ok v.shown ∨ (∃ e, v.shown? = .error e) ∧ ¬ v.Readable := by
  by_cases h : v.Readable
  · exact .inl h.shown?_eq
  unfold shown?
  cases v.obstacle? maxDepth with
  | none => exact .inl rfl
  | some e => exact .inr ⟨⟨e, rfl⟩, h⟩

theorem Readable.plain?_eq {v : Json} (h : v.Readable) : v.plain? = .ok v.plain := by
  cases v with
  | str t => rfl
  | _ => exact h.shown?_eq

end CostLens.Json
