import CostLens.Proofs.Json.Bounds
import Mathlib.Data.List.Basic

/-! # When a text goes beyond what can be read

A reading is stopped by too many digits only where so many digits stand in a row, and by too deep
a value only where more containers are opened than there is room for. Both are read off one
statement about the readers: what is left of a text is an end of it, and what stopped a reading is
in the text.
-/
namespace CostLens.Json

/-- Whether a character opens a container. -/
def opens (c : Char) : Bool := c == '[' || c == '\x7b'

namespace Reader

/-- What stopped a reading is in the text: so many digits in a row, or more openings than there is
room for. -/
def Stop.FoundIn (room : Nat) (t : Text) : Stop → Prop
  | .fault _ _ => True
  | .tooManyDigits count => Integer.maxDigits < count ∧
      ∃ digits, digits <:+: t ∧ digits.length = count ∧ ∀ c ∈ digits, c.isDigit = true
  | .tooDeep _ => room < t.countP opens

/-- A reader leaves an end of its text, or was stopped by something in it. -/
def Consumes {α : Type} (room : Nat) (t : Text) : Except Stop (α × Text) → Prop
  | .ok (_, rest) => rest <:+ t
  | .error stop => stop.FoundIn room t

section Consumes

variable {α β : Type} {room : Nat} {t u : Text}

theorem Stop.FoundIn.of_suffix {stop : Stop} (h : stop.FoundIn room u) (hu : u <:+ t) :
    stop.FoundIn room t := by
  cases stop with
  | fault fault rest => trivial
  | tooManyDigits count =>
    obtain ⟨hc, digits, hd, hl, ha⟩ := h
    exact ⟨hc, digits, hd.trans hu.isInfix, hl, ha⟩
  | tooDeep container =>
    have hle : u.countP opens ≤ t.countP opens := hu.sublist.countP_le
    exact Nat.lt_of_lt_of_le h hle

theorem Consumes.of_suffix {x : Except Stop (α × Text)} (h : Consumes room u x) (hu : u <:+ t) :
    Consumes room t x := by
  cases x with
  | ok p => exact List.IsSuffix.trans h hu
  | error stop => exact Stop.FoundIn.of_suffix h hu

theorem Consumes.bind {x : Except Stop (α × Text)} {f : α × Text → Except Stop (β × Text)}
    (hx : Consumes room t x) (hf : ∀ a rest, rest <:+ t → Consumes room t (f (a, rest))) :
    Consumes room t (x >>= f) := by
  cases x with
  | ok p => exact hf p.1 p.2 hx
  | error stop => exact hx

/-- Within a container there is room for one less, and its opening counts for one. -/
theorem Consumes.opened {x : Except Stop (α × Text)} {c : Char} (hc : opens c = true)
    (h : Consumes room t x) : Consumes (room + 1) (c :: t) x := by
  cases x with
  | ok p => exact List.IsSuffix.trans h (List.suffix_cons c t)
  | error stop =>
    cases stop with
    | fault fault rest => trivial
    | tooManyDigits count =>
      obtain ⟨hcount, digits, hd, hl, hall⟩ := h
      exact ⟨hcount, digits, hd.trans (List.suffix_cons c t).isInfix, hl, hall⟩
    | tooDeep container =>
      have hr : room < t.countP opens := h
      change room + 1 < (c :: t).countP opens
      rw [List.countP_cons_of_pos hc]
      omega

end Consumes

theorem skipSpace_suffix (t : Text) : skipSpace t <:+ t := List.dropWhile_suffix isSpace

theorem units_consumes (room : Nat) (opening t : Text) : Consumes room t (units opening t) := by
  fun_induction units opening t with
  | case1 => trivial
  | case2 rest => exact List.suffix_cons _ _
  | case3 a b c d next rest hu => trivial
  | case4 a b c d next rest u hu ih =>
    have hsuffix : next :: rest <:+ '\\' :: 'u' :: a :: b :: c :: d :: next :: rest :=
      List.suffix_append ['\\', 'u', a, b, c, d] (next :: rest)
    exact (ih.of_suffix hsuffix).bind fun us after h => h
  | case5 => trivial
  | case6 => trivial
  | case7 e rest _ _ c hc ih =>
    have hsuffix : rest <:+ '\\' :: e :: rest := List.suffix_append ['\\', e] rest
    exact (ih.of_suffix hsuffix).bind fun us after h => h
  | case8 => trivial
  | case9 => trivial
  | case10 c rest _ _ _ _ _ _ ih =>
    exact (ih.of_suffix (List.suffix_cons c rest)).bind fun us after h => h

theorem string_consumes (room : Nat) (rest : Text) : Consumes room rest (string rest) :=
  (units_consumes room _ rest).bind fun _ _ h => h

theorem fraction_suffix (t : Text) : (fraction t).2 <:+ t := by
  unfold fraction
  split
  · next rest =>
    dsimp only
    split
    · exact List.suffix_rfl
    · exact (List.drop_suffix _ rest).trans (List.suffix_cons _ rest)
  · exact List.suffix_rfl

theorem exponent?_suffix {t rest : Text} {e : Int} (h : exponent? t = some (e, rest)) :
    rest <:+ t := by
  unfold exponent? at h
  split at h
  · next c behind =>
    split at h
    · simp only at h
      split at h
      all_goals
        dsimp only at h
        split at h
        · cases h
        simp only [Option.some.injEq, Prod.mk.injEq] at h
        obtain ⟨-, rfl⟩ := h
        refine (List.drop_suffix _ _).trans ?_
      · exact List.suffix_append [c, '-'] _
      · exact List.suffix_append [c, '+'] _
      · exact List.suffix_cons c _
    · cases h
  · cases h

theorem wholeDigits_isPrefix (t : Text) : wholeDigits t <+: t := by
  unfold wholeDigits
  split
  · next rest => exact ⟨rest, rfl⟩
  · exact List.takeWhile_prefix _

theorem afterWhole_suffix (t : Text) : (fraction (t.drop (wholeDigits t).length)).2 <:+ t :=
  (fraction_suffix _).trans (List.drop_suffix _ t)

theorem number_consumes (room : Nat) (start : Text) : Consumes room start (number start) := by
  unfold number
  simp only
  split
  -- with a sign, the rest of the text is what is read
  on_goal 1 => refine Consumes.of_suffix ?_ (List.suffix_cons _ _)
  all_goals
    dsimp only
    split
    · trivial
    split
    · next he => exact (exponent?_suffix he).trans (afterWhole_suffix _)
    split
    · split
      · next hlong =>
        exact ⟨hlong, _, (wholeDigits_isPrefix _).isInfix, rfl, wholeDigits_isDigit _⟩
      · exact afterWhole_suffix _
    · exact afterWhole_suffix _

theorem scalar_consumes (room : Nat) (t : Text) : Consumes room t (scalar t) := by
  unfold scalar
  split
  · next found hf =>
    obtain ⟨w, _, hr⟩ := List.exists_of_findSome?_eq_some hf
    obtain ⟨rest, hp, rfl⟩ := Option.map_eq_some_iff.1 hr
    exact ⟨w.1, List.append_eq_of_isPrefixOf?_eq_some hp⟩
  · exact number_consumes room t

/-- The three readers of values at once, by induction on the fuel: a container is entered with
less room, and nothing is read twice. -/
theorem value_items_pairs_consume (fuel : Nat) :
    (∀ room t, Consumes room t (value room fuel t)) ∧
    (∀ room t, Consumes room t (items room fuel t)) ∧
    (∀ room t, Consumes room t (pairs room fuel t)) := by
  induction fuel with
  | zero => exact ⟨fun _ _ => trivial, fun _ _ => trivial, fun _ _ => trivial⟩
  | succ fuel ih =>
    obtain ⟨ihv, ihi, ihp⟩ := ih
    refine ⟨?_, ?_, ?_⟩
    · intro room t
      unfold value
      split
      · trivial
      · next rest =>
        have hs := (string_consumes room rest).of_suffix (List.suffix_cons '"' rest)
        exact hs.bind fun s after h => h
      · next rest =>
        change 0 < ('[' :: rest).countP opens
        rw [List.countP_cons_of_pos rfl]
        omega
      · next rest room =>
        have hspace := skipSpace_suffix rest
        split
        · next after he =>
          rw [he] at hspace
          exact ((List.suffix_cons _ after).trans hspace).trans (List.suffix_cons _ rest)
        · next inside =>
          have hi := ((ihi room (skipSpace rest)).of_suffix hspace).opened (c := '[') rfl
          exact hi.bind fun vs after h => h
      · next rest =>
        change 0 < ('\x7b' :: rest).countP opens
        rw [List.countP_cons_of_pos rfl]
        omega
      · next rest room =>
        have hspace := skipSpace_suffix rest
        split
        · next after he =>
          rw [he] at hspace
          exact ((List.suffix_cons _ after).trans hspace).trans (List.suffix_cons _ rest)
        · next inside =>
          have hp := ((ihp room (skipSpace rest)).of_suffix hspace).opened (c := '\x7b') rfl
          exact hp.bind fun ps after h => h
      · exact scalar_consumes room t
    · intro room t
      unfold items
      refine (ihv room t).bind fun v after hafter => ?_
      have hspace := (skipSpace_suffix after).trans hafter
      dsimp only
      split
      · next rest he =>
        rw [he] at hspace
        exact (List.suffix_cons _ rest).trans hspace
      · next rest he =>
        rw [he] at hspace
        have hrest := ((skipSpace_suffix rest).trans (List.suffix_cons _ rest)).trans hspace
        exact ((ihi room _).of_suffix hrest).bind fun vs last h => h
      · trivial
    · intro room t
      unfold pairs
      split
      · next rest =>
        have hs := (string_consumes room rest).of_suffix (List.suffix_cons '"' rest)
        refine hs.bind fun key afterKey hkey => ?_
        have hspace := (skipSpace_suffix afterKey).trans hkey
        dsimp only
        split
        · next afterColon he =>
          rw [he] at hspace
          have hcolon :=
            ((skipSpace_suffix afterColon).trans (List.suffix_cons _ afterColon)).trans hspace
          refine ((ihv room _).of_suffix hcolon).bind fun v after hafter => ?_
          have hclose := (skipSpace_suffix after).trans hafter
          dsimp only
          split
          · next rest he =>
            rw [he] at hclose
            exact (List.suffix_cons _ rest).trans hclose
          · next rest he =>
            rw [he] at hclose
            have hrest := ((skipSpace_suffix rest).trans (List.suffix_cons _ rest)).trans hclose
            exact ((ihp room _).of_suffix hrest).bind fun ps last h => h
          · trivial
        · trivial
      · trivial

theorem whole_stop {t : Text} {stop : Stop} (h : whole t = .error stop) :
    stop.FoundIn maxDepth t := by
  unfold whole at h
  split at h
  · cases h
    trivial
  · have hv := ((value_items_pairs_consume (2 * t.length + 2)).1 maxDepth (skipSpace t)).of_suffix
      (skipSpace_suffix t)
    cases hx : value maxDepth (2 * t.length + 2) (skipSpace t) with
    | error stop' =>
      rw [hx] at h hv
      cases h
      exact hv
    | ok p =>
      rw [hx] at h
      simp only [bind, Except.bind] at h
      split at h
      · cases h
      · cases h
        trivial

end Reader

theorem read_eq_error {t : Text} {e : ReadError} (h : read t = .error e) :
    ∃ stop, Reader.whole t = .error stop ∧ Reader.locate t stop = e := by
  unfold read at h
  cases hw : Reader.whole t with
  | ok v =>
    rw [hw] at h
    cases h
  | error stop =>
    rw [hw] at h
    exact ⟨stop, rfl, Except.error.inj h⟩

/-- An integer is refused for its length only where that many digits stand in a row. -/
theorem exists_digits_of_tooManyDigits {t : Text} {count : Option Nat}
    (h : read t = .error (.tooManyDigits count)) :
    ∃ digits, digits <:+: t ∧ Integer.maxDigits < digits.length ∧
      ∀ c ∈ digits, c.isDigit = true := by
  obtain ⟨stop, hw, hl⟩ := read_eq_error h
  have hfound := Reader.whole_stop hw
  cases stop <;> cases hl
  obtain ⟨hlong, digits, hin, hlen, hall⟩ := hfound
  exact ⟨digits, hin, hlen ▸ hlong, hall⟩

/-- A value is refused for its depth only where more containers are opened than may be. -/
theorem maxDepth_lt_of_tooDeep {t : Text} {container : Option Container}
    (h : read t = .error (.tooDeep container)) : maxDepth < t.countP opens := by
  obtain ⟨stop, hw, hl⟩ := read_eq_error h
  have hfound := Reader.whole_stop hw
  cases stop <;> cases hl
  exact hfound

end CostLens.Json
