import CostLens.Proofs.Json.Members
import CostLens.Proofs.Json.RoundTrip
import CostLens.Proofs.Run.Basic
import CostLens.Store.Record

/-! # How great the numbers are that are read

No number that is read is too long to be written and read again: integers have a bound on their
digits, doubles one on their size, and an integer spelled in a string has the bound of integers.
So the line of a record that was read is short.
-/
namespace CostLens

/-! ## Rows of digits -/

theorem foldl_digits_lt {α : Type} (f : α → Nat) {l : List α} (h : ∀ c ∈ l, f c ≤ 9) (n : Nat) :
    l.foldl (fun n c => 10 * n + f c) n < (n + 1) * 10 ^ l.length := by
  induction l generalizing n with
  | nil => simp
  | cons c l ih =>
    have hc := h c (by simp)
    have hi := ih (fun d hd => h d (by simp [hd])) (10 * n + f c)
    calc (c :: l).foldl (fun n c => 10 * n + f c) n
        < (10 * n + f c + 1) * 10 ^ l.length := hi
      _ ≤ ((n + 1) * 10) * 10 ^ l.length := Nat.mul_le_mul_right _ (by omega)
      _ = (n + 1) * 10 ^ (l.length + 1) := by rw [Nat.pow_succ', Nat.mul_assoc]

theorem digitValue?_le {c : Char} {d : Nat} (h : digitValue? c = some d) : d ≤ 9 := by
  unfold digitValue? at h
  split at h
  · next hc =>
    have hle : c.toNat ≤ '9'.toNat := hc.2
    have h9 : '9'.toNat = 57 := rfl
    have h0 : '0'.toNat = 48 := rfl
    cases h
    omega
  · obtain ⟨z, hz, rfl⟩ := Option.map_eq_some_iff.1 h
    have hz' := List.find?_some hz
    have hle : z ≤ c.toNat ∧ c.toNat ≤ z + 9 := by simpa using hz'
    omega

namespace Integer

theorem digits?_le {afterDigit : Bool} {t : Text} {ds : List Nat}
    (h : digits? afterDigit t = some ds) : ∀ d ∈ ds, d ≤ 9 := by
  fun_induction digits? afterDigit t generalizing ds with
  | case1 => simp_all
  | case2 => simp_all
  | case3 t ih => exact ih h
  | case4 => cases h
  | case5 afterDigit c t hc d hd ih =>
    obtain ⟨ds', hds, rfl⟩ := Option.map_eq_some_iff.1 h
    intro x hx
    rcases List.mem_cons.1 hx with rfl | hx
    · exact digitValue?_le hd
    · exact ih hds x hx
  | case6 => cases h

theorem natural?_lt {t : Text} {n : Nat} (h : natural? t = some n) : n < 10 ^ maxDigits := by
  unfold natural? at h
  split at h
  · next ds hds =>
    split at h
    · next hl =>
      cases h
      have hlt := foldl_digits_lt (fun d => d) (digits?_le hds) 0
      rw [Nat.zero_add, Nat.one_mul] at hlt
      exact Nat.lt_of_lt_of_le hlt (Nat.pow_le_pow_right (by decide) hl)
    · cases h
  · cases h

end Integer

namespace Json

theorem isShort_iff (i : Int) : IsShort i ↔ i.natAbs < 10 ^ Integer.maxDigits :=
  length_natText_le_iff (by decide)

theorem isShort_read? {t : Text} {i : Int} (h : Integer.read? t = some i) : IsShort i := by
  rw [isShort_iff]
  unfold Integer.read? at h
  simp only at h
  split at h
  all_goals
    obtain ⟨n, hn, rfl⟩ := Option.map_eq_some_iff.1 h
    obtain ⟨m, hm, hc⟩ := Option.bind_eq_some_iff.1 hn
    cases hc
    simpa using Integer.natural?_lt hm

end Json

/-! ## Doubles -/

namespace Binary64

/-- A number that is not beyond the greatest double. The bound on the mantissa is not sharp. -/
def Bounded : Binary64 → Prop
  | finite _ m e => m ≤ 2 ^ 54 ∧ e ≤ maxExponent
  | _ => True

theorem scaled_lt {num den : Nat} {e : Int} (hn : num ≠ 0) (hd : den ≠ 0)
    (he : (num.log2 : Int) - den.log2 - 53 ≤ e) :
    (scaled num den e).1 < 2 ^ 54 * (scaled num den e).2 := by
  have h1 : num < 2 ^ (num.log2 + 1) := (Nat.log2_lt hn).1 (Nat.lt_succ_self _)
  have h2 : 2 ^ den.log2 ≤ den := (Nat.le_log2 hd).1 (Nat.le_refl _)
  unfold scaled
  split
  · next hneg =>
    have hx : num.log2 + 1 + (-e).toNat ≤ 54 + den.log2 := by omega
    calc num * Nat.pow 2 (-e).toNat
        < 2 ^ (num.log2 + 1) * 2 ^ (-e).toNat := Nat.mul_lt_mul_of_pos_right h1 (Nat.two_pow_pos _)
      _ = 2 ^ (num.log2 + 1 + (-e).toNat) := (Nat.pow_add ..).symm
      _ ≤ 2 ^ (54 + den.log2) := Nat.pow_le_pow_right (by decide) hx
      _ = 2 ^ 54 * 2 ^ den.log2 := Nat.pow_add ..
      _ ≤ 2 ^ 54 * den := Nat.mul_le_mul_left _ h2
  · next hpos =>
    have hx : num.log2 + 1 ≤ 54 + (den.log2 + e.toNat) := by omega
    calc num
        < 2 ^ (num.log2 + 1) := h1
      _ ≤ 2 ^ (54 + (den.log2 + e.toNat)) := Nat.pow_le_pow_right (by decide) hx
      _ = 2 ^ 54 * (2 ^ den.log2 * 2 ^ e.toNat) := by rw [Nat.pow_add, Nat.pow_add]
      _ ≤ 2 ^ 54 * (den * Nat.pow 2 e.toNat) :=
        Nat.mul_le_mul_left _ (Nat.mul_le_mul_right _ h2)

theorem roundDiv_le {num den k : Nat} (h : num < k * den) : roundDiv num den ≤ k := by
  have hq : num / den < k := by
    rw [Nat.mul_comm] at h
    exact Nat.div_lt_of_lt_mul h
  unfold roundDiv
  simp only
  split <;> omega

theorem le_exponentFor (num den : Nat) :
    (num.log2 : Int) - den.log2 - 53 ≤ exponentFor num den := by
  unfold exponentFor
  simp only
  split <;> omega

theorem ofRatio_bounded (negative : Bool) (num : Nat) {den : Nat} (hd : den ≠ 0) :
    (ofRatio negative num den).Bounded := by
  unfold ofRatio
  split
  · exact ⟨Nat.zero_le _, by decide⟩
  · next hn =>
    have hm := roundDiv_le (scaled_lt hn hd (le_exponentFor num den))
    simp only
    split
    · split
      · trivial
      · next hne =>
        have hf : fullMantissa ≤ 2 ^ 54 := by decide
        exact ⟨hf, Int.not_lt.1 hne⟩
    · split
      · trivial
      · next hne => exact ⟨hm, Int.not_lt.1 hne⟩

theorem ofDecimal_bounded (negative : Bool) (digits count : Nat) (exponent : Int) :
    (ofDecimal negative digits count exponent).Bounded := by
  unfold ofDecimal
  split
  · exact ⟨Nat.zero_le _, by decide⟩
  split
  · trivial
  split
  · exact ⟨Nat.zero_le _, by decide⟩
  split
  · exact ofRatio_bounded _ _ (Nat.ne_of_gt (Nat.pow_pos (by decide)))
  · exact ofRatio_bounded _ _ (by decide)

theorem natAbs_truncate (negative : Bool) (m : Nat) (e : Int) :
    (truncate negative m e).natAbs = (ratio m e).1 / (ratio m e).2 := by
  unfold truncate
  cases negative
  · exact Int.natAbs_natCast _
  · exact (Int.natAbs_neg _).trans (Int.natAbs_natCast _)

theorem ratio_le (m : Nat) (e : Int) : (ratio m e).1 / (ratio m e).2 ≤ m * 2 ^ e.toNat := by
  unfold ratio
  split
  · exact Nat.le_trans (Nat.div_le_self ..) (Nat.le_mul_of_pos_right m (Nat.two_pow_pos _))
  · exact Nat.div_le_self ..

theorem truncate_lt {negative : Bool} {m : Nat} {e : Int} (h : (finite negative m e).Bounded) :
    (truncate negative m e).natAbs < 10 ^ Integer.maxDigits := by
  have he : 54 + e.toNat < Integer.maxDigits := by
    have : e ≤ 971 := h.2
    simp only [Integer.maxDigits]
    omega
  have hp (k : Nat) : 2 ^ k ≤ 10 ^ k := Nat.pow_le_pow_left (by decide) k
  calc (truncate negative m e).natAbs
      = (ratio m e).1 / (ratio m e).2 := natAbs_truncate ..
    _ ≤ m * 2 ^ e.toNat := ratio_le m e
    _ ≤ 10 ^ 54 * 10 ^ e.toNat := Nat.mul_le_mul (Nat.le_trans h.1 (hp 54)) (hp _)
    _ = 10 ^ (54 + e.toNat) := (Nat.pow_add ..).symm
    _ < 10 ^ Integer.maxDigits := Nat.pow_lt_pow_right (by decide) he

end Binary64

/-! ## Values -/

namespace Json

/-- Values whose numbers are all short. -/
inductive Bounded : Json → Prop
  | null : Bounded .null
  | bool (b : Bool) : Bounded (.bool b)
  | int {i : Int} (h : IsShort i) : Bounded (.int i)
  | float {x : Binary64} (h : x.Bounded) : Bounded (.float x)
  | str (t : Text) : Bounded (.str t)
  | arr {items : List Json} (h : ∀ v ∈ items, Bounded v) : Bounded (.arr items)
  | obj {members : List (Text × Json)} (h : ∀ m ∈ members, Bounded m.2) : Bounded (.obj members)

theorem mem_setMember {key : Text} {value : Json} {members : List (Text × Json)}
    {m : Text × Json} (h : m ∈ setMember key value members) : m.2 = value ∨ m ∈ members := by
  induction members with
  | nil => simp_all [setMember]
  | cons p rest ih =>
    rw [setMember] at h
    split at h
    · rcases List.mem_cons.1 h with rfl | hm
      · exact .inl rfl
      · exact .inr (List.mem_cons_of_mem _ hm)
    · rcases List.mem_cons.1 h with rfl | hm
      · exact .inr List.mem_cons_self
      · exact (ih hm).imp id (List.mem_cons_of_mem _)

/-- What holds of the values of pairs holds of the members that are made from them. -/
theorem forall_membersOf {P : Json → Prop} {pairs : List (Text × Json)} (h : ∀ p ∈ pairs, P p.2) :
    ∀ m ∈ membersOf pairs, P m.2 := by
  have hall : ∀ (acc : List (Text × Json)), (∀ m ∈ acc, P m.2) →
      ∀ m ∈ pairs.foldl (fun ms p => setMember p.1 p.2 ms) acc, P m.2 := by
    induction pairs with
    | nil => exact fun acc hacc => hacc
    | cons p pairs ih =>
      intro acc hacc
      refine ih (fun q hq => h q (List.mem_cons_of_mem _ hq)) _ fun m hm => ?_
      rcases mem_setMember hm with he | hm
      · exact he ▸ h p List.mem_cons_self
      · exact hacc m hm
  exact hall [] (by simp)

namespace Reader

theorem wholeDigits_isDigit (t : Text) : ∀ c ∈ wholeDigits t, c.isDigit = true := by
  unfold wholeDigits
  split
  · simp
  · exact List.all_eq_true.1 List.all_takeWhile

theorem digitsValue_lt {digits : Text} (h : ∀ c ∈ digits, c.isDigit = true) :
    digitsValue digits < 10 ^ digits.length := by
  have hle : ∀ c ∈ digits, c.toNat - '0'.toNat ≤ 9 := by
    intro c hc
    have hd := h c hc
    simp only [Char.isDigit, Bool.and_eq_true, decide_eq_true_eq] at hd
    have h9 : c.toNat ≤ 57 := hd.2
    have h0 : '0'.toNat = 48 := rfl
    omega
  simpa [digitsValue] using foldl_digits_lt (fun c : Char => c.toNat - '0'.toNat) hle 0

theorem isShort_digits {t : Text} (negative : Bool) (h : (wholeDigits t).length ≤ Integer.maxDigits) :
    IsShort (if negative then -(digitsValue (wholeDigits t) : Int) else digitsValue (wholeDigits t)) := by
  have hlt := Nat.lt_of_lt_of_le (digitsValue_lt (wholeDigits_isDigit t))
    (Nat.pow_le_pow_right (by decide) h)
  cases negative <;> simpa [isShort_iff] using hlt

theorem number_bounded {t rest : Text} {v : Json} (h : number t = .ok (v, rest)) : Bounded v := by
  unfold number at h
  simp only at h
  split at h
  all_goals
    dsimp only at h
    split at h
    · cases h
    split at h
    · cases h
      exact .float (Binary64.ofDecimal_bounded ..)
    split at h
    · split at h
      · cases h
      · next hl =>
        cases h
        exact .int (isShort_digits _ (Nat.not_lt.1 hl))
    · cases h
      exact .float (Binary64.ofDecimal_bounded ..)

theorem scalar_bounded {t rest : Text} {v : Json} (h : scalar t = .ok (v, rest)) : Bounded v := by
  unfold scalar at h
  split at h
  · next found hf =>
    cases h
    obtain ⟨w, hw, hr⟩ := List.exists_of_findSome?_eq_some hf
    obtain ⟨r, _, hr⟩ := Option.map_eq_some_iff.1 hr
    cases hr
    have hwords : ∀ w ∈ words, Bounded w.2 := by
      intro w hw
      simp only [words, List.mem_cons, List.not_mem_nil, or_false] at hw
      rcases hw with rfl | rfl | rfl | rfl | rfl | rfl
      · exact .null
      · exact .bool _
      · exact .bool _
      · exact .float trivial
      · exact .float trivial
      · exact .float trivial
    exact hwords w hw
  · exact number_bounded h

/-- What holds of strings and of whatever a scalar spells, and of a container with room for one more
within when it holds of all values in it. -/
structure Builds (P : Nat → Json → Prop) : Prop where
  str : ∀ room t, P room (.str t)
  scalar : ∀ {room t rest v}, scalar t = .ok (v, rest) → P room v
  arr : ∀ {room items}, (∀ v ∈ items, P room v) → P (room + 1) (.arr items)
  obj : ∀ {room members}, (∀ m ∈ members, P room m.2) → P (room + 1) (.obj members)

/-- Whatever is read has a property by which values are built. The induction is on the fuel, for the
three readers at once. -/
theorem Builds.value_items_pairs {P : Nat → Json → Prop} (hP : Builds P) (fuel : Nat) :
    (∀ {room : Nat} {t rest : Text} {v : Json}, value room fuel t = .ok (v, rest) → P room v) ∧
    (∀ {room : Nat} {t rest : Text} {vs : List Json}, items room fuel t = .ok (vs, rest) →
      ∀ v ∈ vs, P room v) ∧
    (∀ {room : Nat} {t rest : Text} {ps : List (Text × Json)},
      pairs room fuel t = .ok (ps, rest) → ∀ p ∈ ps, P room p.2) := by
  induction fuel with
  | zero => refine ⟨?_, ?_, ?_⟩ <;> intro room t rest v h <;> cases h
  | succ fuel ih =>
    obtain ⟨ihv, ihi, ihp⟩ := ih
    refine ⟨?_, ?_, ?_⟩
    · intro room t rest v h
      unfold value at h
      split at h
      · cases h
      · obtain ⟨p, _, hp⟩ := exists_of_bind_eq_ok h
        cases hp
        exact hP.str _ _
      · cases h
      · split at h
        · cases h
          exact hP.arr (by simp)
        · obtain ⟨p, hi, hp⟩ := exists_of_bind_eq_ok h
          cases hp
          exact hP.arr (ihi hi)
      · cases h
      · split at h
        · cases h
          exact hP.obj (by simp)
        · obtain ⟨p, hi, hp⟩ := exists_of_bind_eq_ok h
          cases hp
          exact hP.obj (forall_membersOf (ihp hi))
      · exact hP.scalar h
    · intro room t rest vs h
      unfold items at h
      obtain ⟨⟨v, after⟩, hv, h⟩ := exists_of_bind_eq_ok h
      have hbv := ihv hv
      dsimp only at h
      split at h
      · cases h
        simpa using hbv
      · obtain ⟨⟨more, last⟩, hi, h⟩ := exists_of_bind_eq_ok h
        cases h
        exact List.forall_mem_cons.2 ⟨hbv, ihi hi⟩
      · cases h
    · intro room t rest ps h
      unfold pairs at h
      split at h
      · obtain ⟨⟨key, afterKey⟩, _, h⟩ := exists_of_bind_eq_ok h
        dsimp only at h
        split at h
        · obtain ⟨⟨v, after⟩, hv, h⟩ := exists_of_bind_eq_ok h
          have hbv := ihv hv
          dsimp only at h
          split at h
          · cases h
            simpa using hbv
          · obtain ⟨⟨more, last⟩, hi, h⟩ := exists_of_bind_eq_ok h
            cases h
            exact List.forall_mem_cons.2 ⟨hbv, ihp hi⟩
          · cases h
        · cases h
      · cases h

theorem Builds.read {P : Nat → Json → Prop} (hP : Builds P) {t : Text} {v : Json}
    (h : Json.read t = .ok v) : P maxDepth v := by
  unfold Json.read at h
  cases hw : whole t with
  | error e => rw [hw] at h; cases h
  | ok v' =>
    rw [hw] at h
    cases h
    unfold whole at hw
    split at hw
    · cases hw
    · obtain ⟨⟨u, after⟩, hu, hw⟩ := exists_of_bind_eq_ok hw
      dsimp only at hw
      split at hw
      · cases hw
        exact (hP.value_items_pairs _).1 hu
      · cases hw

end Reader

theorem read_bounded {t : Text} {v : Json} (h : read t = .ok v) : Bounded v := by
  have hbuilds : Reader.Builds fun _ v => Bounded v :=
    ⟨fun _ => .str, Reader.scalar_bounded, .arr, .obj⟩
  exact hbuilds.read h

end Json

namespace Record

theorem line_isShort {v : Json} {n : Int} (hv : v.Bounded) (h : line v = .ok (some n)) :
    Json.IsShort n := by
  cases hv with
  | null => cases h
  | bool b => cases b <;> cases h <;> decide
  | int hi =>
    cases h
    exact hi
  | @float x hx =>
    cases x with
    | nan => cases h
    | infinity s => cases h
    | finite s m e =>
      cases h
      exact (Json.isShort_iff _).2 (Binary64.truncate_lt hx)
  | str t =>
    have hr : Integer.read? t = some n := Except.ok.inj h
    exact Json.isShort_read? hr
  | arr _ => cases h
  | obj _ => cases h

section Parts
variable {α β : Type}

theorem run_bind (x : OptionT (Except Failure) α) (f : α → OptionT (Except Failure) β) :
    (x >>= f).run = match x.run with
      | .ok (some a) => (f a).run
      | .ok none => .ok none
      | .error e => .error e := by
  rw [OptionT.run_bind]
  cases x.run with
  | error e => rfl
  | ok a => cases a <;> rfl

theorem exists_of_run_bind {x : OptionT (Except Failure) α} {f : α → OptionT (Except Failure) β}
    {b : β} (h : (x >>= f).run = .ok (some b)) :
    ∃ a, x.run = .ok (some a) ∧ (f a).run = .ok (some b) := by
  rw [run_bind] at h
  split at h
  · next a hx => exact ⟨a, hx, h⟩
  · cases h
  · cases h

theorem run_bind_eq_error {x : OptionT (Except Failure) α} {f : α → OptionT (Except Failure) β}
    {e : Failure} (h : (x >>= f).run = .error e) :
    x.run = .error e ∨ ∃ a, x.run = .ok (some a) ∧ (f a).run = .error e := by
  rw [run_bind] at h
  split at h
  · next a hx => exact .inr ⟨a, hx, h⟩
  · cases h
  · next hx =>
    cases h
    exact .inl hx

theorem given_run (part : Json → Except Failure (Option α)) (key : Text)
    (ms : List (Text × Json)) : (given part key ms).run =
      match Json.member? key ms with
      | some v => part v
      | none => .ok none := rfl

theorem exists_of_given {part : Json → Except Failure (Option α)} {key : Text}
    {ms : List (Text × Json)} {found : Except Failure (Option α)}
    (h : (given part key ms).run = found) (hfound : found ≠ .ok none) :
    ∃ v, Json.member? key ms = some v ∧ part v = found := by
  rw [given_run] at h
  split at h
  · next v hv => exact ⟨v, hv, h⟩
  · exact absurd h.symm hfound

end Parts

/-- The line of a record that a bounded value makes is short. -/
theorem ofJson_isShort {v : Json} {r : Record} (hv : v.Bounded) (h : ofJson v = .ok r) :
    Json.IsShort r.key.line := by
  cases hv with
  | obj hms =>
    unfold ofJson at h
    simp only at h
    split at h
    · next hr =>
      cases h
      obtain ⟨document, -, hr⟩ := exists_of_run_bind hr
      obtain ⟨function, -, hr⟩ := exists_of_run_bind hr
      obtain ⟨n, hn, hr⟩ := exists_of_run_bind hr
      obtain ⟨timestamp, -, hr⟩ := exists_of_run_bind hr
      cases hr
      obtain ⟨start, hs, hline⟩ := exists_of_given hn nofun
      obtain ⟨m, hm, rfl⟩ := Json.mem_of_member? hs
      exact line_isShort (hms m hm) hline
    · cases h
    · cases h
  | _ => cases h

end Record

end CostLens
