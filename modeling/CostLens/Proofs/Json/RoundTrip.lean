import CostLens.Json.Reader
import CostLens.Json.Writer
import CostLens.Proofs.Text.Digit
import CostLens.Proofs.Text.Utf8

/-! # Reading what was written

A written value is read back as the same value: strings through their escapes, integers through
their digits, containers item by item. The reader is followed on the writer's text with an
arbitrary rest behind it, so that the statement for a container follows from those for its parts.
Doubles are left out, and a value may not be nested deeper than the reader has room for.
-/
namespace CostLens.Json

/-- An integer that is short enough to be read back. -/
def IsShort (i : Int) : Prop := (natText i.natAbs).length ≤ Integer.maxDigits

instance (i : Int) : Decidable (IsShort i) := inferInstanceAs (Decidable (_ ≤ _))

mutual

/-- Values that keep their identity in a text: no doubles, short integers, distinct keys. -/
def Storable : Json → Prop
  | .null | .bool _ | .str _ => True
  | .int i => IsShort i
  | .float _ => False
  | .arr items => StorableItems items
  | .obj members => (members.map (·.1)).Nodup ∧ StorableMembers members

/-- Every value of a list is storable. -/
def StorableItems : List Json → Prop
  | [] => True
  | v :: vs => Storable v ∧ StorableItems vs

/-- Every value of a list of members is storable. -/
def StorableMembers : List (Text × Json) → Prop
  | [] => True
  | (_, v) :: ms => Storable v ∧ StorableMembers ms

end

mutual

/-- How many containers are open at once in a value. -/
def depth : Json → Nat
  | .arr items => depthItems items + 1
  | .obj members => depthMembers members + 1
  | _ => 0

/-- The greatest depth in a list of values. -/
def depthItems : List Json → Nat
  | [] => 0
  | v :: vs => max (depth v) (depthItems vs)

/-- The greatest depth in a list of members. -/
def depthMembers : List (Text × Json) → Nat
  | [] => 0
  | (_, v) :: ms => max (depth v) (depthMembers ms)

end

namespace Reader

/-! ## Strings -/

theorem unit?_hex : ∀ n < 0x20,
    ∃ a b c d, Quoted.hex 4 n = [a, b, c, d] ∧ unit? a b c d = some n := by
  have hh : ∀ n < 0x20, Quoted.hex 4 n = ['0', '0', (n / 16).digitChar, (n % 16).digitChar] ∧
      unit? '0' '0' (n / 16).digitChar (n % 16).digitChar = some n := by decide
  intro n hn
  exact ⟨_, _, _, _, hh n hn⟩

theorem units_escape {opening rest after : Text} {e c : Char} {us : List Nat}
    (he : simpleEscape? e = some c) (h : units opening rest = .ok (us, after)) :
    units opening ('\\' :: e :: rest) = .ok (c.toNat :: us, after) := by
  have hu : e ≠ 'u' := by
    rintro rfl
    simp [simpleEscape?] at he
  rw [units.eq_5 _ _ _ (fun _ _ _ _ _ _ h => absurd h hu) hu, he, h]
  rfl

/-- One written character is read as its code unit, as long as something follows it. -/
theorem units_char {opening rest after : Text} {next : Char} {us : List Nat} (c : Char)
    (h : units opening (next :: rest) = .ok (us, after)) :
    units opening (Writer.char c ++ next :: rest) = .ok (c.toNat :: us, after) := by
  unfold Writer.char
  split
  · next hq =>
    rcases hq with rfl | rfl
    · exact units_escape rfl h
    · exact units_escape rfl h
  next hq =>
  split
  · next hc => exact hc ▸ units_escape rfl h
  split
  · next hc => exact hc ▸ units_escape rfl h
  split
  · next hc => exact hc ▸ units_escape rfl h
  split
  · next hc => exact hc ▸ units_escape rfl h
  split
  · next hc => exact hc ▸ units_escape rfl h
  split
  · next hc =>
    -- the only escape of several letters; the reader wants a character behind it
    obtain ⟨a, b, x, y, he, hu⟩ := unit?_hex c.toNat hc
    rw [he]
    change units opening ('\\' :: 'u' :: a :: b :: x :: y :: next :: rest) = _
    rw [units.eq_3, hu, h]
    rfl
  · next hc =>
    have hs : c ≠ '\\' := fun e => hq (.inr e)
    change units opening (c :: next :: rest) = _
    rw [units.eq_7 _ _ _ (fun e => hq (.inl e)) (fun _ _ _ _ _ _ e => absurd e hs)
      (fun _ e => absurd e hs) (fun _ _ e => absurd e hs) (fun e => absurd e hs), if_neg hc, h]
    rfl

theorem units_string (opening t rest : Text) :
    units opening (t.flatMap Writer.char ++ '"' :: rest) = .ok (t.map Char.toNat, rest) := by
  induction t with
  | nil => rfl
  | cons c t ih =>
    obtain ⟨next, more, he⟩ : ∃ next more, t.flatMap Writer.char ++ '"' :: rest = next :: more :=
      List.exists_cons_of_ne_nil (by simp)
    rw [he] at ih
    rw [List.flatMap_cons, List.append_assoc, he, units_char c ih]
    rfl

/-- No character is a surrogate, so the code units of a text are its characters. -/
theorem ofUnits_map_toNat (t : Text) : ofUnits (t.map Char.toNat) = t := by
  induction t with
  | nil => rfl
  | cons c t ih =>
    have hc : ¬ (0xd800 ≤ c.toNat ∧ c.toNat ≤ 0xdfff) := by
      have h := Utf8.toNat_valid c
      omega
    cases t with
    | nil => simp only [List.map_cons, List.map_nil, ofUnits, if_neg hc, Char.ofNat_toNat]
    | cons d t =>
      simp only [List.map_cons] at ih ⊢
      rw [ofUnits, if_neg (by omega), if_neg hc, ih, Char.ofNat_toNat]

theorem string_write (t rest : Text) :
    string (t.flatMap Writer.char ++ '"' :: rest) = .ok (t, rest) := by
  rw [string, units_string]
  simp only [bind, Except.bind, pure, Except.pure, ofUnits_map_toNat]

/-! ## Integers -/

/-- What stands behind a number: nothing that could go on with it. -/
def EndsNumber (rest : Text) : Prop :=
  ∀ c ∈ rest.head?, c.isDigit = false ∧ c ≠ '.' ∧ c ≠ 'e' ∧ c ≠ 'E'

theorem takeWhile_natText {rest : Text} (n : Nat) (h : EndsNumber rest) :
    (natText n ++ rest).takeWhile Char.isDigit = natText n := by
  rw [List.takeWhile_append_of_pos fun c hc => isDigit_of_mem_natText hc]
  cases rest with
  | nil => simp
  | cons c rest => simp [(h c rfl).1]

theorem wholeDigits_natText {rest : Text} (n : Nat) (h : EndsNumber rest) :
    wholeDigits (natText n ++ rest) = natText n := by
  rcases Nat.eq_zero_or_pos n with rfl | hn
  · rw [natText_zero]
    rfl
  · obtain ⟨c, t, hc⟩ := List.exists_cons_of_ne_nil (natText_ne_nil n)
    have hne : c ≠ '0' := by simpa [hc] using natText_head_ne_zero hn
    have ht := takeWhile_natText n h
    rw [hc, List.cons_append] at ht ⊢
    unfold wholeDigits
    split
    · next he => exact absurd (List.cons.inj he).1 hne
    · exact ht

theorem fraction_eq_nil {rest : Text} (h : EndsNumber rest) : fraction rest = ([], rest) := by
  unfold fraction
  split
  · next r => exact absurd rfl (h '.' rfl).2.1
  · rfl

theorem exponent?_eq_none {rest : Text} (h : EndsNumber rest) : exponent? rest = none := by
  unfold exponent?
  split
  · next e r =>
    obtain ⟨-, -, he, hE⟩ := h e rfl
    rw [if_neg (by simp [he, hE])]
  · rfl

theorem digitsValue_natText (n : Nat) : digitsValue (natText n) = n :=
  Nat.ofDigitChars_ten_toDigits

theorem number_negative {n : Nat} {rest : Text} (hn : (natText n).length ≤ Integer.maxDigits)
    (h : EndsNumber rest) : number ('-' :: natText n ++ rest) = .ok (.int (-n), rest) := by
  have hnil : (natText n).isEmpty = false := by simpa using natText_ne_nil n
  simp only [number, List.cons_append, wholeDigits_natText n h, hnil, List.drop_left,
    fraction_eq_nil h, exponent?_eq_none h, List.isEmpty_nil, Nat.not_lt.2 hn,
    digitsValue_natText, Bool.false_eq_true, if_false, if_true]

theorem number_natural {n : Nat} {rest : Text} (hn : (natText n).length ≤ Integer.maxDigits)
    (h : EndsNumber rest) : number (natText n ++ rest) = .ok (.int n, rest) := by
  have hnil : (natText n).isEmpty = false := by simpa using natText_ne_nil n
  have hsign : ∀ r, natText n ++ rest ≠ '-' :: r := by
    intro r he
    obtain ⟨c, t, hc⟩ := List.exists_cons_of_ne_nil (natText_ne_nil n)
    have hd : c.isDigit = true := isDigit_of_mem_natText (hc ▸ List.mem_cons_self)
    rw [hc] at he
    rw [(List.cons.inj he).1] at hd
    exact absurd hd (by decide)
  unfold number
  split
  next negative t hm =>
  split at hm
  · next r he => exact absurd he (hsign r)
  · obtain ⟨rfl, rfl⟩ := Prod.mk.inj hm
    simp only [wholeDigits_natText n h, hnil, List.drop_left, fraction_eq_nil h,
      exponent?_eq_none h, List.isEmpty_nil, Nat.not_lt.2 hn, digitsValue_natText,
      Bool.false_eq_true, if_false, if_true]

theorem number_intText {i : Int} {rest : Text} (hi : IsShort i) (h : EndsNumber rest) :
    number (intText i ++ rest) = .ok (.int i, rest) := by
  unfold intText
  split
  · next hneg =>
    rw [number_negative hi h, show -(i.natAbs : Int) = i by omega]
  · next hpos =>
    rw [number_natural hi h, show (i.natAbs : Int) = i by omega]

/-! ## Values -/

theorem skipSpace_cons {c : Char} {t : Text} (h : isSpace c = false) :
    skipSpace (c :: t) = c :: t := by
  simp [skipSpace, h]

theorem skipSpace_lineStart (level : Nat) (t : Text) :
    skipSpace (Writer.lineStart level ++ t) = skipSpace t := by
  have h : ∀ c ∈ Writer.lineStart level, isSpace c = true := by
    intro c hc
    rcases List.mem_cons.1 hc with rfl | hc
    · decide
    · rw [(List.mem_replicate.1 hc).2]
      decide
  exact List.dropWhile_append_of_pos h

/-- The characters that a written value can begin with. -/
def Begins (c : Char) : Prop :=
  c ∈ ['n', 't', 'f', '"', '[', '\x7b', '-'] ∨ c.isDigit = true

theorem Begins.ne {c d : Char} (h : Begins c) (hd : d.isDigit = false)
    (hm : d ∉ ['n', 't', 'f', '"', '[', '\x7b', '-']) : c ≠ d := by
  rintro rfl
  rcases h with h | h
  · exact hm h
  · rw [h] at hd
    cases hd

theorem Begins.isSpace {c : Char} (h : Begins c) : isSpace c = false := by
  have h1 : c ≠ ' ' := h.ne (by decide) (by decide)
  have h2 : c ≠ '\t' := h.ne (by decide) (by decide)
  have h3 : c ≠ '\n' := h.ne (by decide) (by decide)
  have h4 : c ≠ '\r' := h.ne (by decide) (by decide)
  simp [Reader.isSpace, h1, h2, h3, h4]

theorem intText_begins (i : Int) : ∃ c t, intText i = c :: t ∧ (c = '-' ∨ c.isDigit = true) := by
  unfold intText
  split
  · exact ⟨_, _, rfl, .inl rfl⟩
  · obtain ⟨c, t, hc⟩ := List.exists_cons_of_ne_nil (natText_ne_nil i.natAbs)
    exact ⟨c, t, hc, .inr (isDigit_of_mem_natText (hc ▸ List.mem_cons_self))⟩

theorem value_begins (level : Nat) {v : Json} (h : Storable v) :
    ∃ c t, Writer.value level v = c :: t ∧ Begins c := by
  cases v with
  | null => exact ⟨_, _, rfl, .inl (by decide)⟩
  | bool b => cases b <;> exact ⟨_, _, rfl, .inl (by decide)⟩
  | int i =>
    obtain ⟨c, t, hc, hb⟩ := intText_begins i
    refine ⟨c, t, by rw [Writer.value, hc], ?_⟩
    rcases hb with rfl | hd
    · exact .inl (by decide)
    · exact .inr hd
  | float x => exact absurd h id
  | str t => exact ⟨_, _, rfl, .inl (by decide)⟩
  | arr items => cases items <;> exact ⟨_, _, rfl, .inl (by decide)⟩
  | obj members => cases members <;> exact ⟨_, _, rfl, .inl (by decide)⟩

theorem isPrefixOf?_cons_cons (x y : Char) (s t : Text) :
    (x :: s).isPrefixOf? (y :: t) = if (x == y) = true then s.isPrefixOf? t else none := rfl

theorem words_intText (i : Int) (rest : Text) : (words.findSome? fun w =>
    (w.1.isPrefixOf? (intText i ++ rest)).map fun r => (w.2, r)) = none := by
  obtain ⟨c, t, hc⟩ := List.exists_cons_of_ne_nil (natText_ne_nil i.natAbs)
  have hd : c.isDigit = true := isDigit_of_mem_natText (hc ▸ List.mem_cons_self)
  have hne : ∀ d : Char, d.isDigit = false → d ≠ c := by
    rintro d h rfl
    rw [h] at hd
    cases hd
  have hn := hne 'n' (by decide)
  have ht := hne 't' (by decide)
  have hf := hne 'f' (by decide)
  have hN := hne 'N' (by decide)
  have hI := hne 'I' (by decide)
  have hm := hne '-' (by decide)
  unfold intText
  split <;> simp [words, hc, isPrefixOf?_cons_cons, hn, ht, hf, hN, hI, hm]

theorem scalar_intText {i : Int} {rest : Text} (hi : IsShort i) (h : EndsNumber rest) :
    scalar (intText i ++ rest) = .ok (.int i, rest) := by
  rw [scalar, words_intText]
  exact number_intText hi h

/-- A text that begins with neither a quote nor a bracket is a word or a number. -/
theorem value_scalar {room fuel : Nat} {c : Char} {t : Text} (hq : c ≠ '"') (ha : c ≠ '[')
    (ho : c ≠ '\x7b') : value room (fuel + 1) (c :: t) = scalar (c :: t) := by
  apply value.eq_8
  · simp
  · exact fun _ e => hq (List.cons.inj e).1
  · exact fun _ e _ => ha (List.cons.inj e).1
  · exact fun _ _ e _ => ha (List.cons.inj e).1
  · exact fun _ e _ => ho (List.cons.inj e).1
  · exact fun _ _ e _ => ho (List.cons.inj e).1

theorem string_append (t rest : Text) :
    Writer.string t ++ rest = '"' :: (t.flatMap Writer.char ++ '"' :: rest) := by
  simp [Writer.string]

theorem value_string (room fuel : Nat) (t rest : Text) :
    value room (fuel + 1) (Writer.string t ++ rest) = .ok (.str t, rest) := by
  rw [string_append, value.eq_3, string_write]
  rfl

theorem value_array {room fuel : Nat} {inner t after : Text} {c : Char} {vs : List Json}
    (hs : skipSpace inner = c :: t) (hc : c ≠ ']')
    (h : items room fuel (c :: t) = .ok (vs, after)) :
    value (room + 1) (fuel + 1) ('[' :: inner) = .ok (.arr vs, after) := by
  rw [value.eq_5, hs]
  split
  · next he => exact absurd (List.cons.inj he).1 hc
  · rw [h]
    rfl

theorem value_object {room fuel : Nat} {inner t after : Text} {c : Char}
    {ps : List (Text × Json)} (hs : skipSpace inner = c :: t) (hc : c ≠ '\x7d')
    (h : pairs room fuel (c :: t) = .ok (ps, after)) :
    value (room + 1) (fuel + 1) ('\x7b' :: inner) = .ok (.obj (membersOf ps), after) := by
  rw [value.eq_7, hs]
  split
  · next he => exact absurd (List.cons.inj he).1 hc
  · rw [h]
    rfl

theorem items_last {room fuel : Nat} {t after rest : Text} {v : Json}
    (hv : value room fuel t = .ok (v, after)) (hs : skipSpace after = ']' :: rest) :
    items room (fuel + 1) t = .ok ([v], rest) := by
  rw [items.eq_2, hv]
  simp only [bind, Except.bind, hs]
  rfl

theorem items_more {room fuel : Nat} {t after more rest : Text} {v : Json} {vs : List Json}
    (hv : value room fuel t = .ok (v, after)) (hs : skipSpace after = ',' :: more)
    (hm : items room fuel (skipSpace more) = .ok (vs, rest)) :
    items room (fuel + 1) t = .ok (v :: vs, rest) := by
  rw [items.eq_2, hv]
  simp only [bind, Except.bind, hs, hm]
  rfl

theorem pairs_last {room fuel : Nat} {key t after rest : Text} {v : Json}
    (hv : value room fuel (skipSpace t) = .ok (v, after)) (hs : skipSpace after = '\x7d' :: rest) :
    pairs room (fuel + 1) (Writer.string key ++ ':' :: t) = .ok ([(key, v)], rest) := by
  have hc : skipSpace (':' :: t) = ':' :: t := skipSpace_cons (by decide)
  rw [string_append, pairs.eq_2, string_write]
  simp only [bind, Except.bind, hc, hv, hs]
  rfl

theorem pairs_more {room fuel : Nat} {key t after more rest : Text} {v : Json}
    {ps : List (Text × Json)} (hv : value room fuel (skipSpace t) = .ok (v, after))
    (hs : skipSpace after = ',' :: more)
    (hm : pairs room fuel (skipSpace more) = .ok (ps, rest)) :
    pairs room (fuel + 1) (Writer.string key ++ ':' :: t) = .ok ((key, v) :: ps, rest) := by
  have hc : skipSpace (':' :: t) = ':' :: t := skipSpace_cons (by decide)
  rw [string_append, pairs.eq_2, string_write]
  simp only [bind, Except.bind, hc, hv, hs, hm]
  rfl

/-- The items of an array as the reader meets them. -/
def itemsText (level : Nat) : List Json → Text
  | [] => []
  | v :: vs => Writer.value level v ++ Writer.items level vs

/-- The members of an object as the reader meets them. -/
def membersText (level : Nat) : List (Text × Json) → Text
  | [] => []
  | (key, v) :: ms =>
    Writer.string key ++ ':' :: ' ' :: (Writer.value level v ++ Writer.members level ms)

theorem value_arr (level : Nat) {vs : List Json} (h : vs ≠ []) :
    Writer.value level (.arr vs) = '[' :: (Writer.lineStart (level + 1) ++
      (itemsText (level + 1) vs ++ (Writer.lineStart level ++ [']']))) := by
  cases vs with
  | nil => exact absurd rfl h
  | cons v vs => simp [Writer.value, itemsText]

theorem value_obj (level : Nat) {ms : List (Text × Json)} (h : ms ≠ []) :
    Writer.value level (.obj ms) = '\x7b' :: (Writer.lineStart (level + 1) ++
      (membersText (level + 1) ms ++ (Writer.lineStart level ++ ['\x7d']))) := by
  cases ms with
  | nil => exact absurd rfl h
  | cons m ms => simp [Writer.value, membersText]

theorem items_eq (level : Nat) {vs : List Json} (h : vs ≠ []) :
    Writer.items level vs = ',' :: (Writer.lineStart level ++ itemsText level vs) := by
  cases vs with
  | nil => exact absurd rfl h
  | cons v vs => simp [Writer.items, itemsText]

theorem members_eq (level : Nat) {ms : List (Text × Json)} (h : ms ≠ []) :
    Writer.members level ms = ',' :: (Writer.lineStart level ++ membersText level ms) := by
  cases ms with
  | nil => exact absurd rfl h
  | cons m ms => simp [Writer.members, membersText]

theorem itemsText_begins (level : Nat) {vs : List Json} (hv : StorableItems vs) (h : vs ≠ []) :
    ∃ c t, itemsText level vs = c :: t ∧ Begins c := by
  cases vs with
  | nil => exact absurd rfl h
  | cons v vs =>
    obtain ⟨c, t, hc, hb⟩ := value_begins level hv.1
    exact ⟨c, t ++ Writer.items level vs, by rw [itemsText, hc, List.cons_append], hb⟩

theorem membersText_begins (level : Nat) {ms : List (Text × Json)} (h : ms ≠ []) :
    ∃ t, membersText level ms = '"' :: t := by
  cases ms with
  | nil => exact absurd rfl h
  | cons m ms => exact ⟨_, string_append m.1 _⟩

theorem setMember_of_not_mem {key : Text} {v : Json} {ms : List (Text × Json)}
    (h : key ∉ ms.map (·.1)) : setMember key v ms = ms ++ [(key, v)] := by
  induction ms with
  | nil => rfl
  | cons m ms ih =>
    simp only [List.map_cons, List.mem_cons, not_or] at h
    rw [setMember, if_neg (Ne.symm h.1), ih h.2, List.cons_append]

theorem foldl_setMember (ms acc : List (Text × Json)) (h : ((acc ++ ms).map (·.1)).Nodup) :
    ms.foldl (fun members p => setMember p.1 p.2 members) acc = acc ++ ms := by
  induction ms generalizing acc with
  | nil => simp
  | cons m ms ih =>
    have hm : m.1 ∉ acc.map (·.1) := by
      intro hm
      rw [List.map_append, List.nodup_append] at h
      exact h.2.2 m.1 hm m.1 (by simp) rfl
    rw [List.foldl_cons, setMember_of_not_mem hm, ih _ (by simpa using h)]
    simp

/-- An object whose keys are distinct is made of its members as they are. -/
theorem membersOf_eq_self {ms : List (Text × Json)} (h : (ms.map (·.1)).Nodup) :
    membersOf ms = ms := foldl_setMember ms [] h

theorem endsNumber_cons {c : Char} {t : Text} (hd : c.isDigit = false)
    (hm : c ∉ ['.', 'e', 'E']) : EndsNumber (c :: t) := by
  intro d h
  simp only [List.head?_cons, Option.mem_some_iff] at h
  simp only [List.mem_cons, List.not_mem_nil, or_false, not_or] at hm
  exact h ▸ ⟨hd, hm.1, hm.2.1, hm.2.2⟩

theorem endsNumber_lineStart (level : Nat) (t : Text) :
    EndsNumber (Writer.lineStart level ++ t) := endsNumber_cons (by decide) (by decide)

theorem fuel_pos {n fuel : Nat} (h : 0 < n) (hf : 2 * n ≤ fuel) : ∃ f, fuel = f + 1 :=
  ⟨fuel - 1, by omega⟩

mutual

theorem value_write : ∀ (v : Json) {room fuel level : Nat} {rest : Text}, Storable v →
    depth v ≤ room → 2 * (Writer.value level v).length ≤ fuel → EndsNumber rest →
    value room fuel (Writer.value level v ++ rest) = .ok (v, rest)
  | .null, room, fuel, level, rest, _, _, hf, _ => by
    obtain ⟨fuel, rfl⟩ := fuel_pos (by simp [Writer.value]) hf
    exact value_scalar (by decide) (by decide) (by decide)
  | .bool b, room, fuel, level, rest, _, _, hf, _ => by
    obtain ⟨fuel, rfl⟩ := fuel_pos (by cases b <;> simp [Writer.value]) hf
    cases b <;> exact value_scalar (by decide) (by decide) (by decide)
  | .int i, room, fuel, level, rest, hv, _, hf, hr => by
    obtain ⟨c, t, hc, hb⟩ := intText_begins i
    have hne : ∀ d : Char, d ≠ '-' → d.isDigit = false → c ≠ d := by
      rintro d hm hd rfl
      rcases hb with rfl | hb
      · exact hm rfl
      · rw [hb] at hd
        cases hd
    obtain ⟨fuel, rfl⟩ := fuel_pos (by simp [Writer.value, hc]) hf
    have hs := scalar_intText hv hr
    rw [hc] at hs
    rw [Writer.value, hc]
    exact (value_scalar (hne _ (by decide) (by decide)) (hne _ (by decide) (by decide))
      (hne _ (by decide) (by decide))).trans hs
  | .float x, _, _, _, _, hv, _, _, _ => absurd hv id
  | .str t, room, fuel, level, rest, _, _, hf, _ => by
    obtain ⟨fuel, rfl⟩ := fuel_pos (by simp [Writer.value, Writer.string]) hf
    exact value_string room fuel t rest
  | .arr vs, room, fuel, level, rest, hv, hd, hf, _ => by
    obtain ⟨room, rfl⟩ : ∃ r, room = r + 1 := ⟨room - 1, by simp only [depth] at hd; omega⟩
    by_cases hvs : vs = []
    · subst hvs
      obtain ⟨fuel, rfl⟩ := fuel_pos (by simp [Writer.value]) hf
      rfl
    · rw [value_arr level hvs] at hf ⊢
      simp only [List.length_cons, List.length_append] at hf
      obtain ⟨fuel, rfl⟩ := fuel_pos (by omega) hf
      obtain ⟨c, t, hc, hb⟩ := itemsText_begins (level + 1) hv hvs
      simp only [List.cons_append, List.append_assoc, List.nil_append]
      have hs : skipSpace (Writer.lineStart (level + 1) ++ (itemsText (level + 1) vs ++
          (Writer.lineStart level ++ ']' :: rest))) =
          c :: (t ++ (Writer.lineStart level ++ ']' :: rest)) := by
        rw [skipSpace_lineStart, hc, List.cons_append, skipSpace_cons hb.isSpace]
      apply value_array hs (hb.ne (by decide) (by decide))
      rw [← List.cons_append, ← hc]
      exact items_write vs hv hvs (Nat.le_of_succ_le_succ hd) (by omega)
  | .obj ms, room, fuel, level, rest, hv, hd, hf, _ => by
    obtain ⟨room, rfl⟩ : ∃ r, room = r + 1 := ⟨room - 1, by simp only [depth] at hd; omega⟩
    by_cases hms : ms = []
    · subst hms
      obtain ⟨fuel, rfl⟩ := fuel_pos (by simp [Writer.value]) hf
      rfl
    · rw [value_obj level hms] at hf ⊢
      simp only [List.length_cons, List.length_append] at hf
      obtain ⟨fuel, rfl⟩ := fuel_pos (by omega) hf
      obtain ⟨t, hc⟩ := membersText_begins (level + 1) hms
      simp only [List.cons_append, List.append_assoc, List.nil_append]
      have hs : skipSpace (Writer.lineStart (level + 1) ++ (membersText (level + 1) ms ++
          (Writer.lineStart level ++ '\x7d' :: rest))) =
          '"' :: (t ++ (Writer.lineStart level ++ '\x7d' :: rest)) := by
        rw [skipSpace_lineStart, hc, List.cons_append, skipSpace_cons (by decide)]
      have hp : pairs room fuel ('"' :: (t ++ (Writer.lineStart level ++ '\x7d' :: rest))) =
          .ok (ms, rest) := by
        rw [← List.cons_append, ← hc]
        exact pairs_write ms hv.2 hms (Nat.le_of_succ_le_succ hd) (by omega)
      have ho := value_object hs (by decide) hp
      rw [membersOf_eq_self hv.1] at ho
      exact ho

theorem items_write : ∀ (vs : List Json) {room fuel level close : Nat} {rest : Text},
    StorableItems vs → vs ≠ [] → depthItems vs ≤ room →
    2 * (itemsText level vs).length + 1 ≤ fuel →
    items room fuel (itemsText level vs ++ (Writer.lineStart close ++ ']' :: rest)) =
      .ok (vs, rest)
  | [], _, _, _, _, _, _, h, _, _ => absurd rfl h
  | v :: vs, room, fuel, level, close, rest, hv, _, hd, hf => by
    simp only [depthItems] at hd
    simp only [itemsText, List.length_append] at hf
    obtain ⟨fuel, rfl⟩ : ∃ f, fuel = f + 1 := ⟨fuel - 1, by omega⟩
    rw [itemsText, List.append_assoc]
    by_cases hvs : vs = []
    · subst hvs
      apply items_last (value_write v hv.1 (by omega) (by omega) (endsNumber_lineStart close _))
      rw [skipSpace_lineStart, skipSpace_cons (by decide)]
    · rw [items_eq level hvs] at hf ⊢
      simp only [List.length_cons, List.length_append] at hf
      simp only [List.cons_append, List.append_assoc]
      obtain ⟨c, t, hc, hb⟩ := itemsText_begins level hv.2 hvs
      apply items_more (value_write v hv.1 (by omega) (by omega)
        (endsNumber_cons (by decide) (by decide))) (skipSpace_cons (by decide))
      rw [skipSpace_lineStart, hc, List.cons_append, skipSpace_cons hb.isSpace, ← List.cons_append, ← hc]
      exact items_write vs hv.2 hvs (by omega) (by omega)

theorem pairs_write : ∀ (ms : List (Text × Json)) {room fuel level close : Nat} {rest : Text},
    StorableMembers ms → ms ≠ [] → depthMembers ms ≤ room →
    2 * (membersText level ms).length + 1 ≤ fuel →
    pairs room fuel (membersText level ms ++ (Writer.lineStart close ++ '\x7d' :: rest)) =
      .ok (ms, rest)
  | [], _, _, _, _, _, _, h, _, _ => absurd rfl h
  | (key, v) :: ms, room, fuel, level, close, rest, hv, _, hd, hf => by
    simp only [depthMembers] at hd
    simp only [membersText, List.length_append, List.length_cons] at hf
    obtain ⟨fuel, rfl⟩ : ∃ f, fuel = f + 1 := ⟨fuel - 1, by omega⟩
    obtain ⟨c, t, hc, hb⟩ := value_begins level hv.1
    have hs : ∀ r, skipSpace (' ' :: (Writer.value level v ++ r)) = Writer.value level v ++ r := by
      intro r
      rw [hc, List.cons_append]
      exact skipSpace_cons hb.isSpace
    simp only [membersText, List.append_assoc, List.cons_append]
    by_cases hms : ms = []
    · subst hms
      apply pairs_last (hs _ ▸ value_write v hv.1 (by omega) (by omega)
        (endsNumber_lineStart close _))
      rw [skipSpace_lineStart, skipSpace_cons (by decide)]
    · rw [members_eq level hms] at hf ⊢
      simp only [List.length_cons, List.length_append] at hf
      simp only [List.cons_append, List.append_assoc]
      obtain ⟨t, hc⟩ := membersText_begins level hms
      apply pairs_more (hs _ ▸ value_write v hv.1 (by omega) (by omega)
        (endsNumber_cons (by decide) (by decide))) (skipSpace_cons (by decide))
      rw [skipSpace_lineStart, hc, List.cons_append, skipSpace_cons (by decide), ← List.cons_append, ← hc]
      exact pairs_write ms hv.2 hms (by omega) (by omega)

end

end Reader

/-- A storable value that is not nested too deep is read back from its text. -/
theorem read_write {v : Json} (hv : Storable v) (hd : depth v ≤ maxDepth) :
    read (write v) = .ok v := by
  obtain ⟨c, t, hc, hb⟩ := Reader.value_begins 0 hv
  have hs : Reader.skipSpace (Writer.value 0 v) = Writer.value 0 v := by
    rw [hc, Reader.skipSpace_cons hb.isSpace]
  have hw : Reader.value maxDepth (2 * (Writer.value 0 v).length + 2) (Writer.value 0 v ++ []) =
      .ok (v, []) :=
    Reader.value_write v hv hd (Nat.le_add_right _ 2) (fun _ h => absurd h (by simp))
  rw [List.append_nil] at hw
  rw [read, write, Reader.whole, hs, hw]
  · rfl
  · intro r he
    rw [hc] at he
    exact hb.ne (by decide) (by decide) (List.cons.inj he).1

/-! ## Carriage returns

Reading a file folds carriage returns into line feeds, so it matters that none is written. -/

theorem not_mem_lineStart (level : Nat) : '\r' ∉ Writer.lineStart level := by
  simp [Writer.lineStart]

theorem not_mem_natText (n : Nat) : '\r' ∉ natText n := fun h =>
  absurd (isDigit_of_mem_natText h) (by decide)

theorem not_mem_char (c : Char) : '\r' ∉ Writer.char c := by
  have hh : ∀ n < 0x20, '\r' ∉ ("\\u" : Text) ++ Quoted.hex 4 n := by decide
  unfold Writer.char
  split
  · next hq => rcases hq with rfl | rfl <;> decide
  split
  · decide
  split
  · decide
  next hr =>
  split
  · decide
  split
  · decide
  split
  · decide
  split
  · next hc => exact hh _ hc
  · simpa using Ne.symm hr

theorem not_mem_string (t : Text) : '\r' ∉ Writer.string t := by
  simp only [Writer.string, List.mem_append, List.mem_flatMap, not_or, not_exists, not_and]
  exact ⟨⟨by decide, fun c _ => not_mem_char c⟩, by decide⟩

mutual

theorem not_mem_value : ∀ (v : Json) (level : Nat), Storable v → '\r' ∉ Writer.value level v
  | .null, _, _ => by simp [Writer.value]
  | .bool b, _, _ => by cases b <;> simp [Writer.value]
  | .int i, _, _ => by
    simp only [Writer.value, intText]
    split
    · simpa using not_mem_natText i.natAbs
    · exact not_mem_natText i.natAbs
  | .float x, _, h => absurd h id
  | .str t, _, _ => not_mem_string t
  | .arr [], _, _ => by simp [Writer.value]
  | .arr (v :: vs), level, h => by
    have hv := not_mem_value v (level + 1) h.1
    have hvs := not_mem_items vs (level + 1) h.2
    simp [Writer.value, hv, hvs, not_mem_lineStart]
  | .obj [], _, _ => by simp [Writer.value]
  | .obj ((key, v) :: ms), level, h => by
    have hv := not_mem_value v (level + 1) h.2.1
    have hms := not_mem_members ms (level + 1) h.2.2
    simp [Writer.value, hv, hms, not_mem_lineStart, not_mem_string]

theorem not_mem_items : ∀ (vs : List Json) (level : Nat), StorableItems vs →
    '\r' ∉ Writer.items level vs
  | [], _, _ => by simp [Writer.items]
  | v :: vs, level, h => by
    have hv := not_mem_value v level h.1
    have hvs := not_mem_items vs level h.2
    simp [Writer.items, hv, hvs, not_mem_lineStart]

theorem not_mem_members : ∀ (ms : List (Text × Json)) (level : Nat), StorableMembers ms →
    '\r' ∉ Writer.members level ms
  | [], _, _ => by simp [Writer.members]
  | (key, v) :: ms, level, h => by
    have hv := not_mem_value v level h.1
    have hms := not_mem_members ms level h.2
    simp [Writer.members, hv, hms, not_mem_lineStart, not_mem_string]

end

/-- A storable value is read back from the bytes of a file that it was written to. -/
theorem read_encode_write {v : Json} (hv : Storable v) (hd : depth v ≤ maxDepth) :
    ∃ t, Utf8.readText (Utf8.encode (write v)) = .ok t ∧ read t = .ok v :=
  ⟨write v, Utf8.readText_encode (not_mem_value v 0 hv), read_write hv hd⟩

end CostLens.Json
