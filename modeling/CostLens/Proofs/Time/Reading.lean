import CostLens.Proofs.Text.Digit
import CostLens.Time.Reader

/-! # Reading a moment that was written

The text of a moment is a date, a time of day and an offset. Each of them is read back from the
numbers of a fixed width that it is made of, with or without a fraction, seconds of the offset, or
an offset at all. So every moment that exists, with an offset of whole seconds if it has one, is
read back as it was.
-/
namespace CostLens

/-! ## Numbers of a fixed width -/

theorem length_padded {width n : Nat} (hw : 0 < width) (h : n < 10 ^ width) :
    (padded width n).length = width := by
  have hle := (length_natText_le_iff hw).2 h
  rw [padded, List.length_append, List.length_replicate]
  omega

theorem isDigit_of_mem_padded {width n : Nat} {c : Char} (h : c ∈ padded width n) :
    c.isDigit = true := by
  rcases List.mem_append.1 h with h | h
  · rw [List.eq_of_mem_replicate h]
    rfl
  · exact isDigit_of_mem_natText h

theorem ofDigitChars_padded (width n : Nat) : Nat.ofDigitChars 10 (padded width n) 0 = n := by
  rw [padded, Nat.ofDigitChars_append, Nat.ofDigitChars_replicate_zero, Nat.mul_zero, natText,
    Nat.ofDigitChars_ten_toDigits]

theorem exists_padded_cons {width n : Nat} (hw : 0 < width) (h : n < 10 ^ width) :
    ∃ c t, padded width n = c :: t ∧ c.isDigit = true := by
  have hne : padded width n ≠ [] := by
    intro he
    have hlen := length_padded hw h
    rw [he, List.length_nil] at hlen
    omega
  obtain ⟨c, t, hc⟩ := List.exists_cons_of_ne_nil hne
  exact ⟨c, t, hc, isDigit_of_mem_padded (hc ▸ List.mem_cons_self)⟩

theorem ne_of_isDigit {c d : Char} (hc : c.isDigit = true) (hd : d.isDigit = false) : c ≠ d := by
  rintro rfl
  cases hc.symm.trans hd

theorem toNat_of_isDigit {c : Char} (h : c.isDigit = true) : c.toNat < 0x80 := by
  have hc : c.toNat ≤ 57 := by
    simp only [Char.isDigit, Bool.and_eq_true, decide_eq_true_eq, UInt32.le_iff_toNat_le] at h
    exact h.2
  omega

namespace Utf8

def Ascii (t : Text) : Prop := ∀ c ∈ t, c.toNat < 0x80

@[simp] theorem ascii_nil : Ascii [] := fun _ h => absurd h List.not_mem_nil

@[simp] theorem ascii_cons {c : Char} {t : Text} : Ascii (c :: t) ↔ c.toNat < 0x80 ∧ Ascii t :=
  List.forall_mem_cons

@[simp] theorem ascii_append {s t : Text} : Ascii (s ++ t) ↔ Ascii s ∧ Ascii t :=
  List.forall_mem_append

theorem octets_of_ascii {t : Text} (h : Ascii t) : octets t = t := by
  induction t with
  | nil => rfl
  | cons c t ih =>
    obtain ⟨hc, ht⟩ := ascii_cons.1 h
    have hbyte : (byte c.toNat).toNat = c.toNat := by
      rw [byte, UInt8.toNat_ofNat']
      omega
    have hcons : octets (c :: t) = Char.ofNat (byte c.toNat).toNat :: octets t := by
      simp [octets, encode, encodeChar, hc]
    rw [hcons, hbyte, Char.ofNat_toNat, ih ht]

end Utf8

theorem ascii_padded (width n : Nat) : Utf8.Ascii (padded width n) :=
  fun _ h => toNat_of_isDigit (isDigit_of_mem_padded h)

namespace Moment.Reader

open Calendar

theorem digits?_append (ds rest : Text) (h : ∀ c ∈ ds, c.isDigit = true) :
    digits? ds.length (ds ++ rest) = some (Nat.ofDigitChars 10 ds 0, rest) := by
  induction ds with
  | nil => rfl
  | cons c ds ih =>
    obtain ⟨hc, hds⟩ := List.forall_mem_cons.1 h
    have hvalue : Nat.ofDigitChars 10 (c :: ds) 0 =
        10 ^ ds.length * (c.toNat - '0'.toNat) + Nat.ofDigitChars 10 ds 0 := by
      rw [Nat.ofDigitChars_cons, Nat.mul_zero, Nat.zero_add, Nat.ofDigitChars_eq_ofDigitChars_zero]
    rw [List.length_cons, List.cons_append, digits?, if_pos hc, ih hds, hvalue, Nat.mul_comm]
    rfl

theorem digits?_padded {width n : Nat} (hw : 0 < width) (h : n < 10 ^ width) (rest : Text) :
    digits? width (padded width n ++ rest) = some (n, rest) := by
  have hd := digits?_append (padded width n) rest fun c => isDigit_of_mem_padded
  rwa [length_padded hw h, ofDigitChars_padded] at hd

end Moment.Reader

/-! ## The parts of a text -/

namespace Moment

def dateText (d : Calendar.Date) : Text :=
  padded 4 d.year ++ '-' :: (padded 2 d.month ++ '-' :: padded 2 d.day)

def fractionText (micro : Nat) : Text := if micro = 0 then [] else '.' :: padded 6 micro

def clockText (m : Moment) : Text :=
  padded 2 m.hour ++ ':' :: (padded 2 m.minute ++ ':' :: (padded 2 m.second ++
    fractionText m.micro))

def zoneText : Option Int → Text
  | none => []
  | some o => offsetText o

theorem text_eq (m : Moment) :
    m.text = dateText m.date ++ 'T' :: (m.clockText ++ zoneText m.offset) := by
  cases ho : m.offset <;> simp [text, dateText, clockText, fractionText, zoneText, ho]

/-- The numbers of a moment are as short as the places that they are written in. -/
structure Fits (m : Moment) : Prop where
  year : m.date.year < 10 ^ 4
  month : m.date.month < 10 ^ 2
  day : m.date.day < 10 ^ 2
  hour : m.hour < 10 ^ 2
  minute : m.minute < 10 ^ 2
  second : m.second < 10 ^ 2
  micro : m.micro < 10 ^ 6

namespace Reader

theorem after?_colon {rest : Text} (h : rest ≠ []) :
    after? true (':' :: rest) = some (.pair rest) := by
  obtain ⟨c, t, rfl⟩ := List.exists_cons_of_ne_nil h
  rfl

theorem padded_append_ne_nil {width n : Nat} (hw : 0 < width) (h : n < 10 ^ width) (rest : Text) :
    padded width n ++ rest ≠ [] := by
  obtain ⟨c, t, hc, -⟩ := exists_padded_cons hw h
  rw [hc]
  exact List.cons_ne_nil _ _

theorem fraction?_padded {micro : Nat} (h : micro < 10 ^ 6) :
    fraction? (padded 6 micro) = some (micro, true) := by
  have hlen : (padded 6 micro).length = 6 := length_padded (by decide) h
  have hd := digits?_padded (by decide) h []
  rw [List.append_nil] at hd
  simp [fraction?, hlen, hd]

theorem fromSecond?_text (clock : Clock) {second micro : Nat} (hs : second < 10 ^ 2)
    (hm : micro < 10 ^ 6) (hclock : clock.micro = 0) :
    fromSecond? clock true (padded 2 second ++ fractionText micro) =
      some { clock with second, micro, complete := true } := by
  rw [fromSecond?, digits?_padded (by decide) hs, fractionText]
  by_cases h0 : micro = 0
  · subst h0
    simp [after?, ← hclock]
  · obtain ⟨c, t, hc, -⟩ := exists_padded_cons (by decide) hm
    have hafter : after? true ('.' :: padded 6 micro) = some (.fraction (padded 6 micro)) := by
      rw [hc]
      rfl
    simp [h0, hafter, fraction?_padded hm]

theorem fromMinute?_text {clock : Clock} {minute : Nat} {rest : Text} (h : minute < 10 ^ 2)
    (hr : rest ≠ []) :
    fromMinute? clock true (padded 2 minute ++ ':' :: rest) =
      fromSecond? { clock with minute } true rest := by
  rw [fromMinute?, digits?_padded (by decide) h]
  simp [after?_colon hr]

theorem clock?_text {hour : Nat} {rest : Text} (h : hour < 10 ^ 2) (hr : rest ≠ []) :
    clock? (padded 2 hour ++ ':' :: rest) = fromMinute? { hour } true rest := by
  rw [clock?, digits?_padded (by decide) h]
  simp [after?_colon hr]

theorem clock?_clockText {m : Moment} (h : m.Fits) :
    clock? m.clockText = some ⟨m.hour, m.minute, m.second, m.micro, true⟩ := by
  have hsecond := padded_append_ne_nil (by decide) h.second (fractionText m.micro)
  have hminute := padded_append_ne_nil (by decide) h.minute
    (':' :: (padded 2 m.second ++ fractionText m.micro))
  rw [clockText, clock?_text h.hour hminute, fromMinute?_text h.minute hsecond,
    fromSecond?_text _ h.second h.micro rfl]

/-! ## The offset -/

def sign (o : Int) : Char := if o < 0 then '-' else '+'

theorem sign_ne (o : Int) : sign o ≠ 'Z' := by
  unfold sign
  split <;> decide

theorem isZone_sign (o : Int) : isZone (sign o) = true := by
  unfold sign
  split <;> rfl

/-- The size of an offset of whole seconds in hours and minutes, and in seconds if it has any. -/
def sizeText (seconds : Nat) : Text :=
  padded 2 (seconds / 3600) ++ ':' :: (padded 2 (seconds / 60 % 60) ++
    if seconds % 60 = 0 then [] else ':' :: padded 2 (seconds % 60))

theorem offsetText_eq {o : Int} (h : o.natAbs % microsPerSecond = 0) :
    offsetText o = sign o :: sizeText (o.natAbs / microsPerSecond) := by
  simp only [offsetText, h, and_true, if_true, List.append_nil, sizeText, sign]
  split <;> simp

theorem clock?_sizeText {seconds : Nat} (h : seconds < 86400) :
    clock? (sizeText seconds) =
      some { hour := seconds / 3600, minute := seconds / 60 % 60, second := seconds % 60 } := by
  have hhour : seconds / 3600 < 10 ^ 2 := by omega
  have hminute : seconds / 60 % 60 < 10 ^ 2 := by omega
  have hsecond : seconds % 60 < 10 ^ 2 := by omega
  rw [sizeText, clock?_text hhour (padded_append_ne_nil (by decide) hminute _)]
  by_cases h0 : seconds % 60 = 0
  · rw [if_pos h0, fromMinute?, digits?_padded (by decide) hminute, h0]
    rfl
  · have hne := padded_append_ne_nil (by decide) hsecond []
    have hread := fromSecond?_text { hour := seconds / 3600, minute := seconds / 60 % 60 } hsecond
      (by decide : 0 < 10 ^ 6) rfl
    rw [fractionText, if_pos rfl] at hread
    rw [List.append_nil] at hne hread
    rw [if_neg h0, fromMinute?_text hminute hne, hread]

theorem zone?_cons {c : Char} {body : Text} {clock : Clock} (hc : c ≠ 'Z')
    (h : clock? body = some clock) (hcomplete : clock.complete = true) (hmicro : clock.micro = 0) :
    zone? (c :: body) =
      let seconds := 3600 * clock.hour + 60 * clock.minute + clock.second
      let size : Int := (seconds * microsPerSecond : Nat)
      some (if c = '-' then -size else size) := by
  have hsize : ∀ seconds : Nat,
      (if seconds = 0 then (0 : Int) else (seconds * microsPerSecond + clock.micro : Nat)) =
        (seconds * microsPerSecond : Nat) := by
    intro seconds
    split
    · next h0 => rw [h0, Nat.zero_mul, Int.natCast_zero]
    · rw [hmicro, Nat.add_zero]
  unfold zone?
  split
  · next heq => exact absurd (List.cons.inj heq).1 hc
  · next heq => exact absurd (List.cons.inj heq).1 hc
  · next heq =>
    obtain ⟨rfl, rfl⟩ := List.cons.inj heq
    simp only [if_neg hc, h, hcomplete, if_true, hsize]
  · next heq => cases heq

theorem zone?_offsetText {o : Int} (hwhole : o.natAbs % microsPerSecond = 0)
    (hday : o.natAbs < microsPerDay) : zone? (offsetText o) = some o := by
  have hseconds : o.natAbs / microsPerSecond < 86400 :=
    (Nat.div_lt_iff_lt_mul (by decide)).2 hday
  have hsize : (3600 * (o.natAbs / microsPerSecond / 3600) +
      60 * (o.natAbs / microsPerSecond / 60 % 60) + o.natAbs / microsPerSecond % 60) *
      microsPerSecond = o.natAbs := by
    rw [microsPerSecond] at hwhole ⊢
    omega
  rw [offsetText_eq hwhole, zone?_cons (sign_ne o) (clock?_sizeText hseconds) rfl rfl]
  simp only [hsize, sign]
  by_cases ho : o < 0
  · rw [if_pos ho, if_pos rfl]
    congr 1
    omega
  · rw [if_neg ho, if_neg (by decide)]
    congr 1
    omega

/-! ## The time of day and the date -/

theorem isZone_of_isDigit {c : Char} (h : c.isDigit = true) : isZone c = false := by
  simp only [isZone, Bool.or_eq_false_iff, beq_eq_false_iff_ne]
  exact ⟨⟨ne_of_isDigit h rfl, ne_of_isDigit h rfl⟩, ne_of_isDigit h rfl⟩

theorem mem_clockText {m : Moment} {c : Char} (h : c ∈ m.clockText) :
    c.isDigit = true ∨ c = ':' ∨ c = '.' := by
  have hfraction : c ∈ fractionText m.micro → c.isDigit = true ∨ c = '.' := by
    rw [fractionText]
    split
    · exact fun hc => absurd hc List.not_mem_nil
    · exact fun hc => (List.mem_cons.1 hc).symm.imp_left isDigit_of_mem_padded
  simp only [clockText, List.mem_append, List.mem_cons] at h
  rcases h with h | h | h | h | h | h
  · exact .inl (isDigit_of_mem_padded h)
  · exact .inr (.inl h)
  · exact .inl (isDigit_of_mem_padded h)
  · exact .inr (.inl h)
  · exact .inl (isDigit_of_mem_padded h)
  · exact (hfraction h).imp_right .inr

theorem isZone_of_mem_clockText {m : Moment} {c : Char} (h : c ∈ m.clockText) :
    isZone c = false := by
  rcases mem_clockText h with hc | rfl | rfl
  · exact isZone_of_isDigit hc
  · rfl
  · rfl

/-- The offset is of whole seconds and shorter than a day, if there is one. -/
def Whole (offset : Option Int) : Prop :=
  ∀ o ∈ offset, o.natAbs % microsPerSecond = 0 ∧ o.natAbs < microsPerDay

theorem takeWhile_zoneText {offset : Option Int} (h : Whole offset) :
    (zoneText offset).takeWhile (fun c => !isZone c) = [] := by
  cases offset with
  | none => rfl
  | some o => simp [zoneText, offsetText_eq (h o rfl).1, isZone_sign]

theorem time?_text {m : Moment} (h : m.Fits) (ho : Whole m.offset) :
    time? (m.clockText ++ zoneText m.offset) =
      some (⟨m.hour, m.minute, m.second, m.micro, true⟩, m.offset) := by
  have hbody : (m.clockText ++ zoneText m.offset).takeWhile (fun c => !isZone c) = m.clockText := by
    rw [List.takeWhile_append_of_pos fun c hc => by rw [isZone_of_mem_clockText hc]; rfl,
      takeWhile_zoneText ho, List.append_nil]
  rw [time?, hbody, clock?_clockText h, List.drop_left]
  cases hoffset : m.offset with
  | none => rfl
  | some o =>
    obtain ⟨hwhole, hday⟩ := ho o hoffset
    have hzone := zone?_offsetText hwhole hday
    rw [zoneText]
    rw [offsetText_eq hwhole] at hzone ⊢
    simp [hzone]

theorem date?_dateText {d : Calendar.Date} (hy : d.year < 10 ^ 4) (hm : d.month < 10 ^ 2)
    (hd : d.day < 10 ^ 2) : date? (dateText d) = some d := by
  obtain ⟨c, t, hc, hdigit⟩ := exists_padded_cons (by decide) hm
  have hmonth := digits?_padded (by decide) hm ('-' :: padded 2 d.day)
  have hday := digits?_padded (by decide) hd []
  have hw : c ≠ 'W' := ne_of_isDigit hdigit rfl
  rw [hc, List.cons_append] at hmonth
  rw [List.append_nil] at hday
  rw [date?, dateText, digits?_padded (by decide) hy]
  simp [hyphen?, hc, hw, hmonth, hday]

theorem length_dateText {d : Calendar.Date} (hy : d.year < 10 ^ 4) (hm : d.month < 10 ^ 2)
    (hd : d.day < 10 ^ 2) : (dateText d).length = 10 := by
  simp [dateText, length_padded _ hy, length_padded _ hm, length_padded _ hd]

theorem charAt_append (a b : Text) (i : Nat) : charAt (a ++ b) (a.length + i) = charAt b i := by
  rw [charAt, charAt, List.getElem?_append_right (Nat.le_add_right _ _), Nat.add_sub_cancel_left]

theorem dateLength_text {m : Moment} (h : m.Fits) : dateLength m.text = 10 := by
  obtain ⟨c, t, hc, hdigit⟩ := exists_padded_cons (by decide) h.month
  have hlen := length_dateText h.year h.month h.day
  have hyear : (padded 4 m.date.year).length = 4 := length_padded (by decide) h.year
  have hw : c ≠ 'W' := ne_of_isDigit hdigit rfl
  have hlong : m.text.length ≠ 7 := by
    rw [text_eq, List.length_append, List.length_cons]
    omega
  let behind : Text := '-' :: (padded 2 m.date.month ++ '-' :: (padded 2 m.date.day ++ 'T' ::
    (m.clockText ++ zoneText m.offset)))
  have htext : m.text = padded 4 m.date.year ++ behind := by
    simp [text_eq, dateText, behind]
  have hplace : ∀ i, charAt m.text (4 + i) = charAt behind i := by
    intro i
    rw [htext, ← charAt_append (padded 4 m.date.year) behind i, hyear]
  have hmark : charAt m.text 4 = '-' := hplace 0
  have hnext : charAt m.text 5 = c := by
    rw [hplace 1]
    simp [behind, charAt, hc]
  rw [dateLength, if_neg hlong, hmark, if_pos rfl, hnext, if_neg hw]

theorem fields?_text {m : Moment} (h : m.Fits) (ho : Whole m.offset) : fields? m.text = some m := by
  have hlen := length_dateText h.year h.month h.day
  have htake : m.text.take 10 = dateText m.date := by
    rw [text_eq, ← hlen, List.take_left]
  have hdrop : m.text.drop 10 = 'T' :: (m.clockText ++ zoneText m.offset) := by
    rw [text_eq, ← hlen, List.drop_left]
  have hmark : furtherBytes 'T' = 0 := by rfl
  rw [fields?, dateLength_text h, htake, hdrop, date?_dateText h.year h.month h.day]
  simp [hmark, time?_text h ho]

end Reader

/-! ## The whole text -/

theorem fits_of_isValid {m : Moment} (h : m.isValid = true) : m.Fits := by
  have hmonth : Calendar.monthLength m.date.year m.date.month ≤ 31 := by
    unfold Calendar.monthLength
    repeat' split
    all_goals omega
  have hmicro : microsPerSecond = 10 ^ 6 := by rfl
  simp only [isValid, Calendar.Date.isValid, Calendar.isYear, Bool.and_eq_true,
    decide_eq_true_eq] at h
  constructor <;> omega

theorem offset_lt {m : Moment} {o : Int} (h : m.isValid = true) (ho : m.offset = some o) :
    o.natAbs < microsPerDay := by
  simp only [isValid, ho, Bool.and_eq_true, decide_eq_true_eq] at h
  exact h.2

theorem whole_of_isValid {m : Moment} (h : m.isValid = true)
    (hwhole : ∀ o ∈ m.offset, o.natAbs % microsPerSecond = 0) : Reader.Whole m.offset :=
  fun o ho => ⟨hwhole o ho, offset_lt h ho⟩

theorem ascii_fractionText (micro : Nat) : Utf8.Ascii (fractionText micro) := by
  unfold fractionText
  split
  · exact Utf8.ascii_nil
  · exact Utf8.ascii_cons.2 ⟨by decide, ascii_padded 6 micro⟩

theorem ascii_offsetText (o : Int) : Utf8.Ascii (offsetText o) := by
  have hsign : Utf8.Ascii (if o < 0 then ['-'] else ['+']) := by
    split <;> simp
  have hfraction := ascii_fractionText (o.natAbs % microsPerSecond)
  rw [fractionText] at hfraction
  simp only [offsetText, Utf8.ascii_append]
  refine ⟨⟨⟨⟨⟨hsign, ascii_padded _ _⟩, by simp⟩, ascii_padded _ _⟩, ?_⟩, hfraction⟩
  split <;> simp [ascii_padded]

theorem octets_text (m : Moment) : Utf8.octets m.text = m.text := by
  have hzone : Utf8.Ascii (zoneText m.offset) := by
    cases m.offset with
    | none => exact Utf8.ascii_nil
    | some o => exact ascii_offsetText o
  apply Utf8.octets_of_ascii
  simp [text_eq, dateText, clockText, ascii_padded, ascii_fractionText, hzone]

theorem read?_text {m : Moment} (h : m.isValid = true)
    (hwhole : ∀ o ∈ m.offset, o.natAbs % microsPerSecond = 0) : read? m.text = some m := by
  have hfits := fits_of_isValid h
  have hlong : ¬ m.text.length < 7 := by
    have hlen := Reader.length_dateText hfits.year hfits.month hfits.day
    rw [text_eq, List.length_append]
    omega
  rw [read?, if_neg hlong, octets_text, Reader.fields?_text hfits (whole_of_isValid h hwhole)]
  simp [h]

end Moment

end CostLens
