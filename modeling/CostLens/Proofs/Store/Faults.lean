import CostLens.Proofs.Json.Limits
import CostLens.Proofs.Store.Snapshot

/-! # What is wrong with a snapshot

A snapshot that cannot be used is reported as a failure of the store, with three exceptions: an
infinite number in the place of a line, an integer with too many digits and a value that is nested
too deep each break off the opening of the store with a failure of their own. No value that was read
has such an integer or is nested so deep; one that was not may, and then it cannot be told of.
-/
namespace CostLens

/-- A result, or a failure that tells of the store. -/
def Reported {α : Type} (x : Except Failure α) : Prop :=
  (∃ a, x = .ok a) ∨ ∃ e, x = .error (.store e)

theorem not_reported {α : Type} {x : Except Failure α} {f : Failure} (hx : x = .error f)
    (hf : ∀ e, f ≠ .store e) : ¬ Reported x := by
  rintro (⟨a, ha⟩ | ⟨e, he⟩)
  · rw [hx] at ha
    cases ha
  · rw [hx] at he
    exact hf e (Except.error.inj he)

namespace Record

/-- An object with a document, a function and an infinite number as its line. -/
def HasInfiniteLine (v : Json) : Prop :=
  ∃ ms document function negative, v = .obj ms ∧ Json.member? "document" ms = some document ∧
    Json.member? "function" ms = some function ∧
    Json.member? "start_line" ms = some (.float (.infinity negative))

theorem line_eq_error {v : Json} {f : Failure} (h : line v = .error f) :
    f = .infiniteInteger ∧ ∃ negative, v = .float (.infinity negative) := by
  unfold line at h
  split at h <;> cases h
  exact ⟨rfl, _, rfl⟩

theorem text_of_readable {v : Json} (h : v.Readable) : text v = .ok (some v.plain) := by
  rw [text, h.plain?_eq]

theorem text_eq_error {v : Json} {f : Failure} (h : text v = .error f) :
    (∃ e, f = .json e) ∧ ¬ v.Readable := by
  refine ⟨?_, fun hv => ?_⟩
  · unfold text at h
    split at h <;> cases h
    exact ⟨_, rfl⟩
  · rw [text_of_readable hv] at h
    cases h

theorem given_text_eq_error {key : Text} {ms : List (Text × Json)} {f : Failure}
    (h : (given text key ms).run = .error f) : (∃ e, f = .json e) ∧ ¬ (Json.obj ms).Readable := by
  obtain ⟨v, hv, ht⟩ := exists_of_given h nofun
  exact (text_eq_error ht).imp_right fun hn hms => hn (hms.member? hv)

/-- Members fail to be looked at when one of them cannot be put into a text, or when the line is
infinite and the document and the function before it are given. -/
theorem ofMembers?_eq_error {ms : List (Text × Json)} {f : Failure}
    (h : (ofMembers? ms).run = .error f) :
    (f = .infiniteInteger ∧ HasInfiniteLine (.obj ms)) ∨
      (∃ e, f = .json e) ∧ ¬ (Json.obj ms).Readable := by
  obtain hdocument | ⟨document, hd, h⟩ := run_bind_eq_error h
  · exact .inr (given_text_eq_error hdocument)
  obtain hfunction | ⟨function, hf, h⟩ := run_bind_eq_error h
  · exact .inr (given_text_eq_error hfunction)
  obtain hline | ⟨n, -, h⟩ := run_bind_eq_error h
  · obtain ⟨start, hs, hl⟩ := exists_of_given hline nofun
    obtain ⟨rfl, negative, rfl⟩ := line_eq_error hl
    obtain ⟨documentValue, hd, -⟩ := exists_of_given hd nofun
    obtain ⟨functionValue, hf, -⟩ := exists_of_given hf nofun
    exact .inl ⟨rfl, ms, documentValue, functionValue, negative, rfl, hd, hf, hs⟩
  obtain htimestamp | ⟨timestamp, -, h⟩ := run_bind_eq_error h
  · exact .inr (given_text_eq_error htimestamp)
  · cases h

theorem ofJson_of_hasInfiniteLine {v : Json} (hread : v.Readable) (h : HasInfiniteLine v) :
    ofJson v = .error .infiniteInteger := by
  obtain ⟨ms, document, function, negative, rfl, hd, hf, hs⟩ := h
  have hm : (ofMembers? ms).run = .error .infiniteInteger := by
    simp only [ofMembers?, run_bind, given_run, hd, hf, hs, line,
      text_of_readable (hread.member? hd), text_of_readable (hread.member? hf)]
  simp only [ofJson, hm]

theorem ofJson_of_malformed {v : Json}
    (h : ofJson v = .error (.telling v.shown? fun t => .store (.malformedRecord t))) :
    ofJson v = .error (.store (.malformedRecord v.shown)) ∨
      (∃ e, ofJson v = .error (.json e)) ∧ ¬ v.Readable := by
  rw [h]
  obtain hs | ⟨⟨e, hs⟩, hv⟩ := v.shown?_cases
  · exact .inl (by rw [hs, Failure.telling])
  · exact .inr ⟨⟨e, by rw [hs, Failure.telling]⟩, hv⟩

/-- A value makes a record, or it is malformed, or its line is infinite, or it is not readable. -/
theorem ofJson_cases (v : Json) :
    (∃ r, ofJson v = .ok r) ∨ ofJson v = .error (.store (.malformedRecord v.shown)) ∨
      (ofJson v = .error .infiniteInteger ∧ HasInfiniteLine v) ∨
      (∃ e, ofJson v = .error (.json e)) ∧ ¬ v.Readable := by
  cases v with
  | obj ms =>
    cases hm : (ofMembers? ms).run with
    | error f =>
      have hf : ofJson (.obj ms) = .error f := by simp only [ofJson, hm]
      obtain ⟨rfl, hi⟩ | ⟨⟨e, rfl⟩, hn⟩ := ofMembers?_eq_error hm
      · exact .inr (.inr (.inl ⟨hf, hi⟩))
      · exact .inr (.inr (.inr ⟨⟨e, hf⟩, hn⟩))
    | ok found =>
      cases found with
      | none =>
        exact .inr ((ofJson_of_malformed (by simp only [ofJson, hm])).imp_right .inr)
      | some r => exact .inl ⟨r, by simp only [ofJson, hm]⟩
  | _ => exact .inr ((ofJson_of_malformed rfl).imp_right .inr)

/-- A document that is an integer with too many digits makes no record, and cannot be told of. -/
theorem ofJson_of_long_document {ms : List (Text × Json)} {i : Int}
    (hd : Json.member? "document" ms = some (.int i)) (hi : ¬ Json.IsShort i) :
    ∃ e, ofJson (.obj ms) = .error (.json e) := by
  have htext : text (.int i) = .ok none := by
    simp only [text, Json.plain?, Json.shown?, Json.obstacle?_int_of_long hi]
  have hm : (ofMembers? ms).run = .ok none := by
    simp only [ofMembers?, run_bind, given_run, hd, htext]
  have hobstacle : (Json.obj ms).obstacle? Json.maxDepth ≠ none := by
    intro hnone
    obtain ⟨m, hmem, he⟩ := Json.mem_of_member? hd
    have hmember := Json.obstacleMembers?_eq_none_iff.1 hnone m hmem
    rw [he, Json.obstacle?_int_of_long hi] at hmember
    cases hmember
  obtain ⟨e, he⟩ := Option.ne_none_iff_exists'.1 hobstacle
  exact ⟨e, by simp only [ofJson, hm, Json.shown?, he, Failure.telling]⟩

/-- A value that is not reported has an infinite line or is not readable. -/
theorem reported_cases (v : Json) : Reported (ofJson v) ∨
    (ofJson v = .error .infiniteInteger ∧ HasInfiniteLine v) ∨
      (∃ e, ofJson v = .error (.json e)) ∧ ¬ v.Readable := by
  rcases ofJson_cases v with hr | hm | h
  · exact .inl (.inl hr)
  · exact .inl (.inr ⟨_, hm⟩)
  · exact .inr h

theorem reported_ofJson_iff {v : Json} (hread : v.Readable) :
    Reported (ofJson v) ↔ ¬ HasInfiniteLine v := by
  constructor
  · intro h hi
    exact not_reported (ofJson_of_hasInfiniteLine hread hi) nofun h
  · intro h
    rcases reported_cases v with hr | ⟨_, hi⟩ | ⟨_, hn⟩
    · exact hr
    · exact absurd hi h
    · exact absurd hread hn

end Record

namespace Store

/-- The values are read one by one, and the first one that makes no record decides. -/
theorem foldlM_put_eq_error_iff (items : List Json) (s : Store) (f : Failure) :
    items.foldlM (fun s v => do return s.put (← Record.ofJson v)) s =
        (.error f : Except Failure Store) ↔
      ∃ before item after, items = before ++ item :: after ∧
        (∀ v ∈ before, ∃ r, Record.ofJson v = .ok r) ∧ Record.ofJson item = .error f := by
  induction items generalizing s with
  | nil =>
    constructor
    · intro h
      cases h
    · rintro ⟨before, item, after, h, -⟩
      simp at h
  | cons v items ih =>
    rw [List.foldlM_cons]
    cases hv : Record.ofJson v with
    | error e =>
      constructor
      · intro h
        cases h
        exact ⟨[], v, items, rfl, nofun, hv⟩
      · rintro ⟨before, item, after, h, hb, hi⟩
        cases before with
        | nil =>
          cases h
          rw [hv] at hi
          cases hi
          rfl
        | cons u before =>
          cases h
          obtain ⟨r, hr⟩ := hb v List.mem_cons_self
          rw [hv] at hr
          cases hr
    | ok r =>
      refine (ih (s.put r)).trans ?_
      constructor
      · rintro ⟨before, item, after, rfl, hb, hi⟩
        exact ⟨v :: before, item, after, rfl, List.forall_mem_cons.2 ⟨⟨r, hv⟩, hb⟩, hi⟩
      · rintro ⟨before, item, after, h, hb, hi⟩
        cases before with
        | nil =>
          cases h
          rw [hv] at hi
          cases hi
        | cons u before =>
          cases h
          exact ⟨before, item, after, rfl, (List.forall_mem_cons.1 hb).2, hi⟩

/-- The contents of a file that break off the opening of a store, and the failure of each. -/
inductive Breaks (bytes : Bytes) : Failure → Prop
  | tooManyDigits {t : Text} {count : Option Nat} (text : Utf8.readText bytes = .ok t)
    (stopped : Json.read t = .error (.tooManyDigits count)) :
    Breaks bytes (.json (.tooManyDigits count))
  | tooDeep {t : Text} {container : Option Json.Container} (text : Utf8.readText bytes = .ok t)
    (stopped : Json.read t = .error (.tooDeep container)) :
    Breaks bytes (.json (.tooDeep container))
  | infiniteLine {t : Text} {v item : Json} {before after : List Json}
    (text : Utf8.readText bytes = .ok t) (value : Json.read t = .ok v)
    (items : items? v = some (before ++ item :: after))
    (good : ∀ u ∈ before, ∃ r, Record.ofJson u = .ok r) (infinite : Record.HasInfiniteLine item) :
    Breaks bytes .infiniteInteger

theorem Breaks.ne_store {bytes : Bytes} {f : Failure} (h : Breaks bytes f) (e : StoreError) :
    f ≠ .store e := by
  cases h <;> exact nofun

/-- A text with more digits in a row than an integer may have, with more opened containers than
there may be, or with a record whose line is infinite. -/
def GoesBeyond (t : Text) : Prop :=
  (∃ digits, digits <:+: t ∧ Integer.maxDigits < digits.length ∧ ∀ c ∈ digits, c.isDigit = true) ∨
    Json.maxDepth < t.countP Json.opens ∨
    ∃ v items item, Json.read t = .ok v ∧ items? v = some items ∧ item ∈ items ∧
      Record.HasInfiniteLine item

theorem Breaks.goesBeyond {bytes : Bytes} {f : Failure} (h : Breaks bytes f) :
    ∃ t, Utf8.readText bytes = .ok t ∧ GoesBeyond t := by
  cases h with
  | @tooManyDigits t count text stopped =>
    exact ⟨t, text, .inl (Json.exists_digits_of_tooManyDigits stopped)⟩
  | @tooDeep t container text stopped =>
    exact ⟨t, text, .inr (.inl (Json.maxDepth_lt_of_tooDeep stopped))⟩
  | @infiniteLine t v item before after text value items good infinite =>
    have hmem : item ∈ before ++ item :: after := by simp
    exact ⟨t, text, .inr (.inr ⟨v, _, item, value, items, hmem, infinite⟩)⟩

theorem ofSnapshot_cases (path : Path) {v : Json} (hread : v.Readable) :
    Reported (ofSnapshot path v) ∨
      ∃ before item after, items? v = some (before ++ item :: after) ∧
        (∀ u ∈ before, ∃ r, Record.ofJson u = .ok r) ∧ Record.HasInfiniteLine item ∧
        ofSnapshot path v = .error .infiniteInteger := by
  unfold ofSnapshot
  split
  · next items hitems =>
    cases ho : ofItems path items with
    | ok s => exact .inl (.inl ⟨s, rfl⟩)
    | error f =>
      obtain ⟨before, item, after, rfl, hb, hi⟩ := (foldlM_put_eq_error_iff _ _ _).1 ho
      rcases Record.reported_cases item with (⟨r, hr⟩ | ⟨e, he⟩) | ⟨he, hinf⟩ | ⟨-, hn⟩
      · rw [hi] at hr
        cases hr
      · rw [hi] at he
        cases he
        exact .inl (.inr ⟨_, rfl⟩)
      · rw [hi] at he
        cases he
        exact .inr ⟨before, item, after, hitems, hb, hinf, rfl⟩
      · exact absurd (items?_readable hread hitems item (by simp)) hn
  · exact .inl (.inr ⟨_, rfl⟩)

end Store

namespace FileSystem

theorem store_of_read {fs : FileSystem} {path : Path} {bytes : Bytes}
    (h : fs.read path.text = .ok bytes) :
    fs.store path = match Utf8.readText bytes with
      | .error f => .error (.store (.undecodable path.text f))
      | .ok t =>
        match Json.read t with
        | .error e => .error (Store.readFailure path (.json e))
        | .ok v => Store.ofSnapshot path v := by
  unfold store valueOr value
  simp only [not_contains_null_of_read h, h, Bool.false_eq_true, ↓reduceIte]
  cases Utf8.readText bytes with
  | error f => rfl
  | ok t =>
    simp only
    cases Json.read t <;> rfl

/-- A store is opened from a file, or refused, or broken off by the content of the file. -/
theorem store_cases {fs : FileSystem} {path : Path} {bytes : Bytes}
    (h : fs.read path.text = .ok bytes) :
    Reported (fs.store path) ∨ ∃ f, Store.Breaks bytes f ∧ fs.store path = .error f := by
  rw [store_of_read h]
  cases ht : Utf8.readText bytes with
  | error f => exact .inl (.inr ⟨_, rfl⟩)
  | ok t =>
    simp only
    cases hv : Json.read t with
    | error e =>
      cases e with
      | malformed fault line column offset => exact .inl (.inr ⟨_, rfl⟩)
      | tooManyDigits count => exact .inr ⟨_, .tooManyDigits ht hv, rfl⟩
      | tooDeep container => exact .inr ⟨_, .tooDeep ht hv, rfl⟩
    | ok v =>
      rcases Store.ofSnapshot_cases path (Json.read_readable hv) with
        hr | ⟨before, item, after, hi, hb, hinf, ho⟩
      · exact .inl hr
      · exact .inr ⟨_, .infiniteLine ht hv hi hb hinf, ho⟩

theorem store_of_breaks {fs : FileSystem} {path : Path} {bytes : Bytes} {f : Failure}
    (h : fs.read path.text = .ok bytes) (hb : Store.Breaks bytes f) :
    fs.store path = .error f := by
  rw [store_of_read h]
  cases hb with
  | tooManyDigits text stopped => simp only [text, stopped, Store.readFailure]
  | tooDeep text stopped => simp only [text, stopped, Store.readFailure]
  | @infiniteLine t v item before after text value items good infinite =>
    have hread := Store.items?_readable (Json.read_readable value) items item (by simp)
    have hi := Record.ofJson_of_hasInfiniteLine hread infinite
    have ho : Store.ofItems path (before ++ item :: after) = .error .infiniteInteger :=
      (Store.foldlM_put_eq_error_iff _ _ _).2 ⟨before, item, after, rfl, good, hi⟩
    simp only [text, value, Store.ofSnapshot, items, ho]

end FileSystem

/-- A readable value is reported unless its line is infinite; any other value may also fail as it is
put into a text. A file is reported unless its content breaks off the opening of the store. Then its
text has an infinite line in a record, or goes beyond the digits or the depth that can be read. -/
theorem Store.load_reported_iff (item : Json) (path : Path) (w : World) {bytes : Bytes}
    (h : w.files.read path.text = .ok bytes) :
    (item.Readable → (Reported (Record.ofJson item) ↔ ¬ Record.HasInfiniteLine item)) ∧
      (¬ Reported (Record.ofJson item) →
        (Record.ofJson item = .error .infiniteInteger ∧ Record.HasInfiniteLine item) ∨
          (∃ e, Record.ofJson item = .error (.json e)) ∧ ¬ item.Readable) ∧
      (Reported (Store.load path w).1 ↔ ∀ f, ¬ Breaks bytes f) ∧
      ∀ f, Breaks bytes f → (Store.load path w).1 = .error f ∧
        ∃ t, Utf8.readText bytes = .ok t ∧ GoesBeyond t := by
  rw [Store.load_fst]
  have hbreaks : ∀ f, Breaks bytes f → w.files.store path = .error f :=
    fun f hb => FileSystem.store_of_breaks h hb
  refine ⟨Record.reported_ofJson_iff, (Record.reported_cases item).resolve_left, ⟨?_, ?_⟩,
    fun f hb => ⟨hbreaks f hb, hb.goesBeyond⟩⟩
  · intro hrep f hb
    exact not_reported (hbreaks f hb) hb.ne_store hrep
  · intro hnone
    rcases FileSystem.store_cases h with hrep | ⟨f, hb, -⟩
    · exact hrep
    · exact absurd hb (hnone f)

/-- A snapshot with a number that is too great for a double in the place of a line. -/
def hugeLine : Text :=
  "\x7b\"records\": [\x7b\"document\": \"d\", \"function\": \"f\", \"start_line\": 1e999, "
    ++ "\"timestamp\": \"t\"\x7d]\x7d"

def hugeLineWorld : World where
  files :=
    { entries := [(.ofNames ["s.json"], .file (Utf8.encode hugeLine))], current := [], home := [] }
  now := { date := ⟨2024, 5, 1⟩ }

theorem Store.load_reported_iff_hugeLine :
    (Store.load (.ofText "s.json") hugeLineWorld).1 = .error .infiniteInteger ∧
      ¬ Reported (Store.load (.ofText "s.json") hugeLineWorld).1 := by
  have hread : hugeLineWorld.files.read (Path.ofText "s.json").text =
      .ok (Utf8.encode hugeLine) := eq_ok_of_toOption (by decide +kernel)
  have hbreaks : Breaks (Utf8.encode hugeLine) .infiniteInteger := by
    let item : Json := .obj [("document", .str "d"), ("function", .str "f"),
      ("start_line", .float (.infinity false)), ("timestamp", .str "t")]
    have htext := Utf8.readText_encode (t := hugeLine) (by decide)
    have hvalue : Json.read hugeLine = .ok (.obj [("records", .arr ([] ++ [item]))]) :=
      eq_ok_of_toOption (by decide +kernel)
    exact .infiniteLine htext hvalue rfl nofun ⟨_, .str "d", .str "f", false, rfl, rfl, rfl, rfl⟩
  obtain ⟨-, -, hload, hfails⟩ := Store.load_reported_iff .null _ hugeLineWorld hread
  exact ⟨(hfails _ hbreaks).1, fun h => hload.1 h _ hbreaks⟩

end CostLens
