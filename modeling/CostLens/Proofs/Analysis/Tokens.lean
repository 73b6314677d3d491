import CostLens.Proofs.Analysis.Passes
import Mathlib.Data.List.Infix

/-! # Text made of tokens

The passes go over the whole text one after the other, so what one of them removes could make or
break a fragment that a later one looks for. On a text made of well-formed tokens this does not
happen: whatever follows, the passes turn a token at the front into what is left of it, and treat the
rest as if it stood alone. So four passes do what one reading from left to right would do.
-/
namespace CostLens.Sanitized

/-- A piece of a text. -/
inductive Token
  | code (t : Text)
  | quoted (q : Quote) (s : Text)
  /-- A literal between three quotes. -/
  | longQuoted (q : Quote) (s : Text)
  | lineComment (mark c : Text)
  | blockComment (b : Text)

namespace Token

/-- A token as it is written. -/
def text : Token → Text
  | code t => t
  | quoted q s => q.sign :: (s ++ [q.sign])
  | longQuoted q s => q.mark ++ (s ++ q.mark)
  | lineComment mark c => mark ++ c
  | blockComment b => "/*" ++ (b ++ "*/")

/-- What is left of a token. -/
def clean : Token → Text
  | code t => t
  | quoted _ _ => emptyLiteral
  | longQuoted _ s => emptyLiteral ++ newlinesOf s
  | lineComment _ _ => []
  | blockComment b => newlinesOf b

/-- The tokens of a language with braces, each with the text behind it: a comment up to the end of
the line has to be followed by a line feed or by nothing. -/
def Braced : Token → Text → Prop
  | code t, _ => ∀ c ∈ t, c ≠ '\'' ∧ c ≠ '"' ∧ c ≠ '/'
  | quoted q s, _ => (∀ c ∈ s, c ≠ '\'' ∧ c ≠ newline) ∧ (q = .double → '"' ∉ s) ∧
      ¬ ("//" : Text) <:+: s ∧ ¬ ("/*" : Text) <:+: s
  | longQuoted _ _, _ => False
  | lineComment mark c, behind => mark = "//" ∧ newline ∉ c ∧ ¬ ("/*" : Text) <:+: mark ++ c ∧
      EndsLine behind
  | blockComment b, _ => ¬ ("*/" : Text) <:+: b

/-- The tokens of a language with indented blocks, each with the text behind it. Behind a short
literal no other quote may stand, since three of them in a row begin a long one. -/
def Indented : Token → Text → Prop
  | code t, _ => ∀ c ∈ t, c ≠ '\'' ∧ c ≠ '"' ∧ c ≠ '#'
  | quoted _ s, behind => (∀ c ∈ s, c ≠ '\'' ∧ c ≠ '"' ∧ c ≠ newline) ∧ Unquoted behind
  | longQuoted q s, _ => ¬ q.mark <:+: s ∧ ∀ c ∈ s.getLast?, c ≠ q.sign
  | lineComment mark c, behind => mark = "#" ∧ newline ∉ c ∧ (∀ q : Quote, ¬ q.mark <:+: c) ∧
      EndsLine behind
  | blockComment _, _ => False

/-- Every token of a list fits, with the text of those that follow behind it. -/
def AllFit (fits : Token → Text → Prop) : List Token → Prop
  | [] => True
  | tok :: toks => fits tok (toks.flatMap text) ∧ AllFit fits toks

-- The instances are named where they quantify over signs: one that goes through all characters
-- would be found as well.
instance (tok : Token) (behind : Text) : Decidable (tok.Braced behind) :=
  match tok with
  | code t => List.decidableBAll _ t
  | quoted _ s =>
    have : Decidable (∀ c ∈ s, c ≠ '\'' ∧ c ≠ newline) := List.decidableBAll _ s
    inferInstanceAs (Decidable (_ ∧ _))
  | longQuoted _ _ => inferInstanceAs (Decidable False)
  | lineComment _ _ => inferInstanceAs (Decidable (_ ∧ _))
  | blockComment _ => inferInstanceAs (Decidable (¬ _))

instance (tok : Token) (behind : Text) : Decidable (tok.Indented behind) :=
  match tok with
  | code t => List.decidableBAll _ t
  | quoted _ s =>
    have : Decidable (∀ c ∈ s, c ≠ '\'' ∧ c ≠ '"' ∧ c ≠ newline) := List.decidableBAll _ s
    inferInstanceAs (Decidable (_ ∧ _))
  | longQuoted q s =>
    have : Decidable (∀ c ∈ s.getLast?, c ≠ q.sign) := Option.decidableForallMem s.getLast?
    inferInstanceAs (Decidable (_ ∧ _))
  | lineComment _ _ => inferInstanceAs (Decidable (_ ∧ _))
  | blockComment _ => inferInstanceAs (Decidable False)

instance AllFit.decidable {fits : Token → Text → Prop} [∀ tok behind, Decidable (fits tok behind)] :
    ∀ toks, Decidable (AllFit fits toks)
  | [] => inferInstanceAs (Decidable True)
  | tok :: toks =>
    have : Decidable (AllFit fits toks) := AllFit.decidable toks
    inferInstanceAs (Decidable (fits tok (toks.flatMap text) ∧ AllFit fits toks))

end Token

theorem of_tokens {family : Family} {fits : Token → Text → Prop}
    (step : ∀ tok behind, fits tok behind →
      of family (tok.text ++ behind) = tok.clean ++ of family behind)
    {toks : List Token} (h : Token.AllFit fits toks) :
    of family (toks.flatMap Token.text) = toks.flatMap Token.clean := by
  induction toks with
  | nil => cases family <;> rfl
  | cons tok toks ih =>
    obtain ⟨hfit, hrest⟩ := h
    -- The other tokens are the text behind the first.
    rw [List.flatMap_cons, List.flatMap_cons, step tok _ hfit, ih hrest]

/-! ## Tokens of a language with braces -/

theorem brace_code {s : Text} (hs : ∀ c ∈ s, c ≠ '\'' ∧ c ≠ '"' ∧ c ≠ '/') (t : Text) :
    of .brace (s ++ t) = s ++ of .brace t := by
  have hslash : '/' ∉ s := fun h => (hs _ h).2.2 rfl
  have hquotes : ∀ c ∈ s, c ≠ '\'' ∧ c ≠ '"' := fun c hc => ⟨(hs c hc).1, (hs c hc).2.1⟩
  rw [of_brace, blockComment_opensWith.replaceAll_append hslash,
    lineComment_opensWith.replaceAll_append hslash, emptied_append hquotes, of_brace]

theorem brace_quoted {q : Quote} {s : Text} (hs : ∀ c ∈ s, c ≠ '\'' ∧ c ≠ newline)
    (hq : q = .double → '"' ∉ s) (hline : ¬ ("//" : Text) <:+: s)
    (hblock : ¬ ("/*" : Text) <:+: s) (t : Text) :
    of .brace (q.sign :: (s ++ [q.sign]) ++ t) = emptyLiteral ++ of .brace t := by
  have hsplit : q.sign :: (s ++ [q.sign]) ++ t = q.sign :: (s ++ q.sign :: t) := by simp
  have hsign₁ : q.sign ∉ ("/*" : Text) := by cases q <;> decide
  have hsign₂ : q.sign ∉ ("//" : Text) := by cases q <;> decide
  -- Neither comment mark begins in the literal, so both passes over comments leave it as it is.
  rw [hsplit, of_brace, blockComment_marked.replaceAll_enclosed (by decide) hsign₁ hblock,
    (lineComment_marked "//").replaceAll_enclosed (by decide) hsign₂ hline, emptied_quoted hs hq,
    of_brace]

theorem brace_lineComment {c : Text} (hc : newline ∉ c)
    (hblock : ¬ ("/*" : Text) <:+: ("//" : Text) ++ c) {t : Text} (ht : EndsLine t) :
    of .brace ("//" ++ c ++ t) = of .brace t := by
  -- A block comment that begins with the last sign would have to go on behind the line.
  have hhead : ∀ d ∈ t.head?, d ∉ ("/*" : Text) := by
    intro d hd
    rw [ht d hd]
    decide
  have ht' : EndsLine (replaceAll blockComment t) := ht.replaceAll fun _ => rfl
  rw [of_brace, blockComment_marked.replaceAll_append hblock hhead,
    replaceAll_lineComment (by decide) hc ht', of_brace]

theorem brace_blockComment {b : Text} (hb : ¬ ("*/" : Text) <:+: b) (t : Text) :
    of .brace ("/*" ++ (b ++ "*/") ++ t) = newlinesOf b ++ of .brace t := by
  have hslash : '/' ∉ newlinesOf b := fun h => absurd (mem_newlinesOf h) (by decide)
  rw [of_brace, replaceAll_blockComment hb, lineComment_opensWith.replaceAll_append hslash,
    emptied_append newlinesOf_ne_quote, of_brace]

theorem brace_token (tok : Token) (behind : Text) (h : tok.Braced behind) :
    of .brace (tok.text ++ behind) = tok.clean ++ of .brace behind := by
  cases tok with
  | code t => exact brace_code h behind
  | quoted q s =>
    obtain ⟨hs, hq, hline, hblock⟩ := h
    exact brace_quoted hs hq hline hblock behind
  | longQuoted q s => exact h.elim
  | lineComment mark c =>
    obtain ⟨rfl, hc, hblock, ht⟩ := h
    exact brace_lineComment hc hblock ht
  | blockComment b => exact brace_blockComment h behind

/-- A text with braces that is made of tokens is cleaned token by token, also where the language is
not known. -/
theorem of_braced_tokens {toks : List Token} (h : Token.AllFit Token.Braced toks) :
    of .brace (toks.flatMap Token.text) = toks.flatMap Token.clean ∧
      of .mixed (toks.flatMap Token.text) = toks.flatMap Token.clean := by
  have hsame : of .mixed (toks.flatMap Token.text) = of .brace (toks.flatMap Token.text) := rfl
  have hbrace := of_tokens brace_token h
  exact ⟨hbrace, hsame.trans hbrace⟩

/-- Quotes and comment marks in literals and comments, and tokens that follow at once. -/
def bracedSample : List Token :=
  [.code "f(", .quoted .double "*/ a/b", .quoted .single "say \"x\" /", .code ");",
    .lineComment "//" "/ don't \"stop", .code "\ng()", .blockComment "/ \" // '\n *",
    .blockComment "", .quoted .double "", .lineComment "//" " 'end"]

theorem of_braced_tokens_sample : Token.AllFit Token.Braced bracedSample ∧
    of .brace (bracedSample.flatMap Token.text) = "f(\"\"\"\");\ng()\n\"\"" ∧
      of .mixed (bracedSample.flatMap Token.text) = "f(\"\"\"\");\ng()\n\"\"" := by
  have hfit : Token.AllFit Token.Braced bracedSample := by decide +kernel
  exact ⟨hfit, of_braced_tokens hfit⟩

/-! ## Tokens of a language with indented blocks -/

theorem indent_code {s : Text} (hs : ∀ c ∈ s, c ≠ '\'' ∧ c ≠ '"' ∧ c ≠ '#') (t : Text) :
    of .indent (s ++ t) = s ++ of .indent t := by
  have hhash : '#' ∉ s := fun h => (hs _ h).2.2 rfl
  have hquotes : ∀ c ∈ s, c ≠ '\'' ∧ c ≠ '"' := fun c hc => ⟨(hs c hc).1, (hs c hc).2.1⟩
  rw [of_indent, replaceAll_tripleQuoted_code hquotes, emptied_append hquotes,
    hashComment_opensWith.replaceAll_append hhash, of_indent]

theorem indent_quoted {q : Quote} {s : Text} (hs : ∀ c ∈ s, c ≠ '\'' ∧ c ≠ '"' ∧ c ≠ newline)
    {t : Text} (ht : Unquoted t) :
    of .indent (q.sign :: (s ++ [q.sign]) ++ t) = emptyLiteral ++ of .indent t := by
  have hnone : ∀ p : Quote, p.sign ∉ s := by
    intro p h
    cases p with
    | single => exact (hs _ h).1 rfl
    | double => exact (hs _ h).2.1 rfl
  -- The literal has two quotes, and so no three of them in a row.
  have hmark : ∀ p : Quote, ¬ p.mark <:+: q.sign :: (s ++ [q.sign]) := by
    intro p h
    have hle := h.sublist.count_le p.sign
    have hthree : p.mark.count p.sign = 3 := by simp [Quote.mark]
    have hzero : s.count p.sign = 0 := List.count_eq_zero.2 (hnone p)
    rw [hthree, List.count_cons, List.count_append, hzero, List.count_singleton] at hle
    split at hle <;> omega
  have hline : ∀ c ∈ s, c ≠ '\'' ∧ c ≠ newline := fun c hc => ⟨(hs c hc).1, (hs c hc).2.2⟩
  have hsplit : ∀ r, q.sign :: (s ++ [q.sign]) ++ r = q.sign :: (s ++ q.sign :: r) := by simp
  have hhash : '#' ∉ emptyLiteral := by decide
  rw [of_indent, replaceAll_tripleQuoted_append hmark ht, hsplit,
    emptied_quoted hline fun _ => hnone .double, hashComment_opensWith.replaceAll_append hhash,
    of_indent]

theorem indent_longQuoted {q : Quote} {s : Text} (hs : ¬ q.mark <:+: s)
    (hlast : ∀ c ∈ s.getLast?, c ≠ q.sign) (t : Text) :
    of .indent (q.mark ++ (s ++ q.mark) ++ t) = emptyLiteral ++ newlinesOf s ++ of .indent t := by
  have hhash : '#' ∉ emptyLiteral ++ newlinesOf s := by
    intro h
    rcases List.mem_append.1 h with h | h
    · exact absurd h (by decide)
    · exact absurd (mem_newlinesOf h) (by decide)
  rw [of_indent, replaceAll_tripleQuoted hs hlast, List.append_assoc, emptied_emptyLiteral,
    emptied_append newlinesOf_ne_quote, ← List.append_assoc, hashComment_opensWith.replaceAll_append hhash,
    of_indent]

theorem indent_comment {c : Text} (hc : newline ∉ c) (hmark : ∀ q : Quote, ¬ q.mark <:+: c)
    {t : Text} (ht : EndsLine t) : of .indent ("#" ++ c ++ t) = of .indent t := by
  have hwhole : ∀ q : Quote, ¬ q.mark <:+: ("#" : Text) ++ c := by
    intro q h
    rcases List.infix_cons_iff.1 h with hp | hin
    · have hsign : q.sign = '#' := (List.cons_prefix_cons.1 hp).1
      cases q <;> exact absurd hsign (by decide)
    · exact hmark q hin
  have ht' : EndsLine (replaceAll tripleQuoted t) := ht.replaceAll fun _ => rfl
  have hsharp : emptied ("#" ++ c) = "#" ++ emptied c := emptied_append (by simp) c
  -- The passes over literals go through the comment. Quotes in it find each other there, but none
  -- finds one in the code, since the line ends.
  rw [of_indent, replaceAll_tripleQuoted_append hwhole ht.unquoted, emptied_line _ ht', hsharp,
    replaceAll_lineComment (by decide) (newline_not_mem_emptied hc) ht'.emptied, of_indent]

theorem indent_token (tok : Token) (behind : Text) (h : tok.Indented behind) :
    of .indent (tok.text ++ behind) = tok.clean ++ of .indent behind := by
  cases tok with
  | code t => exact indent_code h behind
  | quoted q s => exact indent_quoted h.1 h.2
  | longQuoted q s => exact indent_longQuoted h.1 h.2 behind
  | lineComment mark c =>
    obtain ⟨rfl, hc, hmark, ht⟩ := h
    exact indent_comment hc hmark ht
  | blockComment b => exact h.elim

/-- A text with indented blocks that is made of tokens is cleaned token by token. -/
theorem of_indented_tokens {toks : List Token} (h : Token.AllFit Token.Indented toks) :
    of .indent (toks.flatMap Token.text) = toks.flatMap Token.clean := of_tokens indent_token h

/-- Apostrophes in comments, hash signs in literals, and quotes of both kinds side by side. -/
def indentedSample : List Token :=
  [.longQuoted .double "\"it's '''\n# x", .code "\ns = a // b + ", .quoted .single "# x",
    .lineComment "#" " don't \"say '' 'x'", .code "\nt = ", .quoted .double "", .code " ",
    .longQuoted .single "", .lineComment "#" "\""]

theorem of_indented_tokens_sample : Token.AllFit Token.Indented indentedSample ∧
    of .indent (indentedSample.flatMap Token.text) =
      "\"\"\n\ns = a // b + \"\"\nt = \"\" \"\"" := by
  have hfit : Token.AllFit Token.Indented indentedSample := by decide +kernel
  exact ⟨hfit, of_indented_tokens hfit⟩

end CostLens.Sanitized
