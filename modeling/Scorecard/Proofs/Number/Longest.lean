/-
The longest numeral.

A numeral is a mantissa, which is digits with or without a point, and perhaps an exponent.
`SpeltAs` says so of a text, apart from any scanner.

What the scanner finds at the front of a text goes on from every numeral that stands there.
Of a mantissa that is plain: more digits may follow, or a point.  An exponent starts with a
letter, which no mantissa goes on with, so in front of one the mantissa that is found ends as
well.  Letters and signs that turn out to have no digits behind them are given back, and what
is found is then the mantissa.
-/
import Mathlib.Data.List.TakeWhile
import Scorecard.Number.Numeral

namespace Scorecard

namespace Numeral

variable {text whole fraction digits rest l m x : List Char} {negative : Bool} {n n' : Numeral}

/-! ### Spellings -/

/-- Digits and nothing else. -/
def Digits (text : List Char) : Prop :=
  ∀ c ∈ text, isDigit c = true

/-- The text is digits with a point among them or without one, and these stand before it and
behind it. -/
inductive Mantissa : List Char → List Char → List Char → Prop
  | whole {whole : List Char} (h : Digits whole) (hne : whole ≠ []) : Mantissa whole whole []
  | point {whole fraction : List Char} (h : Digits whole) (hne : whole ≠ []) (h' : Digits fraction) :
      Mantissa (whole ++ '.' :: fraction) whole fraction
  | fraction {fraction : List Char} (h : Digits fraction) (hne : fraction ≠ []) :
      Mantissa ('.' :: fraction) [] fraction

/-- The text is a sign, which may be left out, and it is minus or not. -/
inductive Sign : List Char → Bool → Prop
  | none : Sign [] false
  | plus : Sign ['+'] false
  | minus : Sign ['-'] true

/-- The text is an exponent, which may be left out, negative or not and with these digits. -/
inductive Exponent : List Char → Bool → List Char → Prop
  | absent : Exponent [] false []
  | present {mark : Char} {sign digits : List Char} {negative : Bool} (hmark : mark = 'e' ∨ mark = 'E')
      (hsign : Sign sign negative) (h : Digits digits) (hne : digits ≠ []) :
      Exponent (mark :: (sign ++ digits)) negative digits

/-- The text spells the numeral. -/
def SpeltAs (n : Numeral) (text : List Char) : Prop :=
  ∃ m x, text = m ++ x ∧ Mantissa m n.whole n.fraction ∧ Exponent x n.exponentNegative n.exponent

/-! ### What a spelling consists of -/

theorem digits_takeWhile (text : List Char) : Digits (text.takeWhile isDigit) :=
  fun c hc => List.all_eq_true.mp List.all_takeWhile c hc

theorem Mantissa.digit_or_point (h : Mantissa m whole fraction) :
    ∀ c ∈ m, isDigit c = true ∨ c = '.' := by
  cases h with
  | whole h hne => exact fun c hc => .inl (h c hc)
  | point h hne h' =>
      simp only [List.mem_append, List.mem_cons]
      rintro c (hc | rfl | hc)
      · exact .inl (h c hc)
      · exact .inr rfl
      · exact .inl (h' c hc)
  | fraction h hne =>
      simp only [List.mem_cons]
      rintro c (rfl | hc)
      · exact .inr rfl
      · exact .inl (h c hc)

theorem Exponent.characters (h : Exponent x negative digits) :
    ∀ c ∈ x, isDigit c = true ∨ c ∈ ['e', 'E', '+', '-'] := by
  cases h with
  | absent => simp
  | present hmark hsign hdigits hne =>
      simp only [List.mem_cons, List.mem_append]
      rintro c (rfl | hc | hc)
      · rcases hmark with rfl | rfl <;> simp
      · cases hsign <;> simp_all
      · exact .inl (hdigits c hc)

theorem SpeltAs.characters (h : n.SpeltAs text) :
    ∀ c ∈ text, isDigit c = true ∨ c ∈ ['.', 'e', 'E', '+', '-'] := by
  obtain ⟨m, x, rfl, hm, hx⟩ := h
  intro c hc
  rcases List.mem_append.mp hc with hc | hc
  · exact (hm.digit_or_point c hc).imp_right (by rintro rfl; simp)
  · exact (hx.characters c hc).imp_right (List.mem_cons_of_mem _)

/-- No mantissa has the letter that starts an exponent. -/
theorem Mantissa.mark_not_mem (h : Mantissa m whole fraction) {mark : Char}
    (hmark : mark = 'e' ∨ mark = 'E') : mark ∉ m := by
  intro hmem
  have hcases := h.digit_or_point mark hmem
  rcases hmark with rfl | rfl <;> exact absurd hcases (by decide)

theorem Digits.starts (h : Digits text) (hne : text ≠ []) :
    ∃ c more, isDigit c = true ∧ text = c :: more := by
  obtain ⟨c, more, rfl⟩ := List.exists_cons_of_ne_nil hne
  exact ⟨c, more, h c List.mem_cons_self, rfl⟩

/-- A mantissa starts with a digit, or with a point in front of one. -/
theorem Mantissa.starts (h : Mantissa m whole fraction) :
    ∃ c more, isDigit c = true ∧ (m = c :: more ∨ m = '.' :: c :: more) := by
  cases h with
  | whole h hne =>
      obtain ⟨c, more, hc, rfl⟩ := h.starts hne
      exact ⟨c, more, hc, .inl rfl⟩
  | point h hne h' =>
      obtain ⟨c, more, hc, rfl⟩ := h.starts hne
      exact ⟨c, _, hc, .inl rfl⟩
  | fraction h hne =>
      obtain ⟨c, more, hc, rfl⟩ := h.starts hne
      exact ⟨c, more, hc, .inr rfl⟩

theorem Digits.count_point (h : Digits text) : text.count '.' = 0 :=
  List.count_eq_zero.mpr fun hmem => absurd (h '.' hmem) (by decide)

theorem Mantissa.count_point_le (h : Mantissa m whole fraction) : m.count '.' ≤ 1 := by
  cases h with
  | whole h hne => simp [h.count_point]
  | point h hne h' => simp [h.count_point, h'.count_point]
  | fraction h hne => simp [h.count_point]

/-! ### Mantissas -/

/-- No mantissa goes on with the text: it starts with no digit, and not with a second point. -/
def Settles (m rest : List Char) : Prop :=
  ∀ c, rest.head? = some c → isDigit c = false ∧ (c = '.' → '.' ∈ m)

theorem isDigit_of_head_dropWhile {c : Char} (h : (text.dropWhile isDigit).head? = some c) :
    isDigit c = false := by
  have hstop := List.head?_dropWhile_not isDigit text
  rw [h] at hstop
  simpa using hstop

/-- **The longest mantissa**: none that stands at the front of the text goes beyond it. -/
theorem Mantissa.longest {m' whole' fraction' : List Char} (h : Mantissa m' whole' fraction')
    (hsettles : Settles m rest) (hfront : m' <+: m ++ rest) : m' <+: m := by
  rcases List.prefix_or_prefix_of_prefix hfront (List.prefix_append m rest) with hle | ⟨d, rfl⟩
  · exact hle
  · cases d with
    | nil => simp
    | cons c d =>
        -- the first character beyond would be a digit, or a second point
        exfalso
        obtain ⟨tail, rfl⟩ := (List.prefix_append_right_inj m).mp hfront
        obtain ⟨hdigit, hpoint⟩ := hsettles c rfl
        rcases h.digit_or_point c (by simp) with hc | rfl
        · rw [hdigit] at hc
          cases hc
        · have hone := h.count_point_le
          have hfirst : 0 < m.count '.' := List.count_pos_iff.mpr (hpoint rfl)
          rw [List.count_append, List.count_cons_self] at hone
          omega

/-- A mantissa at the front of a text shows in the digits there, or behind the point. -/
theorem Mantissa.shows (h : Mantissa m whole fraction) (hfront : m <+: text)
    (hempty : text.takeWhile isDigit = []) :
    ∃ rest, text.dropWhile isDigit = '.' :: rest ∧ rest.takeWhile isDigit ≠ [] := by
  obtain ⟨tail, rfl⟩ := hfront
  obtain ⟨c, more, hc, rfl | rfl⟩ := h.starts
  · simp [hc] at hempty
  · have hpoint : isDigit '.' = false := rfl
    exact ⟨c :: (more ++ tail), by simp [hpoint], by simp [hc]⟩

/-- The scanner finds no mantissa, and there is none; or it finds the longest one, and goes on
with the exponent. -/
theorem scan_outcome {result : Option (Numeral × List Char)} (h : scan? text = result) :
    (result = none ∧ ∀ m w f, Mantissa m w f → ¬ m <+: text) ∨
      ∃ m w f rest, text = m ++ rest ∧ Mantissa m w f ∧ Settles m rest ∧
        result = some (withExponent w f rest) := by
  have hsplit : text.takeWhile isDigit ++ text.dropWhile isDigit = text :=
    List.takeWhile_append_dropWhile
  have hwhole : Digits (text.takeWhile isDigit) := digits_takeWhile text
  have hstop : ∀ c, (text.dropWhile isDigit).head? = some c → isDigit c = false :=
    fun c => isDigit_of_head_dropWhile
  unfold scan? at h
  split at h
  · rename_i rest hempty hrest
    have hfraction : Digits (rest.takeWhile isDigit) := digits_takeWhile rest
    rw [hempty, List.nil_append, hrest] at hsplit
    split at h
    · rename_i hnone
      refine .inl ⟨h.symm, fun m w f hm hfront => ?_⟩
      obtain ⟨behind, hbehind, hne⟩ := hm.shows hfront hempty
      rw [hrest] at hbehind
      cases hbehind
      exact hne hnone
    · rename_i hne
      refine .inr ⟨'.' :: rest.takeWhile isDigit, _, _, _, ?_, .fraction hfraction hne, ?_, h.symm⟩
      · rw [List.cons_append, List.takeWhile_append_dropWhile, hsplit]
      · exact fun c hc => ⟨isDigit_of_head_dropWhile hc, fun _ => List.mem_cons_self⟩
  · rename_i hempty hpoint
    refine .inl ⟨h.symm, fun m w f hm hfront => ?_⟩
    obtain ⟨behind, hbehind, -⟩ := hm.shows hfront hempty
    exact hpoint behind hbehind
  · rename_i rest hrest hne
    refine .inr ⟨_, _, _, _, ?_, .point hwhole hne (digits_takeWhile rest), ?_, h.symm⟩
    · rw [List.append_assoc, List.cons_append, List.takeWhile_append_dropWhile, ← hrest, hsplit]
    · exact fun c hc => ⟨isDigit_of_head_dropWhile hc, fun _ => by simp⟩
  · rename_i hne hpoint _
    refine .inr ⟨_, _, _, _, hsplit.symm, .whole hwhole hne, ?_, h.symm⟩
    intro c hc
    refine ⟨hstop c hc, ?_⟩
    rintro rfl
    obtain ⟨tail, htail⟩ := List.head?_eq_some_iff.mp hc
    exact absurd htail (hpoint tail)

/-! ### Exponents -/

theorem takeSign_append {sign : List Char} (hsign : Sign sign negative) (h : Digits digits)
    (hne : digits ≠ []) (rest : List Char) :
    takeSign (sign ++ (digits ++ rest)) = (negative, digits ++ rest) := by
  obtain ⟨c, more, rfl⟩ := List.exists_cons_of_ne_nil hne
  have hc : isDigit c = true := h c List.mem_cons_self
  cases hsign with
  | none =>
      unfold takeSign
      split
      · rename_i hcons
        cases (List.cons.inj hcons).1
        cases hc
      · rename_i hcons
        cases (List.cons.inj hcons).1
        cases hc
      · rfl
  | plus => rfl
  | minus => rfl

/-- An exponent at the front of a text is found, with all the digits that follow its own. -/
theorem Exponent.scan (h : Exponent x negative digits) (hne : x ≠ []) (rest : List Char) :
    scanExponent? (x ++ rest) =
      some (negative, digits ++ rest.takeWhile isDigit, rest.dropWhile isDigit) := by
  cases h with
  | absent => exact absurd rfl hne
  | present hmark hsign h hdigits =>
      rw [List.cons_append, List.append_assoc]
      unfold scanExponent?
      simp only [if_pos hmark, takeSign_append hsign h hdigits, List.takeWhile_append_of_pos h,
        List.dropWhile_append_of_pos h]
      split
      · rename_i hnil
        exact absurd (List.append_eq_nil_iff.mp hnil).1 hdigits
      · rfl

theorem exists_sign (text : List Char) :
    ∃ sign, text = sign ++ (takeSign text).2 ∧ Sign sign (takeSign text).1 := by
  unfold takeSign
  split
  · exact ⟨['-'], rfl, .minus⟩
  · exact ⟨['+'], rfl, .plus⟩
  · exact ⟨[], rfl, .none⟩

/-- What is found is an exponent. -/
theorem exponent_of_scan (h : scanExponent? text = some (negative, digits, rest)) :
    ∃ x, text = x ++ rest ∧ Exponent x negative digits := by
  unfold scanExponent? at h
  split at h
  · rename_i mark behind
    split at h
    · rename_i hmark
      obtain ⟨sign, hbehind, hsign⟩ := exists_sign behind
      have hdigits : Digits ((takeSign behind).2.takeWhile isDigit) := digits_takeWhile _
      split at h
      · cases h
      · rename_i hne
        cases h
        refine ⟨_, ?_, .present hmark hsign hdigits hne⟩
        rw [List.cons_append, List.append_assoc, List.takeWhile_append_dropWhile, ← hbehind]
    · cases h
  · cases h

/-- **The longest exponent**: a numeral is completed with one that no other at the front of the
text goes beyond. -/
theorem withExponent_outcome (whole fraction text : List Char) :
    ∃ x negative digits rest, text = x ++ rest ∧ Exponent x negative digits ∧
      withExponent whole fraction text = (⟨whole, fraction, negative, digits⟩, rest) ∧
      ∀ x' b d, Exponent x' b d → x' <+: text → x' <+: x := by
  unfold withExponent
  split
  · rename_i negative digits rest hscan
    obtain ⟨x, rfl, hx⟩ := exponent_of_scan hscan
    refine ⟨x, negative, digits, rest, rfl, hx, rfl, fun x' b d hx' hfront => ?_⟩
    by_cases hne : x' = []
    · simp [hne]
    · obtain ⟨tail, htail⟩ := hfront
      have hscan' := hx'.scan hne tail
      rw [htail, hscan] at hscan'
      cases hscan'
      have hsame : x' ++ tail.takeWhile isDigit ++ tail.dropWhile isDigit =
          x ++ tail.dropWhile isDigit := by
        rw [List.append_assoc, List.takeWhile_append_dropWhile, htail]
      exact ⟨_, List.append_cancel_right hsame⟩
  · rename_i hnone
    refine ⟨[], false, [], text, rfl, .absent, rfl, fun x' b d hx' hfront => ?_⟩
    obtain ⟨tail, rfl⟩ := hfront
    by_cases hne : x' = []
    · simp [hne]
    · rw [hx'.scan hne tail] at hnone
      cases hnone

/-! ### Numerals -/

theorem SpeltAs.starts (h : n.SpeltAs text) :
    ∃ c more, text = c :: more ∧ (isDigit c = true ∨ c = '.') := by
  obtain ⟨m, x, rfl, hm, -⟩ := h
  obtain ⟨c, more, hc, rfl | rfl⟩ := hm.starts
  · exact ⟨c, more ++ x, rfl, .inl hc⟩
  · exact ⟨'.', c :: (more ++ x), rfl, .inr rfl⟩

theorem Exponent.starts (h : Exponent x negative digits) (hne : x ≠ []) :
    ∃ mark more, x = mark :: more ∧ (mark = 'e' ∨ mark = 'E') := by
  cases h with
  | absent => exact absurd rfl hne
  | present hmark hsign h hdigits => exact ⟨_, _, rfl, hmark⟩

/-- **The longest numeral**: what the scanner finds is one, and none that stands at the front
of the text goes beyond it. -/
theorem scan_longest (h : scan? text = some (n, rest)) :
    ∃ front, text = front ++ rest ∧ n.SpeltAs front ∧
      ∀ l (n' : Numeral), n'.SpeltAs l → l <+: text → l <+: front := by
  obtain ⟨hnone, -⟩ | ⟨m, w, f, behind, rfl, hm, hsettles, hresult⟩ := scan_outcome h
  · cases hnone
  · obtain ⟨x, b, d, tail, rfl, hx, hwith, hlongest⟩ := withExponent_outcome w f behind
    rw [hwith] at hresult
    cases hresult
    refine ⟨m ++ x, by simp, ⟨m, x, rfl, hm, hx⟩, ?_⟩
    rintro l n' ⟨m', x', rfl, hm', hx'⟩ hfront
    have hle : m' <+: m := hm'.longest hsettles ((List.prefix_append m' x').trans hfront)
    by_cases hne : x' = []
    · rw [hne, List.append_nil]
      exact hle.trans (List.prefix_append m x)
    · -- an exponent can only follow the whole of the longest mantissa
      obtain ⟨c, rfl⟩ := hle
      rw [List.append_assoc, List.prefix_append_right_inj] at hfront
      cases c with
      | nil => simpa using hlongest x' _ _ hx' hfront
      | cons c more =>
          obtain ⟨mark, others, rfl, hmark⟩ := hx'.starts hne
          obtain rfl := (List.cons_prefix_cons.mp hfront).1
          exact absurd (by simp) (hm.mark_not_mem hmark)

/-- Where the scanner finds no numeral, there is none. -/
theorem not_speltAs_of_scan (h : scan? text = none) (hn : n.SpeltAs l) : ¬ l <+: text := by
  obtain ⟨m, x, rfl, hm, -⟩ := hn
  obtain ⟨-, hnone⟩ | ⟨m', w, f, rest, -, -, -, hresult⟩ := scan_outcome h
  · exact fun hfront => hnone m _ _ hm ((List.prefix_append m x).trans hfront)
  · cases hresult

/-! ### One numeral for a spelling -/

theorem Mantissa.parts (h : Mantissa m whole fraction) :
    m.takeWhile isDigit = whole ∧ (m.dropWhile isDigit).tail = fraction := by
  cases h with
  | whole h hne =>
      rw [List.takeWhile_eq_self_iff.mpr h, List.dropWhile_eq_nil_iff.mpr h, List.tail_nil]
      exact ⟨rfl, rfl⟩
  | point h hne h' =>
      rw [List.takeWhile_append_of_pos h, List.dropWhile_append_of_pos h]
      exact ⟨List.append_nil _, rfl⟩
  | fraction h hne => exact ⟨rfl, rfl⟩

theorem Exponent.settles (h : Exponent x negative digits) (m : List Char) : Settles m x := by
  intro c hc
  by_cases hne : x = []
  · subst hne
    cases hc
  · obtain ⟨mark, more, rfl, rfl | rfl⟩ := h.starts hne <;> cases hc <;> exact ⟨rfl, nofun⟩

theorem Exponent.unique {b : Bool} {d : List Char} (h : Exponent x negative digits)
    (h' : Exponent x b d) : negative = b ∧ digits = d := by
  by_cases hne : x = []
  · subst hne
    cases h
    cases h'
    exact ⟨rfl, rfl⟩
  · have hscan := h.scan hne []
    rw [h'.scan hne []] at hscan
    simp at hscan
    exact ⟨hscan.1.symm, hscan.2.symm⟩

/-- A text spells one numeral. -/
theorem SpeltAs.unique (h : n.SpeltAs l) (h' : n'.SpeltAs l) : n = n' := by
  obtain ⟨m, x, rfl, hm, hx⟩ := h
  obtain ⟨m', x', hl, hm', hx'⟩ := h'
  have hle : m' <+: m := hm'.longest (hx.settles m) ⟨x', hl.symm⟩
  have hge : m <+: m' := hm.longest (hx'.settles m') ⟨x, hl⟩
  obtain rfl : m = m' := hge.eq_of_length_le hle.length_le
  obtain rfl := List.append_cancel_left hl
  obtain ⟨hnegative, hexponent⟩ := hx.unique hx'
  obtain ⟨hwhole, hfraction⟩ := hm.parts
  obtain ⟨hwhole', hfraction'⟩ := hm'.parts
  obtain ⟨whole, fraction, negative, exponent⟩ := n
  obtain ⟨whole', fraction', negative', exponent'⟩ := n'
  simp only at hwhole hfraction hwhole' hfraction' hnegative hexponent
  subst hwhole hfraction hwhole' hfraction' hnegative hexponent
  rfl

end Numeral

end Scorecard
