/-
Lexemes.

A lexeme is a numeral, a name or a sign.  Its first character tells which of the three it
may be, so a text is a lexeme of one kind at most, and no lexeme starts with a blank.

At each place the scanner takes the longest lexeme that stands there.  There is only one, for
of two that start at the same place and are equally long neither is longer.
-/
import Scorecard.Proofs.Formula.Lexing
import Scorecard.Proofs.Number.Longest

namespace Scorecard

namespace Token

variable {kind kind' : Kind} {l l' text rest : List Char} {c : Char} {more : Nat} {n : Numeral}

/-- The text is a lexeme of the kind. -/
inductive IsLexeme : Kind → List Char → Prop
  | number {n : Numeral} {text : List Char} (h : n.SpeltAs text) :
      IsLexeme (.number (n.toFloat false)) text
  | name {c : Char} {more : List Char} (hc : startsName c = true)
      (hmore : ∀ d ∈ more, continuesName d = true) : IsLexeme .name (c :: more)
  | sign {c : Char} {kind : Kind} (h : signKind? c = some kind) : IsLexeme kind [c]

/-- The lexeme is the longest one at the front of the text. -/
structure Longest (kind : Kind) (l text : List Char) : Prop where
  lexeme : IsLexeme kind l
  front : l <+: text
  longest : ∀ k l', IsLexeme k l' → l' <+: text → l'.length ≤ l.length

/-! ### First characters -/

/-- A character that may start a numeral. -/
def StartsNumber (c : Char) : Prop :=
  Scorecard.isDigit c = true ∨ c = '.'

theorem not_startsNumber (hdigit : Scorecard.isDigit c = false) (hpoint : c ≠ '.') :
    ¬ StartsNumber c := by
  rintro (h | h)
  · rw [hdigit] at h
    cases h
  · exact hpoint h

/-- What starts a numeral is no blank, starts no name and is no sign. -/
theorem of_startsNumber (h : StartsNumber c) :
    isAsciiBlank c = false ∧ startsName c = false ∧ signKind? c = none := by
  refine ⟨?_, ?_, ?_⟩
  · rcases h with hdigit | rfl
    · exact isAsciiBlank_of_isDigit hdigit
    · rfl
  · by_contra hname
    obtain ⟨hdigit, hpoint, -⟩ := of_startsName (eq_true_of_ne_false hname)
    exact not_startsNumber hdigit hpoint h
  · by_contra hsign
    obtain ⟨kind, hkind⟩ := Option.ne_none_iff_exists'.mp hsign
    obtain ⟨hdigit, hpoint, -⟩ := of_signKind hkind
    exact not_startsNumber hdigit hpoint h

namespace IsLexeme

/-- No lexeme is empty, and none starts with a blank. -/
theorem starts (h : IsLexeme kind l) : ∃ c more, l = c :: more ∧ isAsciiBlank c = false := by
  cases h with
  | number h =>
      obtain ⟨c, more, rfl, hc⟩ := h.starts
      exact ⟨c, more, rfl, (of_startsNumber hc).1⟩
  | name hc hmore => exact ⟨_, _, rfl, (of_startsName hc).2.2⟩
  | sign h => exact ⟨_, _, rfl, (of_signKind h).2.2.1⟩

theorem length_pos (h : IsLexeme kind l) : 0 < l.length := by
  obtain ⟨c, more, rfl, -⟩ := h.starts
  simp

/-- Where a numeral may start, no other lexeme does. -/
theorem of_startsNumber (h : IsLexeme kind l) (hfront : l <+: c :: rest) (hc : StartsNumber c) :
    ∃ n : Numeral, kind = .number (n.toFloat false) ∧ n.SpeltAs l := by
  obtain ⟨-, hname, hsign⟩ := Token.of_startsNumber hc
  cases h with
  | number hn => exact ⟨_, rfl, hn⟩
  | name hstart hmore =>
      obtain rfl := (List.cons_prefix_cons.mp hfront).1
      rw [hname] at hstart
      cases hstart
  | sign hkind =>
      obtain rfl := (List.cons_prefix_cons.mp hfront).1
      rw [hsign] at hkind
      cases hkind

/-- Where a name may start, no other lexeme does. -/
theorem of_startsName (h : IsLexeme kind l) (hfront : l <+: c :: rest) (hc : startsName c = true) :
    kind = .name ∧ ∃ more, l = c :: more ∧ ∀ d ∈ more, continuesName d = true := by
  cases h with
  | number hn =>
      obtain ⟨c', more, rfl, hstart⟩ := hn.starts
      obtain rfl := (List.cons_prefix_cons.mp hfront).1
      rw [(Token.of_startsNumber hstart).2.1] at hc
      cases hc
  | name hstart hmore =>
      obtain rfl := (List.cons_prefix_cons.mp hfront).1
      exact ⟨rfl, _, rfl, hmore⟩
  | sign hkind =>
      obtain rfl := (List.cons_prefix_cons.mp hfront).1
      rw [(of_signKind hkind).2.2.2.1] at hc
      cases hc

/-- Where a sign stands, it is the only lexeme. -/
theorem of_signKind (h : IsLexeme kind l) (hfront : l <+: c :: rest)
    (hc : signKind? c = some kind') : kind = kind' ∧ l = [c] := by
  cases h with
  | number hn =>
      obtain ⟨c', more, rfl, hstart⟩ := hn.starts
      obtain rfl := (List.cons_prefix_cons.mp hfront).1
      rw [(Token.of_startsNumber hstart).2.2] at hc
      cases hc
  | name hstart hmore =>
      obtain rfl := (List.cons_prefix_cons.mp hfront).1
      rw [(Token.of_signKind hc).2.2.2.1] at hstart
      cases hstart
  | sign hkind =>
      obtain rfl := (List.cons_prefix_cons.mp hfront).1
      exact ⟨Option.some.inj (hkind.symm.trans hc), rfl⟩

/-- A text is a lexeme of one kind only. -/
theorem kind_unique (h : IsLexeme kind l) (h' : IsLexeme kind' l) : kind = kind' := by
  cases h with
  | number hn =>
      obtain ⟨c, more, rfl, hc⟩ := hn.starts
      obtain ⟨n', rfl, hn'⟩ := h'.of_startsNumber List.prefix_rfl hc
      rw [hn.unique hn']
  | name hc hmore => exact (h'.of_startsName List.prefix_rfl hc).1.symm
  | sign hkind => exact (h'.of_signKind List.prefix_rfl hkind).1.symm

end IsLexeme

/-! ### The longest lexeme -/

theorem Longest.unique (h : Longest kind l text) (h' : Longest kind' l' text) :
    kind = kind' ∧ l = l' := by
  have hle : l.length ≤ l'.length := h'.longest kind l h.lexeme h.front
  have hge : l'.length ≤ l.length := h.longest kind' l' h'.lexeme h'.front
  obtain rfl : l = l' :=
    (List.prefix_of_prefix_length_le h.front h'.front hle).eq_of_length_le hge
  exact ⟨h.lexeme.kind_unique h'.lexeme, rfl⟩

/-- A run of characters that continue names is no longer than the scanner takes it to be. -/
theorem length_le_takeWhile {p : Char → Bool} (hl : ∀ d ∈ l, p d = true) (hfront : l <+: rest) :
    l.length ≤ (rest.takeWhile p).length := by
  obtain ⟨tail, rfl⟩ := hfront
  rw [List.takeWhile_append_of_pos hl, List.length_append]
  omega

/-- **The scanner takes the longest lexeme.** -/
theorem longest_of_lexeme (h : lexeme? c rest = some (kind, more)) :
    ∃ front behind, rest = front ++ behind ∧ more = front.length ∧
      Longest kind (c :: front) (c :: rest) := by
  unfold lexeme? at h
  split at h
  · rename_i numeral behind hscan
    cases h
    obtain ⟨front, htext, hspelt, hlongest⟩ := Numeral.scan_longest hscan
    obtain ⟨c', others, rfl, hc⟩ := hspelt.starts
    rw [List.cons_append] at htext
    obtain ⟨rfl, rfl⟩ := List.cons.inj htext
    refine ⟨others, behind, rfl, by simp, .number hspelt, List.prefix_append (c :: others) behind, ?_⟩
    intro k l hl hfront
    obtain ⟨n, -, hn⟩ := hl.of_startsNumber hfront hc
    exact (hlongest l n hn hfront).length_le
  · split at h
    · rename_i hc
      cases h
      have hall : ∀ d ∈ rest.takeWhile continuesName, continuesName d = true :=
        fun d hd => List.all_eq_true.mp List.all_takeWhile d hd
      refine ⟨_, _, List.takeWhile_append_dropWhile.symm, rfl, .name hc hall, ?_, ?_⟩
      · exact List.cons_prefix_cons.mpr ⟨rfl, List.takeWhile_prefix _⟩
      · intro k l hl hfront
        obtain ⟨-, others, rfl, hothers⟩ := hl.of_startsName hfront hc
        have hle := length_le_takeWhile hothers (List.cons_prefix_cons.mp hfront).2
        simp only [List.length_cons]
        omega
    · obtain ⟨sign, hsign, heq⟩ := Option.map_eq_some_iff.mp h
      cases heq
      refine ⟨[], rest, rfl, rfl, .sign hsign, ⟨rest, rfl⟩, fun k l hl hfront => ?_⟩
      obtain ⟨-, rfl⟩ := hl.of_signKind hfront hsign
      exact le_rfl

/-- Where the scanner finds no lexeme, there is none. -/
theorem not_isLexeme_of_lexeme (h : lexeme? c rest = none) (hl : IsLexeme kind l) :
    ¬ l <+: c :: rest := by
  intro hfront
  unfold lexeme? at h
  split at h
  · cases h
  · rename_i hscan
    split at h
    · cases h
    · rename_i hc
      have hsign : signKind? c = none := Option.map_eq_none_iff.mp h
      cases hl with
      | number hn => exact Numeral.not_speltAs_of_scan hscan hn hfront
      | name hstart hmore =>
          obtain rfl := (List.cons_prefix_cons.mp hfront).1
          exact hc hstart
      | sign hkind =>
          obtain rfl := (List.cons_prefix_cons.mp hfront).1
          rw [hsign] at hkind
          cases hkind

/-- The longest lexeme at the front of a text is the one that the scanner takes. -/
theorem lexeme_of_longest {front behind : List Char}
    (h : Longest kind (c :: front) (c :: (front ++ behind))) :
    lexeme? c (front ++ behind) = some (kind, front.length) := by
  cases hlexeme : lexeme? c (front ++ behind) with
  | none => exact absurd h.front (not_isLexeme_of_lexeme hlexeme h.lexeme)
  | some found =>
      obtain ⟨k, more⟩ := found
      obtain ⟨front', behind', -, rfl, h'⟩ := longest_of_lexeme hlexeme
      obtain ⟨rfl, hfront⟩ := h.unique h'
      rw [(List.cons.inj hfront).2]

end Token

end Scorecard
