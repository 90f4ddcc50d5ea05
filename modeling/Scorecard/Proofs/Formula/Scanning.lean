/-
Texts and their tokens.

`Covers` says of some tokens that they are what a stretch of a text consists of, without a
scanner: each is the longest lexeme where it stands, each ends before the next one starts, and
outside of them there are only blanks.  A stretch is covered in one way at most, because its
first character is a blank or starts a lexeme, and then the longest one is given.

The scanner either covers the whole text, or it covers what stands before the first place that
is neither.
-/
import Mathlib
import Scorecard.Proofs.Formula.Lexemes

namespace Scorecard

namespace Token

variable {text rest : List Char} {start stop p q : Nat} {c : Char} {t : Token} {tokens : List Token}

/-- The place behind the last character of a token. -/
def after (t : Token) : Nat :=
  t.position + t.text.length

/-! ### Covered stretches -/

/-- The text from `start` up to `stop` consists of these tokens, and of blanks. -/
structure Covers (text : List Char) (start stop : Nat) (tokens : List Token) : Prop where
  within : ∀ t ∈ tokens, start ≤ t.position ∧ t.after ≤ stop
  ordered : tokens.Pairwise fun t u => t.after ≤ u.position
  longest : ∀ t ∈ tokens, Longest t.kind t.text.toList (text.drop t.position)
  blanks : ∀ i c, start ≤ i → i < stop → text[i]? = some c →
    (∀ t ∈ tokens, i < t.position ∨ t.after ≤ i) → isAsciiBlank c = true

/-- A lexeme is not empty. -/
theorem position_lt_after (h : Longest t.kind t.text.toList rest) : t.position < t.after := by
  have hpos := h.lexeme.length_pos
  rw [String.length_toList] at hpos
  unfold after
  omega

theorem after_le_length (h : Longest t.kind t.text.toList (text.drop t.position)) :
    t.after ≤ text.length := by
  have hlt := position_lt_after h
  have hle := h.front.length_le
  rw [String.length_toList, List.length_drop] at hle
  unfold after at hlt ⊢
  omega

namespace Covers

theorem nil (text : List Char) (p : Nat) : Covers text p p [] :=
  ⟨by simp, .nil, by simp, fun i c hle hlt => by omega⟩

theorem blank (hc : text[p]? = some c) (hblank : isAsciiBlank c = true)
    (h : Covers text (p + 1) stop tokens) : Covers text p stop tokens where
  within t ht := by
    have hwithin := h.within t ht
    omega
  ordered := h.ordered
  longest := h.longest
  blanks i d hle hlt hd hout := by
    rcases Nat.eq_or_lt_of_le hle with rfl | hbehind
    · rw [hc] at hd
      cases hd
      exact hblank
    · exact h.blanks i d hbehind hlt hd hout

theorem cons (ht : Longest t.kind t.text.toList (text.drop t.position)) (hstop : t.after ≤ stop)
    (h : Covers text t.after stop tokens) : Covers text t.position stop (t :: tokens) where
  within := by
    refine List.forall_mem_cons.mpr ⟨⟨le_rfl, hstop⟩, fun u hu => ?_⟩
    have hwithin := h.within u hu
    have hlt := position_lt_after ht
    omega
  ordered := List.pairwise_cons.mpr ⟨fun u hu => (h.within u hu).1, h.ordered⟩
  longest := List.forall_mem_cons.mpr ⟨ht, h.longest⟩
  blanks i d hle hlt hd hout := by
    rw [List.forall_mem_cons] at hout
    exact h.blanks i d (by omega) hlt hd hout.2

theorem eq_nil (h : Covers text p stop tokens) (hle : stop ≤ p) : tokens = [] := by
  refine List.eq_nil_iff_forall_not_mem.mpr fun t ht => ?_
  have hwithin := h.within t ht
  have hlt := position_lt_after (h.longest t ht)
  omega

/-- What starts a covered stretch is a blank, or it is the first token. -/
theorem first (h : Covers text p stop tokens) (hlt : p < stop) (hc : text[p]? = some c) :
    (isAsciiBlank c = true ∧ Covers text (p + 1) stop tokens) ∨
      ∃ t others, tokens = t :: others ∧ t.position = p ∧ Covers text t.after stop others := by
  have later : (∀ t ∈ tokens, p < t.position) →
      isAsciiBlank c = true ∧ Covers text (p + 1) stop tokens := by
    intro hlater
    refine ⟨h.blanks p c le_rfl hlt hc fun t ht => .inl (hlater t ht), ?_⟩
    exact ⟨fun t ht => ⟨hlater t ht, (h.within t ht).2⟩, h.ordered, h.longest,
      fun i d hle => h.blanks i d (by omega)⟩
  cases tokens with
  | nil => exact .inl (later (by simp))
  | cons t others =>
      obtain ⟨hbefore, hordered⟩ := List.pairwise_cons.mp h.ordered
      have hstart := (h.within t List.mem_cons_self).1
      have hlt := position_lt_after (h.longest t List.mem_cons_self)
      by_cases hplace : t.position = p
      · refine .inr ⟨t, others, rfl, hplace, fun u hu => ?_, hordered, fun u hu => ?_, ?_⟩
        · exact ⟨hbefore u hu, (h.within u (List.mem_cons_of_mem t hu)).2⟩
        · exact h.longest u (List.mem_cons_of_mem t hu)
        · exact fun i d hle hi hd hout =>
            h.blanks i d (by omega) hi hd (List.forall_mem_cons.mpr ⟨.inr hle, hout⟩)
      · refine .inl (later (List.forall_mem_cons.mpr ⟨by omega, fun u hu => ?_⟩))
        have hle := hbefore u hu
        omega

/-- The tokens of a stretch are those of the text that ends with it. -/
theorem take (h : Covers text start p tokens) : Covers (text.take p) start p tokens where
  within := h.within
  ordered := h.ordered
  longest t ht := by
    have hlongest := h.longest t ht
    have hstop : t.position + t.text.toList.length ≤ p := by
      rw [String.length_toList]
      exact (h.within t ht).2
    rw [List.drop_take]
    refine ⟨hlongest.lexeme, List.prefix_take_iff.mpr ⟨hlongest.front, by omega⟩, ?_⟩
    exact fun k l hl hfront => hlongest.longest k l hl (List.prefix_take_iff.mp hfront).1
  blanks i c hle hlt hc hout := by
    rw [List.getElem?_take_of_lt hlt] at hc
    exact h.blanks i c hle hlt hc hout

end Covers

/-! ### Scanning a covered stretch -/

/-- The scanner takes the longest lexeme as a token, and goes on behind it. -/
theorem scanFrom_longest (h : Longest t.kind t.text.toList (text.drop t.position)) :
    scanFrom t.position (text.drop t.position) =
      (scanFrom t.after (text.drop t.after)).map (t :: ·) := by
  obtain ⟨kind, spelt, position⟩ := t
  obtain ⟨c, more, hspelt, hblank⟩ := h.lexeme.starts
  obtain ⟨behind, hbehind⟩ := h.front
  obtain rfl : spelt = String.ofList (c :: more) := by rw [← hspelt, String.ofList_toList]
  have hlength : (String.ofList (c :: more)).length = (c :: more).length := by
    rw [← String.length_toList, hspelt]
  simp only [after, hlength] at hbehind h ⊢
  rw [hspelt] at hbehind h
  rw [← List.drop_drop, ← hbehind, List.drop_left]
  rw [← hbehind] at h
  exact scanFrom_lexeme hblank (lexeme_of_longest h)

/-- Through a covered stretch the scanner finds its tokens, and then goes on. -/
theorem scanFrom_of_covers (h : Covers text p stop tokens) (hle : p ≤ stop)
    (hlen : stop ≤ text.length) :
    scanFrom p (text.drop p) = (scanFrom stop (text.drop stop)).map (tokens ++ ·) := by
  induction hn : stop - p using Nat.strongRecOn generalizing p tokens with
  | _ n ih =>
      by_cases hdone : stop ≤ p
      · obtain rfl : p = stop := Nat.le_antisymm hle hdone
        rw [h.eq_nil le_rfl]
        cases scanFrom p (text.drop p) <;> rfl
      · have hlt : p < text.length := by omega
        rcases h.first (by omega) (List.getElem?_eq_getElem hlt) with
          ⟨hblank, hrest⟩ | ⟨t, others, rfl, rfl, hothers⟩
        · rw [List.drop_eq_getElem_cons hlt, scanFrom, if_pos hblank]
          exact ih (stop - (p + 1)) (by omega) hrest (by omega) rfl
        · have ht := h.longest t List.mem_cons_self
          have hpos := position_lt_after ht
          have hafter := (h.within t List.mem_cons_self).2
          rw [scanFrom_longest ht, ih (stop - t.after) (by omega) hothers hafter rfl]
          cases scanFrom stop (text.drop stop) <;> rfl

/-! ### Refused places -/

/-- Behind the tokens, which cover the text from `start` up to the place, stands a character
that is no blank and with which no lexeme starts. -/
structure Refused (text : List Char) (start : Nat) (tokens : List Token) (place : Nat) (c : Char) :
    Prop where
  covers : Covers text start place tokens
  here : text[place]? = some c
  notBlank : isAsciiBlank c = false
  noLexeme : ∀ kind l, IsLexeme kind l → ¬ l <+: text.drop place

theorem Refused.place_lt (h : Refused text start tokens p c) : p < text.length :=
  (List.getElem?_eq_some_iff.mp h.here).1

/-- The scanner goes no further. -/
theorem Refused.scanFrom (h : Refused text start tokens p c) (hle : start ≤ p) :
    scanFrom start (text.drop start) = .error ⟨p, c⟩ := by
  obtain ⟨hlt, hc⟩ := List.getElem?_eq_some_iff.mp h.here
  have hdrop : text.drop p = c :: text.drop (p + 1) := by rw [List.drop_eq_getElem_cons hlt, hc]
  have hnone : lexeme? c (text.drop (p + 1)) = none := by
    cases hlexeme : lexeme? c (text.drop (p + 1)) with
    | none => rfl
    | some found =>
        obtain ⟨front, behind, -, -, hlongest⟩ := longest_of_lexeme hlexeme
        exact absurd (hdrop ▸ hlongest.front) (h.noLexeme _ _ hlongest.lexeme)
  rw [scanFrom_of_covers h.covers hle hlt.le, hdrop, Token.scanFrom, if_neg (by simp [h.notBlank]), hnone]
  rfl

/-- **The scanner covers the text, or it is refused** at some place. -/
theorem scanFrom_outcome (text : List Char) {start : Nat} (hstart : start ≤ text.length) :
    (∃ tokens, Covers text start text.length tokens) ∨
      ∃ tokens p c, start ≤ p ∧ Refused text start tokens p c := by
  induction hn : text.length - start using Nat.strongRecOn generalizing start with
  | _ n ih =>
      by_cases hdone : start = text.length
      · subst hdone
        exact .inl ⟨[], .nil text _⟩
      · have hlt : start < text.length := by omega
        have hhere : text[start]? = some text[start] := List.getElem?_eq_getElem hlt
        have hdrop := List.drop_eq_getElem_cons hlt
        by_cases hblank : isAsciiBlank text[start] = true
        · rcases ih (text.length - (start + 1)) (by omega) hlt rfl with
            ⟨tokens, hcovers⟩ | ⟨tokens, p, c, hle, hrefused⟩
          · exact .inl ⟨tokens, .blank hhere hblank hcovers⟩
          · exact .inr ⟨tokens, p, c, by omega,
              { hrefused with covers := .blank hhere hblank hrefused.covers }⟩
        · cases hlexeme : lexeme? text[start] (text.drop (start + 1)) with
          | none =>
              refine .inr ⟨[], start, _, le_rfl, .nil text start, hhere, by simpa using hblank, ?_⟩
              intro kind l hl
              rw [hdrop]
              exact not_isLexeme_of_lexeme hlexeme hl
          | some found =>
              obtain ⟨kind, more⟩ := found
              obtain ⟨front, -, -, -, hlongest⟩ := longest_of_lexeme hlexeme
              let t : Token := ⟨kind, String.ofList (text[start] :: front), start⟩
              have ht : Longest t.kind t.text.toList (text.drop t.position) := by
                rwa [String.toList_ofList, hdrop]
              have hpos : start < t.after := position_lt_after ht
              have hafter : t.after ≤ text.length := after_le_length ht
              rcases ih (text.length - t.after) (by omega) hafter rfl with
                ⟨tokens, hcovers⟩ | ⟨tokens, p, c, hle, hrefused⟩
              · exact .inl ⟨t :: tokens, .cons ht hafter hcovers⟩
              · exact .inr ⟨t :: tokens, p, c, by omega,
                  { hrefused with covers := .cons ht hle hrefused.covers }⟩

end Token

namespace TokenList

open Token

/-- A text has the tokens that cover it. -/
theorem ofText_of_covers {text : String} {tokens : List Token}
    (h : Covers text.toList 0 text.length tokens) : ofText text = .ok ⟨tokens, text.length⟩ := by
  have hlength : text.length = text.toList.length := String.length_toList.symm
  have hscan := scanFrom_of_covers h (Nat.zero_le _) hlength.le
  rw [hlength, List.drop_length, List.drop_zero, scanFrom] at hscan
  unfold ofText
  rw [hscan]
  simp only [Except.map, List.append_nil]

theorem ofText_of_refused {text : String} {tokens : List Token} {p : Nat} {c : Char}
    (h : Refused text.toList 0 tokens p c) : ofText text = .error ⟨p, c⟩ := by
  have hscan := h.scanFrom (Nat.zero_le p)
  rw [List.drop_zero] at hscan
  unfold ofText
  rw [hscan]

theorem ofText_outcome (text : String) :
    (∃ tokens, Covers text.toList 0 text.length tokens) ∨
      ∃ tokens p c, Refused text.toList 0 tokens p c := by
  rcases scanFrom_outcome text.toList (Nat.zero_le _) with ⟨tokens, h⟩ | ⟨tokens, p, c, -, h⟩
  · rw [String.length_toList] at h
    exact .inl ⟨tokens, h⟩
  · exact .inr ⟨tokens, p, c, h⟩

/--
**A text is cut into its longest lexemes, and nothing of it is lost.**  Its tokens are those
that cover it, up to the end.  It is refused at a place exactly where tokens cover what stands
before, and behind them stands neither a blank nor a lexeme; and what stands before is then a
text with these tokens.
-/
theorem ofText_longest (text : String) :
    (∀ list, ofText text = .ok list ↔
        list.stop = text.length ∧ Covers text.toList 0 text.length list.tokens) ∧
      (∀ p c, ofText text = .error ⟨p, c⟩ ↔ ∃ tokens, Refused text.toList 0 tokens p c) ∧
      ∀ tokens p c, Refused text.toList 0 tokens p c →
        ofText (String.ofList (text.toList.take p)) = .ok ⟨tokens, p⟩ := by
  refine ⟨fun list => ⟨fun h => ?_, ?_⟩, fun p c => ⟨fun h => ?_, ?_⟩, fun tokens p c h => ?_⟩
  · obtain ⟨tokens, hcovers⟩ | ⟨tokens, p, c, hrefused⟩ := ofText_outcome text
    · rw [ofText_of_covers hcovers] at h
      cases h
      exact ⟨rfl, hcovers⟩
    · rw [ofText_of_refused hrefused] at h
      cases h
  · obtain ⟨tokens, stop⟩ := list
    rintro ⟨rfl, hcovers⟩
    exact ofText_of_covers hcovers
  · obtain ⟨tokens, hcovers⟩ | ⟨tokens, q, d, hrefused⟩ := ofText_outcome text
    · rw [ofText_of_covers hcovers] at h
      cases h
    · rw [ofText_of_refused hrefused] at h
      cases h
      exact ⟨tokens, hrefused⟩
  · rintro ⟨tokens, hrefused⟩
    exact ofText_of_refused hrefused
  · have hlength : (String.ofList (text.toList.take p)).length = p := by
      rw [← String.length_toList, String.toList_ofList, List.length_take]
      exact Nat.min_eq_left h.place_lt.le
    have hcovers : Covers (String.ofList (text.toList.take p)).toList 0
        (String.ofList (text.toList.take p)).length tokens := by
      rw [hlength, String.toList_ofList]
      exact h.covers.take
    rw [ofText_of_covers hcovers, hlength]

/-- The theorem for a point with no digit behind it. -/
theorem ofText_longest_point :
    ∃ tokens, Refused "e1 .x".toList 0 tokens 3 '.' ∧ ofText "e1 " = .ok ⟨tokens, 3⟩ := by
  obtain ⟨-, hrefused, hbefore⟩ := ofText_longest "e1 .x"
  obtain ⟨tokens, h⟩ := (hrefused 3 '.').mp (by cbv)
  exact ⟨tokens, h, hbefore tokens 3 '.' h⟩

end TokenList

end Scorecard
