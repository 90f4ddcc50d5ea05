/-
Blanks between tokens.

A text is its lexemes with gaps around them.  How wide a gap is, and of which blanks it consists,
makes no difference, as long as a gap is not closed: what stood apart must not run together.  A
gap may be opened anywhere.  That is not plain, because the scanner looks ahead: of `1e+x` it
takes `1` only after it has found no digit behind the sign.  But it takes the longest lexeme, and
lexemes have no blanks in them, so with wider gaps a place has no lexeme that it did not have
before.

What the scanner finds is then the same, each token at the place where it stands now, and the
parser does not care where its tokens stand.
-/
import Scorecard.Proofs.Formula.Lexemes
import Scorecard.Proofs.Formula.Moving

namespace Scorecard

namespace Token

variable {kind : Kind} {l x rest rest' : List Char} {p q : Nat} {t : Token} {tokens : List Token}
  {gap gap' : Nat → List Char} {ls : List (List Char)}

/-! ### Blanks -/

/-- Nothing but blanks. -/
def Blanks (text : List Char) : Prop :=
  ∀ c ∈ text, isAsciiBlank c = true

instance (text : List Char) : Decidable (Blanks text) :=
  decidable_of_iff (text.all isAsciiBlank = true) List.all_eq_true

theorem blanks_nil : Blanks [] :=
  fun _ hc => nomatch hc

theorem isAsciiBlank_of_continuesName {c : Char} (h : continuesName c = true) :
    isAsciiBlank c = false := by
  simp only [continuesName, Char.isAlphanum, Bool.or_eq_true] at h
  rcases h with (halpha | hdigit) | hunderscore
  · exact (of_startsName (by simp [startsName, halpha])).2.2
  · exact isAsciiBlank_of_isDigit (by rw [isDigit_eq, hdigit])
  · exact (of_startsName (by simp [startsName, hunderscore])).2.2

/-- There are no blanks in a lexeme. -/
theorem IsLexeme.not_blank (h : IsLexeme kind l) : ∀ c ∈ l, isAsciiBlank c = false := by
  cases h with
  | number h =>
      intro c hc
      rcases h.characters c hc with hdigit | hother
      · exact isAsciiBlank_of_isDigit hdigit
      · simp only [List.mem_cons, List.not_mem_nil, or_false] at hother
        rcases hother with rfl | rfl | rfl | rfl | rfl <;> rfl
  | name hc hmore =>
      exact List.forall_mem_cons.mpr ⟨(Token.of_startsName hc).2.2,
        fun d hd => isAsciiBlank_of_continuesName (hmore d hd)⟩
  | sign h => exact List.forall_mem_singleton.mpr (Token.of_signKind h).2.2.1

/-- The scanner passes over blanks. -/
theorem scanFrom_blanks {gap : List Char} (h : Blanks gap) (p : Nat) (rest : List Char) :
    scanFrom p (gap ++ rest) = scanFrom (p + gap.length) rest := by
  induction gap generalizing p with
  | nil => rfl
  | cons c gap ih =>
      obtain ⟨hc, hgap⟩ := List.forall_mem_cons.mp h
      rw [List.cons_append, scanFrom, if_pos hc, ih hgap, List.length_cons, Nat.add_assoc, Nat.add_comm 1]

/-! ### Spread texts -/

/-- Lexemes with a gap in front of each, and the last gap behind them. -/
def spread (gap : Nat → List Char) : List (List Char) → List Char
  | [] => gap 0
  | l :: ls => gap 0 ++ (l ++ spread (fun i => gap (i + 1)) ls)

/-- What is blank in front of a text is no part of what starts there without blanks. -/
theorem eq_nil_of_front {blank : List Char} (hblank : Blanks blank) (hne : blank ≠ [])
    (hx : ∀ c ∈ x, isAsciiBlank c = false) (h : x <+: blank ++ rest) : x = [] := by
  obtain ⟨c, more, rfl⟩ := List.exists_cons_of_ne_nil hne
  cases x with
  | nil => rfl
  | cons d x =>
      obtain rfl := (List.cons_prefix_cons.mp h).1
      have hd := hx d List.mem_cons_self
      rw [hblank d List.mem_cons_self] at hd
      cases hd

/-- A prefix of two texts ends in the first or goes on into the second. -/
theorem prefix_append_cases (h : x <+: l ++ rest) : x <+: l ∨ ∃ y, x = l ++ y ∧ y <+: rest := by
  rcases List.prefix_or_prefix_of_prefix h (List.prefix_append l rest) with hshort | ⟨y, rfl⟩
  · exact .inl hshort
  · exact .inr ⟨y, rfl, (List.prefix_append_right_inj l).mp h⟩

/-- **With wider gaps nothing is put together**: what stands at the front of the lexemes and has
no blanks stood there before, if no gap between them was closed. -/
theorem prefix_spread (hblank : ∀ i ≤ ls.length, Blanks (gap' i))
    (hapart : ∀ i < ls.length, gap i ≠ [] → gap' i ≠ []) (hx : ∀ c ∈ x, isAsciiBlank c = false)
    (h : x <+: spread gap' ls) : x <+: spread gap ls := by
  induction ls generalizing gap gap' x with
  | nil =>
      obtain ⟨tail, htail⟩ := h
      have hnil : x = [] := by
        refine List.eq_nil_iff_forall_not_mem.mpr fun c hc => ?_
        have hmem : c ∈ gap' 0 := by
          rw [show gap' 0 = x ++ tail from htail.symm]
          exact List.mem_append_left _ hc
        have hblank := hblank 0 le_rfl c hmem
        rw [hx c hc] at hblank
        cases hblank
      rw [hnil]
      exact List.nil_prefix
  | cons l ls ih =>
      rw [spread] at h ⊢
      -- behind an open gap only the empty text starts; a closed one was closed before
      by_cases hgap : gap' 0 = []
      · have hgap' : gap 0 = [] := by
          by_contra hne
          exact hapart 0 (Nat.zero_lt_succ _) hne hgap
        rw [hgap, List.nil_append] at h
        rw [hgap', List.nil_append]
        rcases prefix_append_cases h with hl | ⟨y, rfl, hy⟩
        · exact hl.trans (List.prefix_append l _)
        · rw [List.prefix_append_right_inj]
          exact ih (fun i hi => hblank (i + 1) (Nat.succ_le_succ hi))
            (fun i hi => hapart (i + 1) (Nat.succ_lt_succ hi))
            (fun c hc => hx c (List.mem_append_right l hc)) hy
      · rw [eq_nil_of_front (hblank 0 (Nat.zero_le _)) hgap hx h]
        exact List.nil_prefix

/-- A lexeme that is the longest in front of some lexemes is so with wider gaps between them. -/
theorem Longest.of_spread (h : Longest kind l (l ++ spread gap ls))
    (hblank : ∀ i ≤ ls.length, Blanks (gap' i))
    (hapart : ∀ i < ls.length, gap i ≠ [] → gap' i ≠ []) :
    Longest kind l (l ++ spread gap' ls) := by
  refine ⟨h.lexeme, List.prefix_append l _, fun k l' hl' hfront => h.longest k l' hl' ?_⟩
  rcases prefix_append_cases hfront with hshort | ⟨x, rfl, hx⟩
  · exact hshort.trans (List.prefix_append l _)
  · rw [List.prefix_append_right_inj]
    exact prefix_spread hblank hapart (fun c hc => hl'.not_blank c (List.mem_append_right l hc)) hx

/-! ### Scanning spread texts -/

/-- Every token is a lexeme of its kind. -/
theorem isLexeme_of_scanFrom {text : List Char} (h : scanFrom p text = .ok tokens) :
    ∀ t ∈ tokens, IsLexeme t.kind t.text.toList := by
  refine scan_induction (motive := fun _ _ tokens => ∀ t ∈ tokens, IsLexeme t.kind t.text.toList)
    ?nil ?blank ?lexeme h
  case nil => simp
  case blank => exact fun _ ih => ih
  case lexeme =>
    intro position c rest kind more tokens hlexeme ih
    obtain ⟨front, behind, rfl, rfl, hlongest⟩ := longest_of_lexeme hlexeme
    refine List.forall_mem_cons.mpr ⟨?_, ih⟩
    rw [List.take_left, String.toList_ofList]
    exact hlongest.lexeme

/-- A text that is cut into tokens is their lexemes with gaps around them. -/
theorem exists_spread_of_scanFrom {text : List Char} (h : scanFrom p text = .ok tokens) :
    ∃ gap : Nat → List Char, (∀ i, Blanks (gap i)) ∧ text = spread gap (tokens.map (·.text.toList)) := by
  refine scan_induction (motive := fun _ text tokens => ∃ gap : Nat → List Char,
    (∀ i, Blanks (gap i)) ∧ text = spread gap (tokens.map (·.text.toList))) ?nil ?blank ?lexeme h
  case nil => exact fun _ => ⟨fun _ => [], fun _ => blanks_nil, rfl⟩
  case blank =>
    rintro position c rest tokens hc ⟨gap, hgap, rfl⟩
    refine ⟨fun i => if i = 0 then c :: gap 0 else gap i, fun i => ?_, ?_⟩
    · dsimp only
      split
      · exact List.forall_mem_cons.mpr ⟨hc, hgap 0⟩
      · exact hgap i
    · cases tokens <;> rfl
  case lexeme =>
    rintro position c rest kind more tokens - ⟨gap, hgap, hrest⟩
    refine ⟨fun | 0 => [] | i + 1 => gap i, fun | 0 => blanks_nil | i + 1 => hgap i, ?_⟩
    rw [List.map_cons, spread, ← hrest, String.toList_ofList, List.cons_append, List.take_append_drop]
    rfl

/-- Where a token is scanned off the front of a text, it is the longest lexeme there, and the
others come behind it. -/
theorem longest_of_scanFrom (h : scanFrom p (t.text.toList ++ rest) = .ok (t :: tokens)) :
    Longest t.kind t.text.toList (t.text.toList ++ rest) ∧
      scanFrom (p + t.text.toList.length) rest = .ok tokens := by
  obtain ⟨c, more, hl, hc⟩ := (isLexeme_of_scanFrom h t List.mem_cons_self).starts
  rw [hl, List.cons_append, scanFrom, if_neg (by simp [hc])] at h
  split at h
  · cases h
  · rename_i kind k hlexeme
    split at h
    · cases h
    · rename_i others hothers
      obtain ⟨front, behind, hrest, rfl, hlongest⟩ := longest_of_lexeme hlexeme
      cases h
      rw [hrest, List.take_left, String.toList_ofList] at hl
      obtain rfl : front = more := (List.cons.inj hl).2
      obtain rfl : rest = behind := List.append_cancel_left hrest
      rw [List.drop_left] at hothers
      rw [List.take_left, String.toList_ofList]
      refine ⟨hlongest, ?_⟩
      rw [List.length_cons, ← hothers]
      congr 1
      omega

/-- The second token is the first one, but maybe at another place. -/
structure Twin (t u : Token) : Prop where
  kind : u.kind = t.kind
  text : u.text = t.text

/-- **Wider gaps leave the tokens as they are**, each at another place. -/
theorem scanFrom_spread (h : scanFrom p (spread gap (tokens.map (·.text.toList))) = .ok tokens)
    (hblank : ∀ i ≤ tokens.length, Blanks (gap i)) (hblank' : ∀ i ≤ tokens.length, Blanks (gap' i))
    (hapart : ∀ i, 1 ≤ i → i < tokens.length → gap i ≠ [] → gap' i ≠ []) (q : Nat) :
    ∃ twins, scanFrom q (spread gap' (tokens.map (·.text.toList))) = .ok twins ∧
      List.Forall₂ Twin tokens twins := by
  induction tokens generalizing p q gap gap' with
  | nil =>
      refine ⟨[], ?_, .nil⟩
      have hskip := scanFrom_blanks (hblank' 0 le_rfl) q []
      rwa [List.append_nil, scanFrom] at hskip
  | cons t tokens ih =>
      rw [List.map_cons, spread] at h ⊢
      rw [scanFrom_blanks (hblank 0 (Nat.zero_le _))] at h
      obtain ⟨hlongest, hbehind⟩ := longest_of_scanFrom h
      have hgaps : ∀ i ≤ tokens.length, Blanks (gap' (i + 1)) :=
        fun i hi => hblank' (i + 1) (Nat.succ_le_succ hi)
      have hopen : ∀ i < tokens.length, gap (i + 1) ≠ [] → gap' (i + 1) ≠ [] :=
        fun i hi => hapart (i + 1) (Nat.le_add_left 1 i) (Nat.succ_lt_succ hi)
      -- the lexeme is still the longest one, so the scanner takes it, and the gaps behind it are the
      -- first ones of the rest
      have hcount : (tokens.map (·.text.toList)).length = tokens.length := List.length_map _
      have hlongest' : Longest t.kind t.text.toList
          (t.text.toList ++ spread (fun i => gap' (i + 1)) (tokens.map (·.text.toList))) :=
        hlongest.of_spread (by rwa [hcount]) (by rwa [hcount])
      obtain ⟨twins, htwins, hall⟩ := ih hbehind (fun i hi => hblank (i + 1) (Nat.succ_le_succ hi)) hgaps
        (fun i _ hi => hopen i hi) (q + (gap' 0).length + t.text.toList.length)
      rw [scanFrom_blanks (hblank' 0 (Nat.zero_le _))]
      obtain ⟨c, more, hl, hc⟩ := hlongest.lexeme.starts
      rw [hl, List.cons_append] at hlongest' ⊢
      rw [scanFrom_lexeme hc (lexeme_of_longest hlongest'), ← hl, htwins, String.ofList_toList]
      exact ⟨_, rfl, .cons ⟨rfl, rfl⟩ hall⟩

end Token

namespace TokenList

open Token (Blanks Twin spread)

variable {text text' : String} {list list' : TokenList} {gap gap' : Nat → List Char}
  {registry : Registry} {limits : Limits} {f : Nat → Nat}

theorem ofText_eq_ok_iff : ofText text = .ok list ↔
    Token.scanFrom 0 text.toList = .ok list.tokens ∧ list.stop = text.length := by
  obtain ⟨tokens, stop⟩ := list
  unfold ofText
  cases Token.scanFrom 0 text.toList with
  | error e => simp
  | ok found => simp [eq_comm]

/-- Every text that is cut into tokens is their lexemes with gaps around them. -/
theorem exists_spread (h : ofText text = .ok list) : ∃ gap : Nat → List Char,
    (∀ i, Blanks (gap i)) ∧ text.toList = spread gap (list.tokens.map (·.text.toList)) :=
  Token.exists_spread_of_scanFrom (ofText_eq_ok_iff.mp h).1

/-! ### Twins are moved tokens -/

/-- What has no repetitions can be mapped to anything of its length. -/
theorem exists_map_eq {places places' : List Nat} (hnodup : places.Nodup)
    (hlength : places'.length = places.length) : ∃ f : Nat → Nat, places' = places.map f := by
  induction places generalizing places' with
  | nil => exact ⟨id, List.eq_nil_of_length_eq_zero hlength⟩
  | cons p places ih =>
      obtain ⟨p', places', rfl⟩ := List.exists_cons_of_length_eq_add_one hlength
      obtain ⟨hp, hnodup⟩ := List.nodup_cons.mp hnodup
      obtain ⟨f, rfl⟩ := ih hnodup (Nat.succ.inj hlength)
      refine ⟨Function.update f p p', ?_⟩
      rw [List.map_cons, Function.update_self]
      congr 1
      exact List.map_congr_left fun a ha => (Function.update_of_ne (ne_of_mem_of_not_mem ha hp) ..).symm

theorem map_move_of_twins {ts us : List Token} (h : List.Forall₂ Twin ts us)
    (hplaces : us.map (·.position) = (ts.map (·.position)).map f) : us = ts.map (Token.move f) := by
  induction h with
  | nil => rfl
  | @cons t u ts us htwin _ ih =>
      obtain ⟨hplace, hbehind⟩ := List.cons.inj hplaces
      obtain ⟨kind, text, position⟩ := u
      obtain ⟨rfl, rfl⟩ := htwin
      obtain rfl : position = f t.position := hplace
      rw [ih hbehind]
      rfl

/-- Twins of the tokens of a text are these tokens, moved. -/
theorem exists_move (hlist : ofText text = .ok list) (h : List.Forall₂ Twin list.tokens list'.tokens) :
    ∃ f, list' = list.move f := by
  have hlength : list'.places.length = list.places.length := by simp [places, h.length_eq]
  obtain ⟨f, hplaces⟩ := exists_map_eq (nodup_places hlist) hlength
  rw [places, places, List.map_append] at hplaces
  obtain ⟨htokens, hstop⟩ := List.append_inj hplaces (by simp [h.length_eq])
  obtain ⟨tokens, stop⟩ := list'
  refine ⟨f, ?_⟩
  rw [move, ← map_move_of_twins h htokens, ← List.singleton_inj.mp hstop]

/-- **With other gaps the tokens are moved.** -/
theorem exists_move_of_spread (hlist : ofText text = .ok list)
    (htext : text.toList = spread gap (list.tokens.map (·.text.toList)))
    (htext' : text'.toList = spread gap' (list.tokens.map (·.text.toList)))
    (hblank : ∀ i ≤ list.tokens.length, Blanks (gap i))
    (hblank' : ∀ i ≤ list.tokens.length, Blanks (gap' i))
    (hapart : ∀ i, 1 ≤ i → i < list.tokens.length → gap i ≠ [] → gap' i ≠ []) :
    ∃ f, ofText text' = .ok (list.move f) ∧ List.Forall₂ Twin list.tokens (list.move f).tokens := by
  have hscan := (ofText_eq_ok_iff.mp hlist).1
  rw [htext] at hscan
  obtain ⟨twins, htwins, hall⟩ := Token.scanFrom_spread hscan hblank hblank' hapart 0
  rw [← htext'] at htwins
  obtain ⟨f, hmove⟩ : ∃ f, ⟨twins, text'.length⟩ = list.move f := exists_move hlist hall
  refine ⟨f, ?_⟩
  rw [← hmove]
  exact ⟨ofText_eq_ok_iff.mpr ⟨htwins, rfl⟩, hall⟩

/-! ### Parsing spread texts -/

/-- What parsing two texts with the same lexemes came to: trees that differ in places only, or
the same error about the same token, or the same fault. -/
inductive Alike (list list' : TokenList) : Except Failure Expr → Except Failure Expr → Prop
  | tree {e e' : Expr} (same : e'.withoutPositions = e.withoutPositions) : Alike list list' (.ok e) (.ok e')
  | refusal {e e' : ParseError} {i : Nat} (kind : e'.kind = e.kind) (name : e'.name? = e.name?)
      (place : list.places[i]? = some e.position) (place' : list'.places[i]? = some e'.position) :
      Alike list list' (.error (.formula (.parse e))) (.error (.formula (.parse e')))
  | fault (cause : Fault) : Alike list list' (.error (.fault cause)) (.error (.fault cause))

theorem alike_move (f : Nat → Nat) (list : TokenList) (registry : Registry) (limits : Limits) :
    Alike list (list.move f) (list.parse registry limits) ((list.move f).parse registry limits) := by
  have hmoved := list.moved_parse f registry limits
  generalize hx : list.parse registry limits = x at hmoved ⊢
  generalize (list.move f).parse registry limits = y at hmoved ⊢
  cases hmoved with
  | tree e => exact .tree (e.withoutPositions_move f)
  | refusal e =>
      obtain ⟨i, hi⟩ := List.mem_iff_getElem?.mp (position_mem_places hx)
      refine .refusal (e.kind_move f) (e.name_move f) hi ?_
      rw [places_move, List.getElem?_map, hi, e.position_move]
      rfl
  | fault cause => exact .fault cause

end TokenList

namespace Expr

open Token (Blanks Twin spread)

/-- **The gaps between its lexemes do not matter to a formula**, as long as none is closed: the
tokens are the same, and parsing them comes to the same. -/
theorem parse_spread {text text' : String} {list : TokenList} {gap gap' : Nat → List Char}
    (hlist : TokenList.ofText text = .ok list)
    (htext : text.toList = spread gap (list.tokens.map (·.text.toList)))
    (htext' : text'.toList = spread gap' (list.tokens.map (·.text.toList)))
    (hblank : ∀ i ≤ list.tokens.length, Blanks (gap i))
    (hblank' : ∀ i ≤ list.tokens.length, Blanks (gap' i))
    (hapart : ∀ i, 1 ≤ i → i < list.tokens.length → gap i ≠ [] → gap' i ≠ []) :
    ∃ list', TokenList.ofText text' = .ok list' ∧ List.Forall₂ Twin list.tokens list'.tokens ∧
      ∀ registry limits,
        TokenList.Alike list list' (parse registry limits text) (parse registry limits text') := by
  obtain ⟨f, hlist', htwins⟩ :=
    TokenList.exists_move_of_spread hlist htext htext' hblank hblank' hapart
  refine ⟨list.move f, hlist', htwins, fun registry limits => ?_⟩
  unfold parse
  rw [hlist, hlist']
  exact list.alike_move f registry limits

/-- The theorem for a number in front of a name that could have been its exponent, and with gaps
everywhere. -/
theorem parse_spread_exponent :
    ∃ list list', TokenList.ofText "1e+ x" = .ok list ∧ TokenList.ofText " 1 e\t+\nx " = .ok list' ∧
      list.tokens.map (·.text) = ["1", "e", "+", "x"] ∧ List.Forall₂ Twin list.tokens list'.tokens ∧
      ∀ registry limits, TokenList.Alike list list' (parse registry limits "1e+ x")
        (parse registry limits " 1 e\t+\nx ") := by
  let one : Token := ⟨.number (Numeral.toFloat false ⟨['1'], [], false, []⟩), "1", 0⟩
  let others : List Token := [⟨.name, "e", 1⟩, ⟨.plus, "+", 2⟩, ⟨.name, "x", 4⟩]
  have hone : Token.lexeme? '1' ([] ++ "e+ x".toList) = some (one.kind, 0) := rfl
  have hothers : Token.scanFrom 1 "e+ x".toList = .ok others := by cbv
  have hscan : Token.scanFrom 0 "1e+ x".toList = .ok (one :: others) := by
    have hstep : Token.scanFrom 0 "1e+ x".toList = (Token.scanFrom 1 "e+ x".toList).map (one :: ·) :=
      Token.scanFrom_lexeme rfl hone
    rw [hstep, hothers]
    rfl
  have hlist : TokenList.ofText "1e+ x" = .ok ⟨one :: others, 5⟩ :=
    TokenList.ofText_eq_ok_iff.mpr ⟨hscan, rfl⟩
  let gap : Nat → List Char := fun i => if i = 3 then [' '] else []
  let gap' : Nat → List Char := fun i => if i = 2 then ['\t'] else if i = 3 then ['\n'] else [' ']
  have htext : "1e+ x".toList = spread gap ((one :: others).map (·.text.toList)) := by decide
  have htext' : " 1 e\t+\nx ".toList = spread gap' ((one :: others).map (·.text.toList)) := by decide
  have hblank : ∀ i ≤ 4, Blanks (gap i) := by decide
  have hblank' : ∀ i ≤ 4, Blanks (gap' i) := by decide
  have hapart : ∀ i, 1 ≤ i → i < 4 → gap i ≠ [] → gap' i ≠ [] := by
    intro i _ hi
    interval_cases i <;> decide
  obtain ⟨list', hlist', htwins, halike⟩ := parse_spread hlist htext htext' hblank hblank' hapart
  exact ⟨_, list', hlist, hlist', rfl, htwins, halike⟩

end Expr

end Scorecard
