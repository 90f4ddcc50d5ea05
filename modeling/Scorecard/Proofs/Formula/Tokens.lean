/-
What the tokens of a text are like.

They stand one behind the other, each where its lexeme starts and all before the end of
the text.  A place therefore belongs to one token only, and the end to none.

A name is spelt as one and a number comes from a numeral.  Tokens in general need not be
like that; those of a text are, and so a tree that was parsed can be written again.
-/
import Scorecard.Formula.Parser

namespace Scorecard

namespace Token

/-- What is so of no tokens, and kept in front of a blank and of a lexeme, is so of whatever
a text is cut into. -/
theorem scan_induction {motive : Nat → List Char → List Token → Prop}
    (nil : ∀ position, motive position [] [])
    (blank : ∀ {position c rest tokens}, isAsciiBlank c = true → motive (position + 1) rest tokens →
      motive position (c :: rest) tokens)
    (lexeme : ∀ {position c rest kind more tokens}, lexeme? c rest = some (kind, more) →
      motive (position + 1 + more) (rest.drop more) tokens →
      motive position (c :: rest) (⟨kind, String.ofList (c :: rest.take more), position⟩ :: tokens))
    {position : Nat} {text : List Char} {tokens : List Token}
    (h : scanFrom position text = .ok tokens) : motive position text tokens := by
  fun_induction scanFrom position text generalizing tokens with
  | case1 position =>
      cases h
      exact nil position
  | case2 position c rest hc ih => exact blank hc (ih h)
  | case3 => cases h
  | case4 => cases h
  | case5 position c rest _ kind more hlexeme others hothers ih =>
      cases h
      exact lexeme hlexeme (ih hothers)

variable {text : List Char} {position : Nat} {tokens : List Token}

/-! ### Places -/

/-- The tokens of a text stand inside of it, in its order. -/
theorem places_of_scanFrom (h : scanFrom position text = .ok tokens) :
    (∀ t ∈ tokens, position ≤ t.position ∧ t.position < position + text.length) ∧
      tokens.Pairwise (·.position < ·.position) := by
  refine scan_induction (motive := fun position text tokens =>
    (∀ t ∈ tokens, position ≤ t.position ∧ t.position < position + text.length) ∧
      tokens.Pairwise (·.position < ·.position)) ?nil ?blank ?lexeme h
  case nil =>
    intro position
    simp
  case blank =>
    intro position c rest tokens _ ih
    refine ⟨fun t ht => ?_, ih.2⟩
    have hwithin := ih.1 t ht
    simp only [List.length_cons]
    omega
  case lexeme =>
    intro position c rest kind more tokens _ ih
    have hbehind : ∀ t ∈ tokens, position < t.position ∧ t.position < position + (rest.length + 1) := by
      intro t ht
      have hwithin := ih.1 t ht
      simp only [List.length_drop] at hwithin
      omega
    refine ⟨List.forall_mem_cons.mpr ⟨by simp, fun t ht => ?_⟩, List.pairwise_cons.mpr ⟨?_, ih.2⟩⟩
    · have hwithin := hbehind t ht
      simp only [List.length_cons]
      omega
    · exact fun t ht => (hbehind t ht).1

/-! ### Names and numbers -/

/-- The token is one that the scanner makes. -/
structure Scanned (t : Token) : Prop where
  name : t.kind = .name → ∃ c more, t.text.toList = c :: more ∧ startsName c = true ∧
    ∀ d ∈ more, continuesName d = true
  number : ∀ x, t.kind = .number x → ∃ n : Numeral, x = n.toFloat false

theorem scanned_of_lexeme {c : Char} {rest : List Char} {kind : Kind} {more : Nat}
    (h : lexeme? c rest = some (kind, more)) (position : Nat) :
    Scanned ⟨kind, String.ofList (c :: rest.take more), position⟩ := by
  unfold lexeme? at h
  split at h
  · rename_i numeral behind _
    cases h
    exact ⟨nofun, fun x hx => ⟨numeral, by cases hx; rfl⟩⟩
  · split at h
    · rename_i hc
      cases h
      refine ⟨fun _ => ⟨c, rest.takeWhile continuesName, ?_, hc, ?_⟩, nofun⟩
      · rw [← List.prefix_iff_eq_take.mp (List.takeWhile_prefix continuesName)]
        exact String.toList_ofList
      · exact fun d hd => List.all_eq_true.mp List.all_takeWhile d hd
    · obtain ⟨sign, hsign, heq⟩ := Option.map_eq_some_iff.mp h
      cases heq
      unfold signKind? at hsign
      split at hsign <;> cases hsign <;> exact ⟨nofun, nofun⟩

theorem scanned_of_scanFrom (h : scanFrom position text = .ok tokens) : ∀ t ∈ tokens, t.Scanned := by
  refine scan_induction (motive := fun _ _ tokens => ∀ t ∈ tokens, t.Scanned) ?nil ?blank ?lexeme h
  case nil => simp
  case blank => exact fun _ ih => ih
  case lexeme =>
    exact fun hlexeme ih => List.forall_mem_cons.mpr ⟨scanned_of_lexeme hlexeme _, ih⟩

end Token

namespace TokenList

/-- The places of the tokens, and behind them the end. -/
def places (list : TokenList) : List Nat :=
  list.tokens.map (·.position) ++ [list.stop]

theorem positionAt?_natCast (list : TokenList) (i : Nat) : list.positionAt? i = list.places[i]? := by
  unfold positionAt? places
  simp only
  rw [if_neg (by omega), if_neg (by omega), Int.toNat_natCast]

theorem positionAt?_of_getElem? {list : TokenList} {i : Nat} {t : Token}
    (h : list.tokens[i]? = some t) : list.positionAt? i = some t.position := by
  obtain ⟨hlt, rfl⟩ := List.getElem?_eq_some_iff.mp h
  rw [positionAt?_natCast, places, List.getElem?_append_left (by simpa using hlt)]
  simp [hlt]

/-- The places increase, and the end comes last. -/
theorem sorted_places {text : String} {list : TokenList} (h : ofText text = .ok list) :
    list.places.Pairwise (· < ·) := by
  unfold ofText at h
  split at h
  · cases h
  · rename_i tokens hscan
    cases h
    obtain ⟨hwithin, hpairwise⟩ := Token.places_of_scanFrom hscan
    refine List.pairwise_append.mpr ⟨List.pairwise_map.mpr hpairwise, by simp, ?_⟩
    intro a ha b hb
    obtain ⟨t, ht, rfl⟩ := List.mem_map.mp ha
    obtain rfl : b = text.length := by simpa using hb
    have hlt := (hwithin t ht).2
    rwa [String.length_toList, Nat.zero_add] at hlt

/-- No place stands for two tokens, nor for one and the end. -/
theorem nodup_places {text : String} {list : TokenList} (h : ofText text = .ok list) :
    list.places.Nodup :=
  (sorted_places h).imp Nat.ne_of_lt

/-- The token at a place is the only one there. -/
theorem positionAt?_inj {text : String} {list : TokenList} (h : ofText text = .ok list) {i j p : Nat}
    (hi : list.positionAt? i = some p) (hj : list.positionAt? j = some p) : i = j := by
  rw [positionAt?_natCast] at hi hj
  obtain ⟨hlt, -⟩ := List.getElem?_eq_some_iff.mp hi
  exact (List.getElem?_inj hlt (nodup_places h)).mp (hi.trans hj.symm)

theorem getElem?_inj {text : String} {list : TokenList} (h : ofText text = .ok list) {i j : Nat}
    {t u : Token} (hi : list.tokens[i]? = some t) (hj : list.tokens[j]? = some u)
    (hplace : t.position = u.position) : i = j ∧ t = u := by
  have hat := positionAt?_of_getElem? hj
  rw [← hplace] at hat
  obtain rfl := positionAt?_inj h (positionAt?_of_getElem? hi) hat
  exact ⟨rfl, Option.some.inj (hi.symm.trans hj)⟩

theorem scanned {text : String} {list : TokenList} (h : ofText text = .ok list) :
    ∀ t ∈ list.tokens, t.Scanned := by
  unfold ofText at h
  split at h
  · cases h
  · rename_i tokens hscan
    cases h
    exact Token.scanned_of_scanFrom hscan

end TokenList

end Scorecard
