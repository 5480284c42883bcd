import Vllm.Lib.Borders

/-!
The n-gram proposer (`_find_longest_matched_ngram_and_propose_tokens`,
`vllm/v1/spec_decode/ngram_proposer.py`).

On the reversed tokens the suffix that is looked for is a prefix, and its occurrences are borders.
The loop keeps the longest border that may still grow, and its table has the longest borders of
the first `max_ngram` prefixes; a border of `max_ngram` tokens counts as one of its own borders
when the search goes on.
-/

namespace Vllm.SpecDecode

open Function Vllm.Lib

section

variable {Token : Type} [DecidableEq Token]

/-- The variables of the loop. -/
structure Scan where
  lps : Nat → Nat := fun _ => 0
  longestNgram : Nat := 0
  position : Nat := 0
  prevLps : Nat := 0
  i : Nat := 1

/-- The body of `while i < total_token`. -/
def scanToken (tokens : List Token) (maxNgram : Nat) (s : Scan) : Scan :=
  if tokens[s.prevLps]? = tokens[s.i]? then
    let prevLps := s.prevLps + 1
    let longer := s.longestNgram ≤ prevLps
    let lps := if s.i < maxNgram then update s.lps s.i prevLps else s.lps
    { lps
      longestNgram := if longer then prevLps else s.longestNgram
      position := if longer then s.i else s.position
      prevLps := if prevLps = maxNgram then lps (maxNgram - 1) else prevLps
      i := s.i + 1 }
  else if s.prevLps ≠ 0 then { s with prevLps := s.lps (s.prevLps - 1) }
  else { s with i := s.i + 1 }

/-- The loop; fuel counts its rounds. -/
def scan (tokens : List Token) (maxNgram : Nat) : (fuel : Nat) → Scan → Option Scan
  | fuel, s =>
    if s.i < tokens.length then
      match fuel with
      | 0 => none
      | fuel + 1 => scan tokens maxNgram fuel (scanToken tokens maxNgram s)
    else some s

/-- `_find_longest_matched_ngram_and_propose_tokens`. -/
def proposeTokens (originTokens : List Token) (minNgram maxNgram maxModelLen k : Nat) :
    Option (List Token) :=
  let totalToken := originTokens.length
  if totalToken < minNgram then some []
  else
    let k := min k (maxModelLen - totalToken)
    if k = 0 then some []
    else (scan originTokens.reverse maxNgram (2 * totalToken) {}).map fun s =>
      if s.longestNgram < minNgram then []
      else
        let startPosition := totalToken - 1 - s.position + s.longestNgram
        (originTokens.drop startPosition).take (min k (totalToken - startPosition))

end

/-! ### The loop -/

/-- With at most `c` tokens: the border that may still grow is the longest one that does, the
table is right for the prefixes that were read, and the longest border so far is kept with the
last position that it ends at. -/
structure Scanned {α : Type} (f : Nat → α) (c : Nat) (s : Scan) : Prop where
  border : Border f s.i s.prevLps
  lt : s.prevLps < c
  longest : ∀ w < c, Border f (s.i + 1) (w + 1) → w ≤ s.prevLps
  table : ∀ j < s.i, j < c → IsGreatest {v | Border f (j + 1) v} (s.lps j)
  unset : ∀ j, s.i ≤ j → s.lps j = 0
  found : s.longestNgram ≤ c ∧ Border f (s.position + 1) s.longestNgram ∧ s.position < s.i
  best : ∀ j < s.i, ∀ v ≤ c, Border f (j + 1) v →
    v ≤ s.longestNgram ∧ (v = s.longestNgram → 0 < v → j ≤ s.position)

section Loop

variable {α : Type} {f : Nat → α} {c : Nat} {s t : Scan} {v : Nat}

theorem scanned_start (pos : 0 < c) : Scanned f c {} where
  border := .zero Nat.one_pos
  lt := pos
  longest := fun w _ border => Nat.le_of_lt_succ (Nat.lt_of_succ_lt_succ border.1)
  table := by
    intro j lt _
    obtain rfl : j = 0 := Nat.lt_one_iff.mp lt
    exact ⟨.zero Nat.one_pos, fun v border => Nat.le_of_lt_succ border.1⟩
  unset := fun _ _ => rfl
  found := ⟨Nat.zero_le c, .zero Nat.one_pos, Nat.one_pos⟩
  best := by
    intro j lt v _ border
    obtain rfl : j = 0 := Nat.lt_one_iff.mp lt
    exact ⟨Nat.le_of_lt_succ border.1, fun _ _ => le_rfl⟩

/-- The next token is read, and `v` is the longest border with it. -/
theorem Scanned.advance (inv : Scanned f c s) (le : v ≤ c) (border : Border f (s.i + 1) v)
    (greatest : ∀ w ≤ c, Border f (s.i + 1) w → w ≤ v) (next : t.i = s.i + 1)
    (lps : t.lps = if s.i < c then update s.lps s.i v else s.lps)
    (prev : t.prevLps = if v = c then t.lps (c - 1) else v)
    (kept : if s.longestNgram ≤ v ∧ 0 < v then t.longestNgram = v ∧ t.position = s.i
      else t.longestNgram = s.longestNgram ∧ t.position = s.position) :
    Scanned f c t := by
  have lt := inv.lt
  have inside := border.1
  obtain ⟨foundLe, foundBorder, before⟩ := inv.found
  have table : ∀ j < s.i + 1, j < c →
      IsGreatest {w | Border f (j + 1) w} (t.lps j) := by
    intro j isLt ltC
    rw [lps]
    rcases Nat.lt_succ_iff_lt_or_eq.mp isLt with old | rfl
    · have same : (if s.i < c then update s.lps s.i v else s.lps) j = s.lps j := by
        split
        · exact update_of_ne old.ne ..
        · rfl
      rw [same]
      exact inv.table j old ltC
    · rw [if_pos ltC, update_self]
      exact ⟨border, fun w isBorder => greatest w (by have := isBorder.1; omega) isBorder⟩
  -- the longest border that may grow: `v`, or its own longest border
  have grows : Border f (s.i + 1) t.prevLps ∧ t.prevLps < c ∧
      ∀ w < c, Border f (s.i + 1) w → w ≤ t.prevLps := by
    rw [prev]
    split
    · rename_i full
      have own := table (c - 1) (by omega) (by omega)
      rw [Nat.sub_add_cancel (by omega), ← full] at own
      have shorter : Border f v (t.lps (v - 1)) := own.1
      rw [← full]
      refine ⟨(border.iff_of_lt shorter.1).mp shorter, shorter.1, fun w isLt isBorder => ?_⟩
      exact own.2 ((border.iff_of_lt isLt).mpr isBorder)
    · exact ⟨border, by omega, fun w isLt isBorder => greatest w isLt.le isBorder⟩
  constructor
  case border => exact next ▸ grows.1
  case lt => exact grows.2.1
  case longest =>
    intro w isLt isBorder
    exact grows.2.2 w isLt (next ▸ (Border.succ_iff.mp isBorder).1)
  case table => exact next ▸ table
  case unset =>
    intro j le
    rw [lps]
    split
    · rw [update_of_ne (by omega)]
      exact inv.unset j (by omega)
    · exact inv.unset j (by omega)
  case found =>
    split at kept
    · rw [kept.1, kept.2]
      exact ⟨le, border, by omega⟩
    · rw [kept.1, kept.2]
      exact ⟨foundLe, foundBorder, by omega⟩
  case best =>
    intro j isLt w leC isBorder
    rw [next] at isLt
    rcases Nat.lt_succ_iff_lt_or_eq.mp isLt with old | rfl
    · have := inv.best j old w leC isBorder
      split at kept <;> omega
    · have := greatest w leC isBorder
      split at kept <;> omega

variable {Token : Type} [DecidableEq Token] {tokens : List Token} (inv : Scanned (tokens[·]?) c s)
include inv

theorem Scanned.grow (same : tokens[s.prevLps]? = tokens[s.i]?) :
    Scanned (tokens[·]?) c (scanToken tokens c s) := by
  rw [scanToken, if_pos same]
  refine inv.advance inv.lt (Border.succ_iff.mpr ⟨inv.border, same⟩) ?_ rfl rfl rfl ?_
  · intro v le longer
    cases v with
    | zero => exact Nat.zero_le _
    | succ w => exact Nat.succ_le_succ (inv.longest w le longer)
  · dsimp only
    split <;> grind

theorem Scanned.fallBack (differ : tokens[s.prevLps]? ≠ tokens[s.i]?) (some : s.prevLps ≠ 0) :
    Scanned (tokens[·]?) c (scanToken tokens c s) ∧
      (scanToken tokens c s).prevLps < s.prevLps := by
  have lt := inv.lt
  have less := inv.border.1
  have shorter := inv.table (s.prevLps - 1) (by omega) (by omega)
  rw [Nat.sub_add_cancel (Nat.pos_of_ne_zero some)] at shorter
  have border : Border _ s.prevLps (s.lps (s.prevLps - 1)) := shorter.1
  rw [scanToken, if_neg differ, if_pos some]
  refine ⟨{ inv with border := ?_, lt := border.1.trans lt, longest := ?_ }, border.1⟩
  · exact (inv.border.iff_of_lt border.1).mp border
  · intro w le longer
    obtain ⟨old, same⟩ := Border.succ_iff.mp longer
    have ne : w ≠ s.prevLps := fun eq => differ (eq ▸ same)
    have isLt : w < s.prevLps := Nat.lt_of_le_of_ne (inv.longest w le longer) ne
    exact shorter.2 ((inv.border.iff_of_lt isLt).mpr old)

theorem Scanned.skip (differ : tokens[s.prevLps]? ≠ tokens[s.i]?) (none : s.prevLps = 0) :
    Scanned (tokens[·]?) c (scanToken tokens c s) := by
  have unset : update s.lps s.i 0 = s.lps := by
    rw [Function.update_eq_self_iff, inv.unset s.i le_rfl]
  rw [scanToken, if_neg differ, if_neg (not_not.mpr none)]
  refine inv.advance (Nat.zero_le c) (.zero (Nat.succ_pos _)) ?_ rfl ?_ ?_ ?_
  · intro v le longer
    cases v with
    | zero => exact le_rfl
    | succ w =>
      obtain rfl : w = 0 := Nat.le_zero.mp (none ▸ inv.longest w le longer)
      exact absurd (none ▸ (Border.succ_iff.mp longer).2) differ
  · rw [unset, ite_self]
  · rw [if_neg (Nat.zero_lt_of_lt inv.lt).ne]
    exact none
  · rw [if_neg (by omega)]
    exact ⟨rfl, rfl⟩

/-- What is left of the work: every round but a fall back reads a token, and a fall back makes the
border shorter. -/
theorem Scanned.scan {fuel : Nat} (le : s.i ≤ tokens.length)
    (enough : 2 * (tokens.length - s.i) + s.prevLps ≤ fuel) :
    ∃ t, SpecDecode.scan tokens c fuel s = some t ∧ Scanned (tokens[·]?) c t ∧
      t.i = tokens.length := by
  induction fuel generalizing s with
  | zero =>
    rw [SpecDecode.scan, if_neg (by omega)]
    exact ⟨s, rfl, inv, by omega⟩
  | succ fuel ih =>
    rw [SpecDecode.scan]
    split
    · rename_i more
      by_cases same : tokens[s.prevLps]? = tokens[s.i]?
      · have grown := inv.grow same
        have lt := grown.lt
        rw [scanToken, if_pos same] at lt grown ⊢
        refine ih grown more ?_
        dsimp only at lt ⊢
        by_cases full : s.prevLps + 1 = c
        · rw [if_pos full] at lt ⊢
          omega
        · rw [if_neg full]
          omega
      · by_cases none : s.prevLps = 0
        · have skipped := inv.skip same none
          rw [scanToken, if_neg same, if_neg (not_not.mpr none)] at skipped ⊢
          refine ih skipped more ?_
          dsimp only
          omega
        · obtain ⟨shorter, less⟩ := inv.fallBack same none
          rw [scanToken, if_neg same, if_pos none] at shorter less ⊢
          refine ih shorter le ?_
          dsimp only at less ⊢
          omega
    · exact ⟨s, rfl, inv, by omega⟩

end Loop

/-! ### What is proposed -/

section Proposal

variable {Token : Type} {tokens : List Token} {m p j : Nat}

/-- The last `m` tokens are also at `p`, and end before the last position there. -/
def OccursAt (tokens : List Token) (m p : Nat) : Prop :=
  p + m < tokens.length ∧ ∀ i < m, tokens[p + i]? = tokens[tokens.length - m + i]?

/-- The lengths of the n-grams that occur. -/
def Matched (tokens : List Token) (minNgram maxNgram : Nat) : Set Nat :=
  {m | minNgram ≤ m ∧ m ≤ maxNgram ∧ ∃ p, OccursAt tokens m p}

theorem occursAt_iff (lt : j < tokens.length) :
    OccursAt tokens m (tokens.length - 1 - j) ↔ Border (tokens.reverse[·]?) (j + 1) m := by
  have inside : tokens.length - 1 - j + m < tokens.length ↔ m < j + 1 := by omega
  rw [OccursAt, Border, inside]
  refine and_congr_right fun less => ?_
  have flip : ∀ i < m, tokens[tokens.length - 1 - j + i]? = tokens[tokens.length - m + i]? ↔
      tokens.reverse[m - 1 - i]? = tokens.reverse[j + 1 - m + (m - 1 - i)]? := by
    intro i isLt
    rw [List.getElem?_reverse (by omega), List.getElem?_reverse (by omega), eq_comm]
    have first : tokens.length - 1 - (m - 1 - i) = tokens.length - m + i := by omega
    have second : tokens.length - 1 - (j + 1 - m + (m - 1 - i)) = tokens.length - 1 - j + i := by
      omega
    rw [first, second]
  constructor
  · intro same a isLt
    have := (flip (m - 1 - a) (by omega)).mp (same _ (by omega))
    rwa [Nat.sub_sub_self (Nat.le_sub_one_of_lt isLt)] at this
  · exact fun same i isLt => (flip i isLt).mpr (same _ (by omega))

variable [DecidableEq Token]

theorem proposeTokens_spec (tokens : List Token) {minNgram maxNgram : Nat} (maxModelLen k : Nat)
    (pos : 1 ≤ minNgram) (le : minNgram ≤ maxNgram) :
    ∃ proposed, proposeTokens tokens minNgram maxNgram maxModelLen k = some proposed ∧
      (Matched tokens minNgram maxNgram = ∅ ∨ maxModelLen ≤ tokens.length → proposed = []) ∧
      ∀ m p, IsGreatest (Matched tokens minNgram maxNgram) m → IsLeast {p | OccursAt tokens m p} p →
        proposed = (tokens.drop (p + m)).take
          (min (min k (maxModelLen - tokens.length)) (tokens.length - (p + m))) := by
  unfold proposeTokens
  dsimp only
  split
  · rename_i short
    refine ⟨[], rfl, fun _ => rfl, fun m p greatest _ => ?_⟩
    obtain ⟨⟨large, -, q, occurs⟩, -⟩ := greatest
    have := occurs.1
    omega
  split
  · rename_i none
    refine ⟨[], rfl, fun _ => rfl, fun m p _ _ => ?_⟩
    rw [none, Nat.zero_min, List.take_zero]
  rename_i long some
  have length : tokens.reverse.length = tokens.length := List.length_reverse
  have start : Scanned (tokens.reverse[·]?) maxNgram {} := scanned_start (pos.trans le)
  obtain ⟨s, runs, inv, stop⟩ :=
    start.scan (show 1 ≤ _ by omega) (show 2 * (_ - 1) + 0 ≤ 2 * tokens.length by omega)
  rw [runs, Option.map_some]
  obtain ⟨small, border, before⟩ := inv.found
  have found : OccursAt tokens s.longestNgram (tokens.length - 1 - s.position) :=
    (occursAt_iff (by omega)).mpr border
  have best : ∀ m ≤ maxNgram, ∀ p, OccursAt tokens m p →
      m ≤ s.longestNgram ∧ (m = s.longestNgram → 0 < m → tokens.length - 1 - p ≤ s.position) := by
    intro m leMax p occurs
    have lt := occurs.1
    have mirrored : tokens.length - 1 - (tokens.length - 1 - p) = p := by omega
    refine inv.best _ (by omega) m leMax ((occursAt_iff (by omega)).mp ?_)
    rwa [mirrored]
  refine ⟨_, rfl, ?_, ?_⟩
  · intro none
    split
    · rfl
    · rcases none with none | full
      · exact absurd ⟨by omega, small, _, found⟩ (none ▸ Set.notMem_empty s.longestNgram)
      · omega
  · rintro m p ⟨⟨large, leMax, q, occurs⟩, greatest⟩ ⟨atP, least⟩
    have leLongest := (best m leMax q occurs).1
    rw [if_neg (by omega)]
    obtain rfl : m = s.longestNgram :=
      le_antisymm leLongest (greatest ⟨by omega, small, _, found⟩)
    have early := (best _ leMax p atP).2 rfl (by omega)
    have first : p ≤ tokens.length - 1 - s.position := least found
    have lt := atP.1
    obtain rfl : p = tokens.length - 1 - s.position := by omega
    rfl

/-- The last two tokens occur twice before; the earlier occurrence is taken. -/
theorem proposeTokens_earliest :
    proposeTokens [1, 2, 3, 1, 2, 4, 1, 2] 2 3 10 5 = some [3, 1] ∧
      ∃ proposed, proposeTokens [1, 2, 3, 1, 2, 4, 1, 2] 2 3 10 5 = some proposed := by
  obtain ⟨proposed, runs, -⟩ := proposeTokens_spec [1, 2, 3, 1, 2, 4, 1, 2] 10 5
    (by decide : 1 ≤ 2) (by decide : 2 ≤ 3)
  exact ⟨by decide, proposed, runs⟩

end Proposal

end Vllm.SpecDecode
