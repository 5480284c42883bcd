import Mathlib.Data.List.Flatten
import Vllm.Engine.HoldBack

/-!
Stop strings and the grouping of tokens into updates (`vllm/v1/engine/detokenizer.py`).

A stream ends with the first call at whose end the text has a stop string behind the first
`min_tokens` tokens. Where the text is cut depends on the stop string alone. But of several the
first of the list is reported, and with other calls it may not be complete yet.
-/

namespace Vllm.Engine.Detokenizer

open List
open TextStream (spell)

/-- Where the string is first, if it has to end behind the first `base` characters. -/
def firstAt (base : Nat) (text stopStr : List Char) : Option Nat :=
  (range (text.length + 1)).find? fun i => base < i + stopStr.length ∧ stopStr <+: text.drop i

variable (params : DetokenizeParams)

/-- The first string of the list that is in the text. -/
def stopIn (base : Nat) (text : List Char) : Option (List Char) :=
  params.stop.find? fun stopStr => (firstAt base text stopStr).isSome

/-- The text up to the stop string, if there is one. -/
def textUpTo (base : Nat) (text : List Char) : Option (List Char) → List Char
  | none => text
  | some stopStr => text.take ((firstAt base text stopStr).getD 0 +
      if params.includeStopStrInOutput then stopStr.length else 0)

/-- The first string of the list that is in the text at the end of the first call with one. -/
def reported (base : Nat) (text : List Char) : List (List (List Char)) → Option (List Char)
  | [] => none
  | call :: calls =>
    (stopIn params base (text ++ call.flatten)).or (reported base (text ++ call.flatten) calls)

/-- The number of characters of the first `min_tokens` tokens. -/
def unchecked (texts : List (List Char)) : Nat := (texts.take params.minTokens).flatten.length

/-- A detokenizer that has decoded tokens with these texts. -/
def ofTexts (texts : List (List Char)) : Detokenizer (List Char) Unit :=
  { tokenIds := texts, outputText := texts.flatten, decoder := () }

/-- `update` is called until a stop string is reported. -/
def feed (d : Detokenizer (List Char) Unit) :
    List (List (List Char)) → Detokenizer (List Char) Unit × Option (List Char)
  | [] => (d, none)
  | call :: calls =>
    let r := d.update spell params call false
    if r.2.isSome then r else feed r.1 calls

/-- The text and the stop string that a stream ends with. -/
def ending (calls : List (List (List Char))) : List Char × Option (List Char) :=
  let r := feed params (ofTexts []) calls
  (r.1.outputText, r.2)

variable {params} {base i : Nat} {text stopStr : List Char} {before call : List (List Char)}

theorem firstAt_eq_some : firstAt base text stopStr = some i ↔
    (base < i + stopStr.length ∧ stopStr <+: text.drop i) ∧ i ≤ text.length ∧
      ∀ j < i, base < j + stopStr.length → ¬ stopStr <+: text.drop j := by
  simp [firstAt, find?_range_eq_some, or_iff_not_imp_left]

theorem firstAt_eq_none (le : text.length ≤ base) : firstAt base text stopStr = none := by
  refine Option.eq_none_iff_forall_ne_some.mpr fun i found => ?_
  obtain ⟨⟨behind, at_⟩, inside, -⟩ := firstAt_eq_some.mp found
  have := at_.length_le
  rw [length_drop] at this
  omega

/-- More text does not move the string. -/
theorem firstAt_append (found : firstAt base text stopStr = some i) (more : List Char) :
    firstAt base (text ++ more) stopStr = some i ∧ i + stopStr.length ≤ text.length := by
  obtain ⟨⟨behind, at_⟩, inside, least⟩ := firstAt_eq_some.mp found
  have length := at_.length_le
  rw [length_drop] at length
  have le : i + stopStr.length ≤ text.length := by omega
  refine ⟨firstAt_eq_some.mpr ⟨⟨behind, ?_⟩, ?_, fun j lt ends occurs => least j lt ends ?_⟩, le⟩
  · rw [drop_append_of_le_length inside]
    exact at_.trans (prefix_append _ _)
  · rw [length_append]
    omega
  · rw [drop_append_of_le_length (by omega)] at occurs
    refine prefix_of_prefix_length_le occurs (prefix_append _ _) ?_
    rw [length_drop]
    omega

/-- `str.find` starts far enough in front if the string does not end before the new text. -/
theorem find_eq_firstAt {offset : Nat} (new : offset < text.length) (le : base ≤ offset)
    (nonempty : stopStr ≠ []) (quiet : firstAt base (text.take offset) stopStr = none) :
    find text stopStr (1 - (text.length - offset : Nat) - stopStr.length) =
      firstAt base text stopStr := by
  have pos := length_pos_iff.mpr nonempty
  have start : searchStart text.length (1 - (text.length - offset : Nat) - stopStr.length) =
      offset + 1 - stopStr.length := by
    unfold searchStart
    split <;> omega
  have later : ∀ j, base < j + stopStr.length → stopStr <+: text.drop j →
      offset + 1 - stopStr.length ≤ j := by
    intro j behind at_
    by_contra early
    have inside : j ≤ (text.take offset).length := by
      rw [length_take]
      omega
    have absent := find?_eq_none.mp quiet j (mem_range.mpr (Nat.lt_succ_of_le inside))
    rw [decide_eq_true_eq, drop_take, prefix_take_iff] at absent
    exact absent ⟨behind, at_, by omega⟩
  refine Option.ext fun i => ?_
  rw [firstAt_eq_some, find, start, find?_range'_eq_some, mem_range'_1]
  simp only [ isPrefixOf_iff_prefix, Bool.not_eq_true']
  constructor
  · rintro ⟨at_, inside, least⟩
    refine ⟨⟨by omega, at_⟩, by omega, fun j lt behind occurs => ?_⟩
    have := least j (later j behind occurs) lt
    rw [ isPrefixOf_iff_prefix.mpr occurs] at this
    cases this
  · rintro ⟨⟨behind, at_⟩, inside, least⟩
    have := later i behind at_
    refine ⟨at_, by omega, fun j from_ lt => ?_⟩
    exact Bool.eq_false_iff.mpr fun occurs =>
      least j lt (by omega) ( isPrefixOf_iff_prefix.mp occurs)

theorem unchecked_le (texts later : List (List Char)) :
    unchecked params texts ≤ unchecked params (texts ++ later) := by
  rw [unchecked, unchecked, take_append, flatten_append, length_append]
  exact Nat.le_add_right _ _

theorem foldl_decodeToken (before call : List (List Char)) :
    call.foldl (decodeToken spell params) (ofTexts before, before.flatten.length) =
      (ofTexts (before ++ call), max before.flatten.length (unchecked params (before ++ call))) := by
  induction call using reverseRecOn with
  | nil =>
    have le : unchecked params before ≤ before.flatten.length :=
      (take_sublist _ _).flatten.length_le
    rw [append_nil, max_eq_left le]
    rfl
  | append_singleton call text ih =>
    rw [foldl_append, ih, ← append_assoc]
    simp only [foldl_cons, foldl_nil, decodeToken, spell, ofTexts]
    split
    · rename_i few
      rw [unchecked, take_of_length_le few.2]
      simp
    · rename_i many
      have le : params.minTokens ≤ (before ++ call).length := by
        rw [length_append, length_singleton] at many
        omega
      rw [unchecked, unchecked, take_append_of_le_length le]
      simp

theorem findSome?_map_eq {α β γ : Type} {f g : α → Option β} (h : α → β → γ) {xs : List α}
    (same : ∀ x ∈ xs, f x = g x) :
    (xs.findSome? fun x => (f x).map (h x)) =
      (xs.find? fun x => (g x).isSome).bind fun x => (g x).map (h x) := by
  induction xs with
  | nil => rfl
  | cons x xs ih =>
    obtain ⟨first, rest⟩ := forall_mem_cons.mp same
    rw [findSome?_cons, find?_cons, first]
    cases found : g x with
    | none => exact ih rest
    | some b => simp [found]

/-- If the text in front of `offset` has no stop string, the search behind it finds the first of
the list that the text has. -/
theorem checkStopStrings_eq {offset : Nat} (le : base ≤ offset)
    (quiet : stopIn params base (text.take offset) = none) :
    (checkStopStrings text (text.length - offset) params.stop params.includeStopStrInOutput).map
        (fun found => (found.1, found.2.elim text text.take)) =
      (stopIn params base text).map fun s => (s, textUpTo params base text (some s)) := by
  rcases lt_or_ge offset text.length with new | none
  · have same : ∀ s ∈ params.stop, find text s (1 - (text.length - offset : Nat) - s.length) =
        firstAt base text s := fun s mem =>
      find_eq_firstAt new le (params.stop_ne_nil s mem)
        (by simpa using find?_eq_none.mp quiet s mem)
    rw [checkStopStrings, if_neg (Nat.sub_ne_zero_of_lt new), findSome?_map_eq _ same, ← stopIn]
    cases found : stopIn params base text with
    | none => rfl
    | some s =>
      have isSome := find?_some found
      obtain ⟨i, isAt⟩ := Option.isSome_iff_exists.mp isSome
      simp only [Option.bind_some, isAt, Option.map_some, textUpTo, Option.getD_some]
      split
      · split
        · rw [take_of_length_le ‹_›]
          rfl
        · rfl
      · rfl
  · rw [take_of_length_le none] at quiet
    rw [quiet, checkStopStrings, if_pos (Nat.sub_eq_zero_of_le none)]
    rfl

theorem stopMatch_eq {texts later : List (List Char)} {offset : Nat}
    (isBase : base = unchecked params (texts ++ later)) (le : unchecked params texts ≤ offset)
    (quiet : stopIn params base (texts.flatten.take offset) = none) :
    ((ofTexts texts).stopMatch params offset).map
        (fun found => (found.1, found.2.elim texts.flatten texts.flatten.take)) =
      (stopIn params base texts.flatten).map
        fun s => (s, textUpTo params base texts.flatten (some s)) := by
  unfold stopMatch
  split
  · rename_i checked
    have many : params.minTokens < texts.length := checked.2
    rw [unchecked, take_append_of_le_length many.le] at isBase
    exact checkStopStrings_eq (isBase.trans_le le) quiet
  · rename_i skipped
    have none : stopIn params base texts.flatten = none := by
      rcases not_and_or.mp skipped with noStops | few
      · have isNil : params.stop = [] := by simpa using noStops
        rw [stopIn, isNil]
        rfl
      · have few : texts.length ≤ params.minTokens := not_lt.mp few
        rw [unchecked, take_of_length_le few] at le
        rwa [take_of_length_le le] at quiet
    rw [none]
    rfl

/-- One call. -/
theorem update_eq (tokenizer : params.detokenize = true) {later : List (List Char)}
    (isBase : base = unchecked params (before ++ call ++ later))
    (quiet : stopIn params base before.flatten = none) :
    let stop := stopIn params base (before ++ call).flatten
    (ofTexts before).update spell params call false =
      ({ ofTexts (before ++ call) with
          outputText := textUpTo params base (before ++ call).flatten stop }, stop) := by
  intro stop
  by_cases empty : call = []
  · have none : stop = none := by rwa [← append_nil before, ← empty] at quiet
    rw [none, empty]
    simp [update, tokenizer, textUpTo, ofTexts]
  have decoded : (ofTexts before).decodeAll spell params call false =
      (ofTexts (before ++ call), max before.flatten.length (unchecked params (before ++ call))) := by
    simp only [decodeAll, Bool.false_and, Bool.false_eq_true, if_false, append_nil]
    exact foldl_decodeToken before call
  have searched : stopIn params base ((before ++ call).flatten.take
      (max before.flatten.length (unchecked params (before ++ call)))) = none := by
    rcases le_total before.flatten.length (unchecked params (before ++ call)) with le | le
    · refine find?_eq_none.mpr fun s _ => ?_
      rw [firstAt_eq_none]
      · exact Bool.false_ne_true
      · rw [max_eq_right le, isBase]
        refine (length_take_le _ _).trans ?_
        exact unchecked_le _ later
    · rw [max_eq_left le, flatten_append, take_left]
      exact quiet
  have matched := stopMatch_eq isBase (le_max_right _ _) searched
  simp only [update, tokenizer, decoded, List.isEmpty_iff, empty, Bool.not_true, Bool.false_eq_true,
    if_false]
  cases isMatch : (ofTexts (before ++ call)).stopMatch params
      (max before.flatten.length (unchecked params (before ++ call))) with
  | none =>
    rw [isMatch] at matched
    rw [show stop = none from Option.map_eq_none_iff.mp matched.symm]
    rfl
  | some found =>
    rw [isMatch] at matched
    obtain ⟨s, isStop, same⟩ := Option.map_eq_some_iff.mp matched.symm
    obtain ⟨s', truncateTo⟩ := found
    obtain ⟨rfl, isCut⟩ := Prod.mk.inj same
    rw [show stop = some s from isStop, isCut]
    cases truncateTo with
    | none => rfl
    | some n => rfl

/-- The calls from a state on in which no stop string was found. -/
theorem feed_eq (tokenizer : params.detokenize = true) (before : List (List Char))
    {calls : List (List (List Char))} (isBase : base = unchecked params (before ++ calls.flatten))
    (quiet : stopIn params base before.flatten = none) :
    let r := feed params (ofTexts before) calls
    r.2 = reported params base before.flatten calls ∧
      r.1.outputText = textUpTo params base (before ++ calls.flatten).flatten r.2 := by
  induction calls generalizing before with
  | nil => simp [feed, reported, textUpTo, ofTexts]
  | cons call calls ih =>
    rw [flatten_cons, ← append_assoc] at isBase ⊢
    rw [feed, reported, update_eq tokenizer isBase quiet, ← flatten_append]
    cases found : stopIn params base (before ++ call).flatten with
    | none => exact ih _ isBase found
    | some s =>
      refine ⟨rfl, ?_⟩
      have isSome := find?_some found
      obtain ⟨i, isAt⟩ := Option.isSome_iff_exists.mp isSome
      obtain ⟨again, le⟩ := firstAt_append isAt calls.flatten.flatten
      rw [show (before ++ call ++ calls.flatten).flatten = _ ++ calls.flatten.flatten from
        flatten_append]
      simp only [Option.isSome_some, if_true, textUpTo, again, isAt, Option.getD_some]
      rw [take_append_of_le_length]
      split <;> omega

theorem stopIn_nil (base : Nat) : stopIn params base [] = none := by
  refine find?_eq_none.mpr fun s _ => ?_
  rw [firstAt_eq_none (Nat.zero_le _)]
  exact Bool.false_ne_true

theorem ending_eq (tokenizer : params.detokenize = true) (calls : List (List (List Char))) :
    let base := unchecked params calls.flatten
    ending params calls =
      (textUpTo params base calls.flatten.flatten (reported params base [] calls),
        reported params base [] calls) := by
  intro base
  obtain ⟨stop, text⟩ := feed_eq tokenizer [] rfl (stopIn_nil base)
  rw [ending, text, stop]
  rfl

/-- A single stop string is found by the end, wherever the calls end. -/
theorem reported_of_single (single : params.stop = [stopStr]) (calls : List (List (List Char)))
    (quiet : stopIn params base text = none) :
    reported params base text calls = stopIn params base (text ++ calls.flatten.flatten) := by
  induction calls generalizing text with
  | nil => rw [reported, flatten_nil, flatten_nil, append_nil, quiet]
  | cons call calls ih =>
    rw [reported, flatten_cons, flatten_append, ← append_assoc]
    cases found : stopIn params base (text ++ call.flatten) with
    | none => exact ih found
    | some s =>
      have isSome := find?_some found
      obtain ⟨i, isAt⟩ := Option.isSome_iff_exists.mp isSome
      obtain ⟨again, -⟩ := firstAt_append isAt calls.flatten.flatten
      obtain rfl : s = stopStr := by
        have mem := mem_of_find?_eq_some found
        rwa [single, mem_singleton] at mem
      rw [stopIn, single, find?_cons, again]
      rfl

theorem ending_eq_of_single (tokenizer : params.detokenize = true) (single : params.stop = [stopStr])
    {calls calls' : List (List (List Char))} (same : calls.flatten = calls'.flatten) :
    ending params calls = ending params calls' := by
  rw [ending_eq tokenizer calls, ending_eq tokenizer calls',
    reported_of_single single calls (stopIn_nil _), reported_of_single single calls' (stopIn_nil _),
    same]

/-- Two ways of grouping the same tokens end with the same text and the same stop string just if
the texts at the ends of their calls lead to the same stop string. -/
theorem ending_eq_iff (tokenizer : params.detokenize = true)
    {calls calls' : List (List (List Char))} (same : calls.flatten = calls'.flatten) :
    ending params calls = ending params calls' ↔
      reported params (unchecked params calls.flatten) [] calls =
        reported params (unchecked params calls.flatten) [] calls' := by
  rw [ending_eq tokenizer calls, ending_eq tokenizer calls', ← same, Prod.mk.injEq]
  refine and_iff_right_of_imp fun agree => ?_
  rw [agree]

/-- Of two stop strings the later one in the list is completed first. -/
def laterFirst : DetokenizeParams where
  detokenize := true
  stop := [['b'], ['a']]
  stop_ne_nil := by decide
  minTokens := 0
  includeStopStrInOutput := false

theorem grouping_changes_stop :
    ending laterFirst [[['a']], [['b']]] = ([], some ['a']) ∧
      ending laterFirst [[['a'], ['b']]] = (['a'], some ['b']) := by
  decide

theorem twoStops_ending :
    ending TextStream.twoStops [[['x', 'a']], [['b']]] =
      ending TextStream.twoStops [[['x', 'a'], ['b']]] :=
  (ending_eq_iff rfl rfl).mpr (by decide)

end Vllm.Engine.Detokenizer
