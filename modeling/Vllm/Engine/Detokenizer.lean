import Mathlib

/-!
Incremental detokenization (`vllm/v1/engine/detokenizer.py`).

A detokenizer keeps the text of a request and how much of it has been handed out.
While the request runs, as many characters are held back as a stop string may still
take away again, so what was handed out is never truncated (`update_keeps_sent`).

How one token becomes text is up to the tokenizer and a parameter here.
-/

namespace Vllm.Engine

open List

/-! ### Stop strings -/

/-- Where `str.find` starts to look: a negative start counts from the end. -/
def searchStart (length : Nat) (start : Int) : Nat :=
  if start < 0 then (length + start).toNat else start.toNat

/-- `text.find(sub, start)`. -/
def find (text sub : List Char) (start : Int) : Option Nat :=
  let first := searchStart text.length start
  (range' first (text.length + 1 - first)).find? fun i => sub.isPrefixOf (text.drop i)

/-- `check_stop_strings`: the stop string found and where to truncate the text, if at
all. -/
def checkStopStrings (outputText : List Char) (newCharCount : Nat) (stop : List (List Char))
    (includeInOutput : Bool) : Option (List Char × Option Nat) :=
  if newCharCount = 0 then none
  else stop.findSome? fun stopStr =>
    (find outputText stopStr (1 - newCharCount - stopStr.length)).map fun stopIndex =>
      if includeInOutput then
        let stopIndex := stopIndex + stopStr.length
        if outputText.length ≤ stopIndex then (stopStr, none) else (stopStr, some stopIndex)
      else (stopStr, some stopIndex)

/-- A stop string is found at or after the place where the search starts. -/
theorem le_of_find {text sub : List Char} {start : Int} {i : Nat}
    (found : find text sub start = some i) : searchStart text.length start ≤ i := by
  have mem := mem_of_find?_eq_some found
  exact (mem_range'_1.mp mem).1

/-! ### Detokenizers -/

/-- The parts of `SamplingParams` that detokenization reads. -/
structure DetokenizeParams where
  /-- Whether there is a tokenizer at all. -/
  detokenize : Bool
  stop : List (List Char)
  /-- `stop cannot contain an empty string.` -/
  stop_ne_nil : ∀ stopStr ∈ stop, stopStr ≠ []
  minTokens : Nat
  includeStopStrInOutput : Bool

theorem DetokenizeParams.noStop : ∀ stopStr ∈ ([] : List (List Char)), stopStr ≠ [] :=
  forall_mem_nil _

/-- `stop_buffer_length`: how many characters are held back. -/
def DetokenizeParams.stopBufferLength (params : DetokenizeParams) : Nat :=
  if !params.stop.isEmpty && !params.includeStopStrInOutput then
    (params.stop.map length).foldr max 0 - 1
  else 0

/-- An `IncrementalDetokenizer`. `decoder` is what the tokenizer keeps between tokens. -/
structure Detokenizer (T D : Type) where
  /-- The output tokens. -/
  tokenIds : List T := []
  outputText : List Char := []
  lastOutputTextOffset : Nat := 0
  decoder : D

variable {T D : Type}

namespace Detokenizer

def numOutputTokens (d : Detokenizer T D) : Nat := d.tokenIds.length

section Update

variable (decodeNext : List T → D → T → List Char × D) (params : DetokenizeParams)

/-- One round of the decoding loop, with `stop_check_offset`. -/
def decodeToken (acc : Detokenizer T D × Nat) (token : T) : Detokenizer T D × Nat :=
  let (d, stopCheckOffset) := acc
  let tokenIds := d.tokenIds ++ [token]
  let (text, decoder) := decodeNext tokenIds d.decoder token
  let outputText := d.outputText ++ text
  -- No stop string is looked for in the first `min_tokens` tokens.
  let stopCheckOffset :=
    if params.minTokens ≠ 0 ∧ tokenIds.length ≤ params.minTokens then outputText.length
    else stopCheckOffset
  ({ d with tokenIds, outputText, decoder }, stopCheckOffset)

/-- The new tokens as they are decoded: a stop token is left out of the text. -/
def decodeAll (d : Detokenizer T D) (newTokenIds : List T) (stopTerminated : Bool) :
    Detokenizer T D × Nat :=
  let skipLast := stopTerminated && !params.includeStopStrInOutput
  let decoded := if skipLast then newTokenIds.dropLast else newTokenIds
  let (d, stopCheckOffset) := decoded.foldl (decodeToken decodeNext params) (d, d.outputText.length)
  let skipped := if skipLast then newTokenIds.getLast?.toList else []
  ({ d with tokenIds := d.tokenIds ++ skipped }, stopCheckOffset)

/-- The stop string that the new tokens complete, and where to truncate. -/
def stopMatch (d : Detokenizer T D) (stopCheckOffset : Nat) : Option (List Char × Option Nat) :=
  if !params.stop.isEmpty ∧ params.minTokens < d.numOutputTokens then
    checkStopStrings d.outputText (d.outputText.length - stopCheckOffset) params.stop
      params.includeStopStrInOutput
  else none

/-- `update`: decodes the new tokens and looks for a stop string. -/
def update (d : Detokenizer T D) (newTokenIds : List T) (stopTerminated : Bool) :
    Detokenizer T D × Option (List Char) :=
  if !params.detokenize then ({ d with tokenIds := d.tokenIds ++ newTokenIds }, none)
  else if newTokenIds.isEmpty then (d, none)
  else
    let (d, stopCheckOffset) := d.decodeAll decodeNext params newTokenIds stopTerminated
    match d.stopMatch params stopCheckOffset with
    | none => (d, none)
    | some (stopString, none) => (d, some stopString)
    | some (stopString, some truncateTo) =>
      ({ d with outputText := d.outputText.take truncateTo }, some stopString)

end Update

def getNextOutputText (params : DetokenizeParams) (d : Detokenizer T D) (finished delta : Bool) :
    Detokenizer T D × List Char :=
  if !params.detokenize then (d, [])
  else
    let bufferLength := if finished then 0 else params.stopBufferLength
    let length := d.outputText.length - bufferLength
    if !delta then (d, d.outputText.take length)
    else if d.lastOutputTextOffset < length then
      ({ d with lastOutputTextOffset := length },
        (d.outputText.take length).drop d.lastOutputTextOffset)
    else (d, [])

/-! ### What is handed out stays -/

section Sent

variable (decodeNext : List T → D → T → List Char × D) (params : DetokenizeParams)
  {d : Detokenizer T D} {newTokenIds : List T}

/-- Decoding appends: tokens and text only grow, and stop strings are looked for in the
new text. -/
structure Extends (d d' : Detokenizer T D) (newTokenIds : List T) (stopCheckOffset : Nat) :
    Prop where
  tokenIds : d'.tokenIds = d.tokenIds ++ newTokenIds
  outputText : ∃ text, d'.outputText = d.outputText ++ text
  lastOutputTextOffset : d'.lastOutputTextOffset = d.lastOutputTextOffset
  le_offset : d.outputText.length ≤ stopCheckOffset
  offset_le : stopCheckOffset ≤ d'.outputText.length

theorem foldl_decodeToken_extends (tokens : List T) (d : Detokenizer T D) :
    let r := tokens.foldl (decodeToken decodeNext params) (d, d.outputText.length)
    Extends d r.1 tokens r.2 := by
  induction tokens using reverseRecOn with
  | nil => exact ⟨by simp, ⟨[], by simp⟩, rfl, le_rfl, le_rfl⟩
  | append_singleton tokens token ih =>
    rw [foldl_append]
    obtain ⟨ids, ⟨text, grown⟩, same, le, offset_le⟩ := ih
    refine ⟨?_, ?_, same, ?_, ?_⟩
    · simp [decodeToken, ids]
    · exact ⟨text ++ _, by simp [decodeToken, grown]; rfl⟩
    · simp only [foldl_cons, foldl_nil, decodeToken]
      split
      · simp only [length_append]
        omega
      · exact le
    · simp only [foldl_cons, foldl_nil, decodeToken]
      split
      · exact le_rfl
      · simp only [length_append]
        omega

theorem decodeAll_extends (d : Detokenizer T D) (newTokenIds : List T) (stopTerminated : Bool) :
    let r := d.decodeAll decodeNext params newTokenIds stopTerminated
    Extends d r.1 newTokenIds r.2 := by
  unfold decodeAll
  cases stopTerminated && !params.includeStopStrInOutput with
  | false =>
    obtain ⟨ids, text, same, le, offset_le⟩ :=
      foldl_decodeToken_extends decodeNext params newTokenIds d
    exact ⟨by simp [ids], text, same, le, offset_le⟩
  | true =>
    obtain ⟨ids, text, same, le, offset_le⟩ :=
      foldl_decodeToken_extends decodeNext params newTokenIds.dropLast d
    refine ⟨?_, text, same, le, offset_le⟩
    simp only [if_true, ids]
    cases newTokenIds.eq_nil_or_concat' with
    | inl empty => simp [empty]
    | inr h =>
      obtain ⟨front, last, rfl⟩ := h
      simp

/-- As long as the request runs, only text is handed out that a stop string cannot
reach. -/
def Held (d : Detokenizer T D) : Prop :=
  d.lastOutputTextOffset = 0 ∨
    d.lastOutputTextOffset + params.stopBufferLength ≤ d.outputText.length

/-- No stop string that the new tokens complete starts in text handed out before. -/
def StopsAfterSent (d : Detokenizer T D) (newTokenIds : List T) (stopTerminated : Bool) : Prop :=
  let r := d.decodeAll decodeNext params newTokenIds stopTerminated
  ∀ stopString truncateTo, r.1.stopMatch params r.2 = some (stopString, some truncateTo) →
    d.lastOutputTextOffset ≤ truncateTo

theorem length_le_stopBufferLength {stopStr : List Char} (mem : stopStr ∈ params.stop)
    (excluded : params.includeStopStrInOutput = false) :
    stopStr.length ≤ params.stopBufferLength + 1 := by
  have ne : params.stop.isEmpty = false := by
    cases h : params.stop with
    | nil => simp [h] at mem
    | cons => rfl
  have le : stopStr.length ≤ (params.stop.map length).foldr max 0 := by
    generalize params.stop = stop at mem
    induction stop with
    | nil => simp at mem
    | cons first rest ih =>
      rcases mem_cons.mp mem with rfl | later
      · exact le_max_left _ _
      · exact (ih later).trans (le_max_right _ _)
  simp only [DetokenizeParams.stopBufferLength, ne, excluded]
  simp only [Bool.not_false, Bool.and_self, if_true]
  omega

/-- A stop string does not reach what was handed out while the request runs. -/
theorem Held.stopsAfterSent (held : Held params d) (newTokenIds : List T)
    (stopTerminated : Bool) : StopsAfterSent decodeNext params d newTokenIds stopTerminated := by
  intro stopString truncateTo found
  set r := d.decodeAll decodeNext params newTokenIds stopTerminated
  have ext : Extends d r.1 newTokenIds r.2 := decodeAll_extends decodeNext params _ _ _
  have le_offset := ext.le_offset
  unfold stopMatch at found
  split at found
  · unfold checkStopStrings at found
    split at found
    · cases found
    · obtain ⟨stopStr, mem, found⟩ := exists_of_findSome?_eq_some found
      obtain ⟨stopIndex, index, found⟩ := Option.map_eq_some_iff.mp found
      have start := le_of_find index
      have pos := length_pos_iff.mpr (params.stop_ne_nil stopStr mem)
      unfold searchStart at start
      rw [if_pos (by omega)] at start
      rcases held with zero | held
      · omega
      · cases incl : params.includeStopStrInOutput with
        | true =>
          rw [incl, if_pos rfl] at found
          dsimp only at found
          split at found
          · cases found
          · cases found
            omega
        | false =>
          rw [incl] at found
          cases found
          have := length_le_stopBufferLength params mem incl
          omega
  · cases found

/-- What `update` does to the tokens and to the text. -/
structure Updated (d : Detokenizer T D) (newTokenIds : List T) (stopTerminated : Bool)
    (r : Detokenizer T D × Option (List Char)) : Prop where
  tokenIds : r.1.tokenIds = d.tokenIds ++ newTokenIds
  lastOutputTextOffset : r.1.lastOutputTextOffset = d.lastOutputTextOffset
  plain : params.detokenize = false → r.1.outputText = d.outputText
  grown : r.2 = none → ∃ text, r.1.outputText = d.outputText ++ text
  quiet : newTokenIds = [] → r.2 = none
  kept : d.lastOutputTextOffset ≤ d.outputText.length →
    StopsAfterSent decodeNext params d newTokenIds stopTerminated →
    d.lastOutputTextOffset ≤ r.1.outputText.length ∧
      r.1.outputText.take d.lastOutputTextOffset = d.outputText.take d.lastOutputTextOffset

/-- Text that has grown still starts with what was handed out. -/
theorem take_append_of_le {text new : List Char} {n : Nat} (le : n ≤ text.length) :
    n ≤ (text ++ new).length ∧ (text ++ new).take n = text.take n :=
  ⟨by simp only [length_append]; omega, take_append_of_le_length le⟩

theorem updated (d : Detokenizer T D) (newTokenIds : List T) (stopTerminated : Bool) :
    Updated decodeNext params d newTokenIds stopTerminated
      (d.update decodeNext params newTokenIds stopTerminated) := by
  unfold update
  cases detok : params.detokenize with
  | false => exact ⟨rfl, rfl, fun _ => rfl, fun _ => ⟨[], by simp⟩, fun _ => rfl, fun le _ => ⟨le, rfl⟩⟩
  | true =>
    cases newTokenIds with
    | nil => exact ⟨by simp, rfl, by simp, fun _ => ⟨[], by simp⟩, fun _ => rfl, fun le _ => ⟨le, rfl⟩⟩
    | cons token rest =>
      have ext := decodeAll_extends decodeNext params d (token :: rest) stopTerminated
      obtain ⟨text, grown⟩ := ext.outputText
      simp only [Bool.not_true, Bool.false_eq_true, if_false, isEmpty_cons]
      cases found : (d.decodeAll decodeNext params (token :: rest) stopTerminated).1.stopMatch
          params (d.decodeAll decodeNext params (token :: rest) stopTerminated).2 with
      | none =>
        refine ⟨ext.tokenIds, ext.lastOutputTextOffset, by simp [detok],
          fun _ => ⟨text, grown⟩, by simp, fun le _ => ?_⟩
        simp only [grown]
        exact take_append_of_le le
      | some stop =>
        obtain ⟨stopString, truncateTo⟩ := stop
        cases truncateTo with
        | none =>
          refine ⟨ext.tokenIds, ext.lastOutputTextOffset, by simp [detok], by simp,
            by simp, fun le _ => ?_⟩
          simp only [grown]
          exact take_append_of_le le
        | some truncateTo =>
          refine ⟨ext.tokenIds, ext.lastOutputTextOffset, by simp [detok], by simp,
            by simp, fun le after => ?_⟩
          have within := after stopString truncateTo found
          obtain ⟨le', same⟩ := @take_append_of_le _ text _ le
          rw [← grown] at le' same
          constructor
          · simp only [length_take]
            omega
          · simp only [take_take, min_eq_left within]
            exact same

/-- Text is held back as long as no stop string is found. -/
theorem Updated.held {r : Detokenizer T D × Option (List Char)} {stopTerminated : Bool}
    (upd : Updated decodeNext params d newTokenIds stopTerminated r) (held : Held params d)
    (none : r.2 = none) : Held params r.1 := by
  obtain ⟨text, grown⟩ := upd.grown none
  unfold Held
  rw [upd.lastOutputTextOffset, grown, length_append]
  rcases held with zero | held
  · exact .inl zero
  · exact .inr (by omega)

/-- What `get_next_output_text` hands out continues what was handed out before. -/
structure HandedOut (d : Detokenizer T D) (finished : Bool) (r : Detokenizer T D × List Char) :
    Prop where
  tokenIds : r.1.tokenIds = d.tokenIds
  outputText : r.1.outputText = d.outputText
  le : r.1.lastOutputTextOffset ≤ d.outputText.length
  text : d.outputText.take r.1.lastOutputTextOffset =
    d.outputText.take d.lastOutputTextOffset ++ r.2
  all : finished = true → r.1.lastOutputTextOffset = d.outputText.length
  held : finished = false → Held params d → Held params r.1

theorem handedOut (d : Detokenizer T D) (finished : Bool)
    (le : d.lastOutputTextOffset ≤ d.outputText.length)
    (plain : params.detokenize = false → d.outputText = []) :
    HandedOut params d finished (d.getNextOutputText params finished true) := by
  unfold getNextOutputText
  cases detok : params.detokenize with
  | false =>
    refine ⟨rfl, rfl, le, by simp, fun _ => ?_, fun _ held => held⟩
    simp only [plain detok, length_nil, Nat.le_zero_eq] at le
    simp [plain detok, le]
  | true =>
    simp only [Bool.not_true, Bool.false_eq_true, if_false]
    set length := d.outputText.length - if finished then 0 else params.stopBufferLength
      with length_eq
    split
    · refine ⟨rfl, rfl, by simp only; omega, ?_, ?_, ?_⟩
      · have := take_append_drop d.lastOutputTextOffset (d.outputText.take length)
        rw [take_take, min_eq_left (by omega)] at this
        exact this.symm
      · rintro rfl
        simp [length_eq]
      · rintro rfl _
        exact .inr (by simp only [Bool.false_eq_true, if_false] at length_eq ⊢; omega)
    · refine ⟨rfl, rfl, le, by simp, ?_, fun _ held => held⟩
      rintro rfl
      rw [if_pos rfl] at length_eq
      show d.lastOutputTextOffset = _
      omega

end Sent

end Detokenizer

end Vllm.Engine
