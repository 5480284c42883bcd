import Vllm.Lib.Utf8

/-!
The incremental decoder of the Rust front end (`DecodeStream`) and the loop that feeds it
(`decoded_text_event_stream`), without stop strings.

The decoder keeps a window of token ids and the text of its first part, and emits what the
window decodes to after that text. The text of the prompt is only taken when the first token
comes (`seed_prefix`): a request that ends before emits its prompt (`textStream_eq_iff`).
Seeding is repeated while the text is empty, and can then drop tokens that wait for the rest
of a character (`Loses`).

The text is a list of characters. Errors, log probabilities and token counts are left out.
-/

namespace Vllm.Rust

open Vllm.Lib Vllm.Lib.Utf8 List

variable {τ : Type}

def byteLen (text : List Char) : Nat := (text.map Char.utf8Size).sum

/-- `&string[string.floor_char_boundary(n)..]`. -/
def sliceFrom : Nat → List Char → List Char
  | _, [] => []
  | n, c :: text => if c.utf8Size ≤ n then sliceFrom (n - c.utf8Size) text else c :: text

theorem sliceFrom_byteLen (first text : List Char) :
    sliceFrom (byteLen first) (first ++ text) = text := by
  induction first with
  | nil =>
    cases text with
    | nil => rfl
    | cons c text => exact if_neg (Nat.not_le.mpr c.utf8Size_pos)
  | cons c first ih =>
    have len : byteLen (c :: first) = c.utf8Size + byteLen first := sum_cons
    rw [cons_append, sliceFrom, len, if_pos (Nat.le_add_right _ _), Nat.add_sub_cancel_left, ih]

theorem byteLen_append_le {first text : List Char} :
    byteLen (first ++ text) ≤ byteLen first ↔ text = [] := by
  have len : byteLen (first ++ text) = byteLen first + byteLen text := by
    rw [byteLen, map_append, sum_append]
    rfl
  cases text with
  | nil => simp
  | cons c text =>
    have pos := c.utf8Size_pos
    have cons : byteLen (c :: text) = c.utf8Size + byteLen text := sum_cons
    simp only [cons_ne_nil, iff_false]
    omega

/-! ### `DecodeStream` -/

structure DecodeStream (τ : Type) where
  ids : List τ
  prefixText : List Char
  prefixIndex : Nat
  cumulativeOutput : List Char
  outputIndex : Nat

open DecodeStream

def DecodeStream.new (promptTokenIds : List τ) : DecodeStream τ := ⟨promptTokenIds, [], 0, [], 0⟩

/-- A tokenizer, by the bytes of its tokens. -/
structure Tokenizer (τ : Type) where
  bytes : τ → List UInt8

open Tokenizer

variable (tok : Tokenizer τ)

/-- `Tokenizer::decode`. -/
def Tokenizer.decode (ids : List τ) : List Char := Utf8.decode (ids.flatMap tok.bytes)

namespace DecodeStream

def seedPrefix (d : DecodeStream τ) : DecodeStream τ :=
  let promptLen := d.ids.length
  let tries := if 4 < promptLen then range' 4 (min 6 (promptLen - 1) - 3) else []
  match tries.find? fun k => replacement ∉ tok.decode (d.ids.drop (promptLen - k)) with
  | some k =>
      let ids := d.ids.drop (promptLen - k)
      { d with ids, prefixText := tok.decode ids, prefixIndex := ids.length }
  | none =>
      if EndsOpen (tok.decode d.ids) then d
      else { d with prefixText := tok.decode d.ids, prefixIndex := d.ids.length }

/-- The part of `push_token` after the text is seeded. -/
def append (d : DecodeStream τ) (tokenId : τ) : DecodeStream τ :=
  let ids := d.ids ++ [tokenId]
  let string := tok.decode ids
  if byteLen string ≤ byteLen d.prefixText ∨ EndsOpen string then { d with ids }
  else
    { d with
      ids := ids.drop d.prefixIndex
      prefixText := tok.decode (ids.drop d.prefixIndex)
      prefixIndex := (ids.drop d.prefixIndex).length
      cumulativeOutput := d.cumulativeOutput ++ sliceFrom (byteLen d.prefixText) string }

def pushToken (d : DecodeStream τ) (tokenId : τ) : DecodeStream τ :=
  if d.prefixText.isEmpty ∧ ¬ d.ids.isEmpty then (d.seedPrefix tok).append tok tokenId
  else d.append tok tokenId

/-- `next_chunk`; without stop strings `min_bytes_to_buffer` is 0. -/
def nextChunk (d : DecodeStream τ) : Option (List Char) × DecodeStream τ :=
  if d.outputIndex < byteLen d.cumulativeOutput then
    (some (sliceFrom d.outputIndex d.cumulativeOutput),
      { d with outputIndex := byteLen d.cumulativeOutput })
  else (none, d)

/-- `flush`: the last chunk, and the whole text. -/
def flush (d : DecodeStream τ) : Option (List Char) × List Char :=
  let output :=
    if d.ids.isEmpty then d.cumulativeOutput
    else d.cumulativeOutput ++ sliceFrom (byteLen d.prefixText) (tok.decode d.ids)
  (if d.outputIndex < byteLen output then some (sliceFrom d.outputIndex output) else none, output)

end DecodeStream

/-! ### `decoded_text_event_stream` -/

/-- A `GenerateOutput`: its tokens, and for the last one whether it finished by a stop. -/
structure Output (τ : Type) where
  tokenIds : List τ
  finishReason : Option Bool

variable (includeStop : Bool)

/-- `decodable_token_ids`. -/
def decodable (output : Output τ) : List τ :=
  if output.finishReason = some true ∧ ¬ includeStop then output.tokenIds.dropLast
  else output.tokenIds

/-- One token of an output, with the text of the output so far. -/
def decodeToken (acc : DecodeStream τ × List Char) (tokenId : τ) : DecodeStream τ × List Char :=
  let next := (acc.1.pushToken tok tokenId).nextChunk
  (next.2, acc.2 ++ next.1.getD [])

/-- The texts of all events, one after the other; no result means that the stream closed too
early. -/
def textStream : DecodeStream τ → List (Output τ) → Option (List Char)
  | _, [] => none
  | d, output :: outputs =>
      let (d, delta) := (decodable includeStop output).foldl (decodeToken tok) (d, [])
      match output.finishReason with
      | some _ => some (delta ++ (d.flush tok).1.getD [])
      | none => (textStream d outputs).map (delta ++ ·)

/-- The tokens that the text is made of. -/
def emitted : List (Output τ) → List τ
  | [] => []
  | output :: outputs => match output.finishReason with
      | some _ => decodable includeStop output
      | none => output.tokenIds ++ emitted outputs

/-! ### What the window holds -/

/-- No token of these gave text: after each of them nothing was decoded, or a character was
open. -/
def Silent (tokens : List τ) : Prop :=
  ∀ before, before <+: tokens → tok.decode before = [] ∨ EndsOpen (tok.decode before)

/-- A character is still open when four tokens without bytes follow, and one more token: as
long as no text was seen, neither in the last tokens of the prompt nor from a generated token
before, the next seeding takes the four for the window and drops what is before. -/
def Loses (prompt tokens : List τ) : Prop :=
  tok.decode (prompt.drop (prompt.length - 4)) = [] ∧ ∃ first empty rest : List τ,
    tokens = first ++ empty ++ rest ∧ Silent tok first ∧ EndsOpen (tok.decode first) ∧
      4 ≤ empty.length ∧ tok.decode empty = [] ∧ rest ≠ []

/-- The window is a first part whose text is known, and the tokens that wait for the rest of a
character; the others were sent. -/
structure Holds (prompt pushed : List τ) (d : DecodeStream τ) (window held sent : List τ) : Prop where
  ids : d.ids = window ++ held
  index : d.prefixIndex = window.length
  text : d.prefixText = tok.decode window
  clean : ¬ EndsOpen (tok.decode window)
  pushed : pushed = sent ++ held
  output : d.cumulativeOutput = tok.decode sent
  sentClean : ¬ EndsOpen (tok.decode sent)
  waits : tok.decode held = [] ∨ EndsOpen (tok.decode held)
  silent : tok.decode window = [] → tok.decode sent = [] ∧ Silent tok (sent ++ held) ∧
    tok.decode (prompt.drop (prompt.length - 4)) = []

/-- The decoder after some tokens. -/
def Started (prompt pushed : List τ) (d : DecodeStream τ) : Prop :=
  ∃ window held sent, Holds tok prompt pushed d window held sent

section Window

variable {tok} {prompt pushed window held sent : List τ} {d : DecodeStream τ}

theorem Tokenizer.decode_append {a : List τ} (clean : ¬ EndsOpen (tok.decode a)) (b : List τ) :
    tok.decode (a ++ b) = tok.decode a ++ tok.decode b := by
  rw [decode, flatMap_append]
  exact Utf8.decode_append clean _

theorem Tokenizer.decode_eq_nil {ids : List τ} : tok.decode ids = [] ↔ ∀ t ∈ ids, tok.bytes t = [] := by
  rw [decode, Utf8.decode_eq_nil, flatMap_eq_nil_iff]

theorem Tokenizer.decode_suffix {ids ids' : List τ} (suffix : ids' <:+ ids)
    (empty : tok.decode ids = []) : tok.decode ids' = [] :=
  decode_eq_nil.mpr fun t mem => decode_eq_nil.mp empty t (suffix.subset mem)

theorem not_endsOpen_nil {text : List Char} (empty : text = []) : ¬ EndsOpen text := by
  rw [empty]
  decide

theorem silent_nil : Silent tok ([] : List τ) := fun _ isPrefix => by
  rw [prefix_nil.mp isPrefix]
  exact .inl rfl

theorem Holds.append (holds : Holds tok prompt pushed d window held sent) (t : τ) :
    Started tok prompt (pushed ++ [t]) (d.append tok t) := by
  have string : tok.decode (d.ids ++ [t]) = tok.decode window ++ tok.decode (held ++ [t]) := by
    rw [holds.ids, append_assoc, Tokenizer.decode_append holds.clean]
  have pushed' : pushed ++ [t] = sent ++ (held ++ [t]) := by rw [holds.pushed, append_assoc]
  unfold DecodeStream.append
  simp only [string, holds.text]
  split
  · rename_i waits
    rw [byteLen_append_le] at waits
    have waits' : tok.decode (held ++ [t]) = [] ∨ EndsOpen (tok.decode (held ++ [t])) :=
      or_iff_not_imp_left.mpr fun some => (endsOpen_append some).mp (waits.resolve_left some)
    refine ⟨window, held ++ [t], sent, { holds with
      ids := by rw [holds.ids, append_assoc], text := rfl, pushed := pushed', waits := waits',
      silent := fun empty => ?_ }⟩
    obtain ⟨noneSent, silent, lastFour⟩ := holds.silent empty
    refine ⟨noneSent, fun before isPrefix => ?_, lastFour⟩
    rw [← append_assoc] at isPrefix
    rcases prefix_concat_iff.mp isPrefix with rfl | isPrefix
    · rwa [append_assoc, Tokenizer.decode_append holds.sentClean, noneSent]
    · exact silent before isPrefix
  · rename_i shown
    rw [not_or, byteLen_append_le] at shown
    have clean : ¬ EndsOpen (tok.decode (held ++ [t])) :=
      fun openEnd => shown.2 ((endsOpen_append shown.1).mpr openEnd)
    have dropped : (d.ids ++ [t]).drop d.prefixIndex = held ++ [t] := by
      rw [holds.ids, holds.index, append_assoc, drop_left]
    have all := decode_append holds.sentClean (held ++ [t])
    refine ⟨held ++ [t], [], sent ++ (held ++ [t]), by rw [dropped, append_nil], by rw [dropped],
      by rw [dropped], clean, by rw [pushed', append_nil], ?_, ?_, .inl rfl,
      fun empty => absurd empty shown.1⟩
    · rw [all, sliceFrom_byteLen, holds.output]
    · rw [all, endsOpen_append shown.1]
      exact clean

/-- Seeding takes the end of the window, or all of it when its text is complete. -/
theorem seedPrefix_cases (tok : Tokenizer τ) (d : DecodeStream τ) :
    (∃ ids, d.seedPrefix tok = { d with
        ids, prefixText := tok.decode ids, prefixIndex := ids.length } ∧ ids <:+ d.ids ∧
      (4 ≤ ids.length ∧ replacement ∉ tok.decode ids ∨ ids = d.ids ∧ ¬ EndsOpen (tok.decode ids))) ∨
    d.seedPrefix tok = d ∧ EndsOpen (tok.decode d.ids) := by
  unfold seedPrefix
  dsimp only
  split
  · rename_i k found
    have mem := mem_of_find?_eq_some found
    split at mem
    · rw [mem_range'_1] at mem
      refine .inl ⟨_, rfl, drop_suffix _ _, .inl ⟨?_, by simpa using find?_some found⟩⟩
      rw [length_drop]
      omega
    · exact absurd mem not_mem_nil
  · split
    · rename_i openEnd
      exact .inr ⟨rfl, openEnd⟩
    · rename_i closed
      exact .inl ⟨d.ids, rfl, suffix_refl _, .inr ⟨rfl, closed⟩⟩

/-- Seeding is right for as long as no character is open, or the tokens after it have bytes. -/
theorem Holds.seedPrefix (holds : Holds tok prompt pushed d window held sent)
    (empty : d.prefixText = []) {t : τ} (keeps : ¬ Loses tok prompt (pushed ++ [t])) :
    Started tok prompt pushed (d.seedPrefix tok) := by
  rw [holds.text] at empty
  obtain ⟨noneSent, silent, lastFour⟩ := holds.silent empty
  have whole : tok.decode d.ids = tok.decode held := by
    rw [holds.ids, Tokenizer.decode_append holds.clean, empty, nil_append]
  rcases seedPrefix_cases tok d with ⟨ids, eq, suffix, tried⟩ | ⟨eq, -⟩
  · rcases holds.waits with noBytes | openEnd
    · have noText := decode_suffix suffix (whole.trans noBytes)
      have all : tok.decode (sent ++ held) = [] := by
        rw [Tokenizer.decode_append holds.sentClean, noneSent, noBytes, nil_append]
      rw [eq]
      exact ⟨ids, [], sent ++ held, (append_nil ids).symm, rfl, rfl, not_endsOpen_nil noText,
        by rw [holds.pushed, append_nil], by rw [holds.output, noneSent, all],
        not_endsOpen_nil all, .inl rfl, fun _ => ⟨all, by rwa [append_nil], lastFour⟩⟩
    · -- the tokens that were tried have no bytes, as a character is open before them
      rw [← whole] at openEnd
      obtain ⟨four, clean⟩ := tried.resolve_right fun all => all.2 (all.1 ▸ openEnd)
      obtain ⟨before, split⟩ := suffix
      have noBytes : ids.flatMap tok.bytes = [] := by
        refine Classical.not_not.mp fun some => not_endsOpen_append some clean
          (before.flatMap tok.bytes) ?_
        rw [← split, Tokenizer.decode, flatMap_append] at openEnd
        exact openEnd
      rw [whole] at openEnd
      have isSuffix : ids <:+ held := by
        have inWindow : ids <:+ window ++ held := ⟨before, split.trans holds.ids⟩
        refine (Nat.le_total held.length ids.length).elim (fun short => ?_)
          (suffix_of_suffix_length_le inWindow (suffix_append _ _))
        have inside := suffix_of_suffix_length_le (suffix_append window held) inWindow short
        exact absurd openEnd (not_endsOpen_nil
          (decode_suffix inside (Utf8.decode_eq_nil.mpr noBytes)))
      obtain ⟨first, rfl⟩ := isSuffix
      refine absurd ⟨lastFour, sent ++ first, ids, [t], by simp [holds.pushed],
        fun before isPrefix => silent before (isPrefix.trans ⟨ids, append_assoc ..⟩), ?_, four,
        Utf8.decode_eq_nil.mpr noBytes, cons_ne_nil _ _⟩ keeps
      rw [Tokenizer.decode, flatMap_append, noBytes, append_nil] at openEnd
      rw [Tokenizer.decode_append holds.sentClean, noneSent]
      exact openEnd
  · rw [eq]
    exact ⟨window, held, sent, holds⟩

theorem Started.pushToken (started : Started tok prompt pushed d) {t : τ}
    (keeps : ¬ Loses tok prompt (pushed ++ [t])) :
    Started tok prompt (pushed ++ [t]) (d.pushToken tok t) := by
  obtain ⟨window, held, sent, holds⟩ := started
  unfold DecodeStream.pushToken
  split
  · rename_i seeds
    obtain ⟨_, _, _, seeded⟩ := holds.seedPrefix (isEmpty_iff.mp seeds.1) keeps
    exact seeded.append t
  · exact holds.append t

/-- The first token finds the window seeded with the end of the prompt. -/
theorem started_new (clean : replacement ∉ tok.decode prompt) (t : τ) :
    Started tok prompt [t] ((new prompt).pushToken tok t) := by
  have closed : ∀ {ids : List τ}, replacement ∉ tok.decode ids → ¬ EndsOpen (tok.decode ids) :=
    fun clean openEnd => clean (mem_of_getLast? openEnd)
  have last := drop_suffix (prompt.length - 4) prompt
  unfold pushToken
  split
  · rcases seedPrefix_cases tok (.new prompt) with ⟨ids, eq, suffix, tried⟩ | ⟨-, openEnd⟩
    · have lastFour : prompt.drop (prompt.length - 4) <:+ ids := by
        rcases tried with ⟨four, -⟩ | ⟨rfl, -⟩
        · refine suffix_of_suffix_length_le last suffix ?_
          rw [length_drop]
          omega
        · exact last
      have holds : Holds tok prompt [] ((new prompt).seedPrefix tok) ids [] [] := by
        rw [eq]
        exact ⟨(append_nil _).symm, rfl, rfl, tried.elim (fun tried => closed tried.2) (·.2), rfl,
          rfl, not_endsOpen_nil rfl, .inl rfl, fun empty => ⟨rfl, silent_nil, decode_suffix lastFour empty⟩⟩
      exact holds.append t
    · exact absurd openEnd (closed clean)
  · rename_i noSeed
    obtain rfl : prompt = [] := by simpa [new] using noSeed
    have holds : Holds tok [] [] (.new []) ([] : List τ) [] [] := ⟨rfl, rfl, rfl, not_endsOpen_nil rfl,
      rfl, rfl, not_endsOpen_nil rfl, .inl rfl, fun _ => ⟨rfl, silent_nil, rfl⟩⟩
    exact holds.append t

theorem Started.flush (started : Started tok prompt pushed d) :
    (d.flush tok).2 = tok.decode pushed := by
  obtain ⟨window, held, sent, holds⟩ := started
  rw [holds.pushed, Tokenizer.decode_append holds.sentClean, ← holds.output, DecodeStream.flush]
  split
  · rename_i noIds
    rw [List.isEmpty_iff, holds.ids, append_eq_nil_iff] at noIds
    rw [noIds.2]
    exact (append_nil _).symm
  · rw [holds.text, holds.ids, Tokenizer.decode_append holds.clean, sliceFrom_byteLen]

end Window

/-! ### The text of the stream -/

section Stream

variable {tok} {includeStop} {prompt pushed : List τ} {d : DecodeStream τ} {text : List Char}

/-- The part of a text that was not sent. -/
theorem unsent (sent text : List Char) :
    (if byteLen sent < byteLen (sent ++ text) then some (sliceFrom (byteLen sent) (sent ++ text))
      else none).getD [] = text := by
  split
  · rw [sliceFrom_byteLen, Option.getD_some]
  · rename_i nothing
    rw [byteLen_append_le.mp (Nat.not_lt.mp nothing), Option.getD_none]

theorem nextChunk_spec {sent more : List Char} (output : d.cumulativeOutput = sent ++ more)
    (index : d.outputIndex = byteLen sent) : d.nextChunk.1.getD [] = more ∧
      d.nextChunk.2 = { d with outputIndex := byteLen d.cumulativeOutput } := by
  have chunk := unsent sent more
  rw [← output, ← index] at chunk
  unfold nextChunk
  split
  · rename_i some
    rw [if_pos some] at chunk
    exact ⟨chunk, rfl⟩
  · rename_i nothing
    rw [if_neg nothing] at chunk
    have all : byteLen d.cumulativeOutput = d.outputIndex := by
      rw [output, ← chunk, index, Option.getD_none, append_nil]
    exact ⟨chunk, by rw [all]⟩

theorem flush_spec (index : d.outputIndex = byteLen d.cumulativeOutput) :
    d.cumulativeOutput ++ (d.flush tok).1.getD [] = (d.flush tok).2 := by
  obtain ⟨more, output⟩ : ∃ more, (d.flush tok).2 = d.cumulativeOutput ++ more := by
    unfold flush
    split
    · exact ⟨[], (append_nil _).symm⟩
    · exact ⟨_, rfl⟩
  have chunk := unsent d.cumulativeOutput more
  rw [← output, ← index] at chunk
  rw [output, ← chunk]
  rfl

theorem cumulativeOutput_pushToken (tok : Tokenizer τ) (d : DecodeStream τ) (t : τ) :
    (d.pushToken tok t).outputIndex = d.outputIndex ∧
      ∃ more, (d.pushToken tok t).cumulativeOutput = d.cumulativeOutput ++ more := by
  unfold pushToken append seedPrefix
  dsimp only
  repeat' split
  all_goals exact ⟨rfl, _, by first | rfl | exact (append_nil _).symm⟩

/-- All that is decoded was sent. -/
def Sent (d : DecodeStream τ) (text : List Char) : Prop :=
  text = d.cumulativeOutput ∧ d.outputIndex = byteLen text

/-- The decoder after the tokens, of which there may be none. -/
def Decoding (tok : Tokenizer τ) (prompt pushed : List τ) (d : DecodeStream τ) : Prop :=
  (pushed = [] ∧ d = .new prompt) ∨ pushed ≠ [] ∧ Started tok prompt pushed d

theorem Decoding.token (decoding : Decoding tok prompt pushed d)
    (clean : replacement ∉ tok.decode prompt) {t : τ} (sent : Sent d text) (delta : List Char)
    (keeps : ¬ Loses tok prompt (pushed ++ [t])) :
    ∃ d' chunk, decodeToken tok (d, delta) t = (d', delta ++ chunk) ∧
      Decoding tok prompt (pushed ++ [t]) d' ∧ Sent d' (text ++ chunk) := by
  have started : Started tok prompt (pushed ++ [t]) (d.pushToken tok t) := by
    rcases decoding with ⟨rfl, rfl⟩ | ⟨-, started⟩
    · exact started_new clean t
    · exact started.pushToken keeps
  obtain ⟨index, more, output⟩ := cumulativeOutput_pushToken tok d t
  rw [← sent.1] at output
  rw [sent.2] at index
  obtain ⟨chunk, after⟩ := nextChunk_spec output index
  obtain ⟨_, _, _, holds⟩ := started
  refine ⟨_, more, congrArg₂ Prod.mk after (congrArg (delta ++ ·) chunk),
    .inr ⟨by simp, _, _, _, { holds with }⟩,
    output.symm, congrArg byteLen output⟩

theorem Decoding.tokens (clean : replacement ∉ tok.decode prompt) {tokens : List τ}
    (decoding : Decoding tok prompt pushed d) (sent : Sent d text) (delta : List Char)
    (keeps : ∀ {first rest}, tokens = first ++ rest → ¬ Loses tok prompt (pushed ++ first)) :
    ∃ d' more, tokens.foldl (decodeToken tok) (d, delta) = (d', delta ++ more) ∧
      Decoding tok prompt (pushed ++ tokens) d' ∧ Sent d' (text ++ more) := by
  induction tokens generalizing pushed d delta text with
  | nil => exact ⟨d, [], by simp, by rwa [append_nil], by rwa [append_nil]⟩
  | cons t tokens ih =>
    obtain ⟨d₁, chunk, first, decoding₁, sent₁⟩ := decoding.token clean sent delta
      (keeps (show t :: tokens = [t] ++ tokens from rfl))
    obtain ⟨d₂, more, others, decoding₂, sent₂⟩ := ih decoding₁ sent₁ (delta ++ chunk) fun eq => by
      rw [append_assoc]
      exact keeps (congrArg (t :: ·) eq)
    rw [append_assoc] at decoding₂ sent₂ others
    exact ⟨d₂, chunk ++ more, by rw [foldl_cons, first, others], decoding₂, sent₂⟩

theorem flush_new (prompt : List τ) :
    ((new prompt).flush tok).2 = tok.decode prompt := by
  have whole := sliceFrom_byteLen [] (tok.decode prompt)
  cases prompt with
  | nil => rfl
  | cons t prompt => exact whole

/-- No part of the tokens loses text when all of them do not. -/
theorem Loses.append {tokens : List τ} (loses : Loses tok prompt tokens) (more : List τ) :
    Loses tok prompt (tokens ++ more) := by
  obtain ⟨prompt, first, empty, rest, rfl, silent, openEnd, four, noBytes, some⟩ := loses
  exact ⟨prompt, first, empty, rest ++ more, by simp, silent, openEnd, four, noBytes,
    by simp [some]⟩

/-- The text of a stream that ends: with no token it is that of the prompt. -/
theorem textStream_eq (clean : replacement ∉ tok.decode prompt) {outputs : List (Output τ)}
    (ends : ∃ output ∈ outputs, output.finishReason ≠ none)
    (decoding : Decoding tok prompt pushed d) (sent : Sent d text)
    (keeps : ¬ Loses tok prompt (pushed ++ emitted includeStop outputs)) :
    ∃ more, textStream tok includeStop d outputs = some more ∧ text ++ more =
      tok.decode (if pushed ++ emitted includeStop outputs = [] then prompt
        else pushed ++ emitted includeStop outputs) := by
  induction outputs generalizing pushed d text with
  | nil =>
    obtain ⟨output, mem, -⟩ := ends
    exact absurd mem not_mem_nil
  | cons output outputs ih =>
    obtain ⟨later, isLater⟩ : ∃ later, emitted includeStop (output :: outputs) =
        decodable includeStop output ++ later := by
      rw [emitted]
      split
      · exact ⟨[], (append_nil _).symm⟩
      · rename_i none
        exact ⟨_, congrArg (· ++ _) (if_neg (by simp [none])).symm⟩
    have keepsAll : ∀ {first rest}, decodable includeStop output = first ++ rest →
        ¬ Loses tok prompt (pushed ++ first) := by
      intro first rest eq loses
      rw [isLater, eq, append_assoc, ← append_assoc] at keeps
      exact keeps (loses.append _)
    obtain ⟨d', delta, run, decoding', sent'⟩ := decoding.tokens clean sent [] keepsAll
    rw [textStream, run]
    rw [emitted] at keeps ⊢
    cases reason : output.finishReason with
    | some stop =>
      refine ⟨_, rfl, ?_⟩
      rw [nil_append, ← append_assoc, sent'.1, flush_spec (by rw [sent'.2, sent'.1])]
      rcases decoding' with ⟨none, isNew⟩ | ⟨some, started⟩
      · rw [if_pos none, isNew]
        exact flush_new prompt
      · rw [if_neg some, started.flush]
    | none =>
      have tokens : decodable includeStop output = output.tokenIds := if_neg (by simp [reason])
      rw [tokens] at decoding'
      simp only [reason] at keeps ⊢
      rw [← append_assoc] at keeps ⊢
      have laterEnds : ∃ o ∈ outputs, o.finishReason ≠ none := by
        obtain ⟨o, mem, ends⟩ := ends
        rcases mem_cons.mp mem with rfl | mem
        · exact absurd reason ends
        · exact ⟨o, mem, ends⟩
      obtain ⟨more, result, eq⟩ := ih laterEnds decoding' sent' keeps
      exact ⟨_, congrArg (Option.map _) result, by rw [← eq, nil_append, append_assoc]⟩

end Stream

/-- When no token is lost, the text is that of the generated tokens exactly when there is one,
or when the prompt has no text. -/
theorem textStream_eq_iff (tok : Tokenizer τ) (includeStop : Bool) (prompt : List τ)
    (clean : replacement ∉ tok.decode prompt) (outputs : List (Output τ))
    (ends : ∃ output ∈ outputs, output.finishReason ≠ none)
    (keeps : ¬ Loses tok prompt (emitted includeStop outputs)) :
    textStream tok includeStop (.new prompt) outputs =
        some (tok.decode (emitted includeStop outputs)) ↔
      emitted includeStop outputs ≠ [] ∨ tok.decode prompt = [] := by
  have start : Decoding tok prompt [] (.new prompt) := .inl ⟨rfl, rfl⟩
  have noneSent : Sent (new prompt) [] := ⟨rfl, rfl⟩
  obtain ⟨text, result, eq⟩ := textStream_eq clean ends start noneSent keeps
  rw [result, ← nil_append text, eq, nil_append]
  split
  · rename_i none
    simp [none, Tokenizer.decode]
  · rename_i some
    simp [some]

def byteTokenizer : Tokenizer UInt8 := ⟨fun b => [b]⟩

/-- A euro sign whose bytes come in two outputs. -/
def splitEuro : List (Output UInt8) := [⟨[0xE2, 0x82], none⟩, ⟨[0xAC], some false⟩]

theorem textStream_splitEuro :
    textStream byteTokenizer false (.new [0x41]) splitEuro = some ['€'] := by
  have shown := (textStream_eq_iff byteTokenizer false [0x41] (by decide) splitEuro
    ⟨_, .tail _ (.head _), nofun⟩ fun loses => absurd loses.1 (by decide)).mpr (.inl (by decide))
  exact shown.trans (by decide)

/-- A stop token alone shows the prompt; and four tokens without bytes make the decoder forget
that a euro sign has started. -/
theorem prompt_shown_and_token_lost :
    textStream byteTokenizer false (.new [0x41]) [⟨[0x42], some true⟩] = some ['A'] ∧
    emitted false [⟨[0x42], some true⟩] = ([] : List UInt8) ∧
    textStream ⟨Option.toList⟩ false (.new [])
        [⟨[some (0xE2 : UInt8), none, none, none, none, some 0x82, some 0xAC], some false⟩] ≠
      some ['€'] := by
  decide +kernel

end Vllm.Rust
