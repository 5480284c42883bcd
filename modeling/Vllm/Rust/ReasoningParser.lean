import Mathlib

/-!
The split of a stream into reasoning and content
(`rust/src/reasoning-parser/src/delimited.rs`), and the Gemma4 parser over it (`gemma4.rs`).

The end of the text is held back while it may be the beginning of a delimiter. Hence no delimiter
goes over the end of what is parsed, whatever comes later (`whole_stable`), and the pieces
together are parsed as one text (`collect_feed`).
-/

namespace Vllm.Rust.Reasoning

open List

/-- `ReasoningDelta`. -/
structure ReasoningDelta where
  reasoning : Option (List Char) := none
  content : Option (List Char) := none

/-- The text of the delta that was read in reasoning mode or in content mode. -/
def ReasoningDelta.text (delta : ReasoningDelta) (mode : Bool) : List Char :=
  (if mode then delta.reasoning else delta.content).getD []

/-- `push_reasoning` or `push_content`, which ignore the empty text. -/
def ReasoningDelta.push (delta : ReasoningDelta) (mode : Bool) (text : List Char) :
    ReasoningDelta :=
  if text = [] then delta
  else if mode then { delta with reasoning := some (delta.reasoning.getD [] ++ text) }
  else { delta with content := some (delta.content.getD [] ++ text) }

/-- Two delimiters, neither a prefix of the other, whose first characters occur in both of them
only at position 0. -/
structure Delimiters where
  startToken : List Char
  endToken : List Char
  start_apart : ¬ startToken <+: endToken
  end_apart : ¬ endToken <+: startToken
  first : ∀ a ∈ [startToken, endToken], ∀ b ∈ [startToken, endToken], ∀ c ∈ a.take 1, c ∉ b.tail

variable (d : Delimiters)

/-- The delimiter that ends a mode. -/
def Delimiters.token (mode : Bool) : List Char := if mode then d.endToken else d.startToken

/-- The specification: one pass over the text, in a mode and with so many characters of a
delimiter still to be dropped. It gives the text kept in each mode, and the last mode. -/
def scan : Bool → Nat → List Char → (Bool → List Char) × Bool
  | mode, _, [] => (fun _ => [], mode)
  | mode, k + 1, _ :: text => scan mode k text
  | mode, 0, c :: text =>
    if d.token mode <+: c :: text then scan (!mode) ((d.token mode).length - 1) text
    else (fun m => (if m = mode then [c] else []) ++ (scan mode 0 text).1 m, (scan mode 0 text).2)

/-! ### The parser -/

/-- `str.find`. -/
def find (pattern : List Char) : List Char → Option Nat
  | [] => if pattern = [] then some 0 else none
  | c :: text => if pattern <+: c :: text then some 0 else (find pattern text).map (· + 1)

/-- The loop of `parse_stable_text`. Each round drops a delimiter. -/
def parseLoop : Nat → Bool → List Char → ReasoningDelta → ReasoningDelta × Bool
  | 0, mode, _, delta => (delta, mode)
  | fuel + 1, mode, stable, delta =>
    if stable = [] then (delta, mode)
    else match find (d.token mode) stable with
      | some idx => parseLoop fuel (!mode) (stable.drop (idx + (d.token mode).length))
          (delta.push mode (stable.take idx))
      | none => (delta.push mode stable, mode)

/-- `DelimitedReasoningParser`. -/
structure Parser where
  currentInReasoning : Bool
  buffer : List Char := []

def parseStableText (mode : Bool) (stable : List Char) : ReasoningDelta × Bool :=
  parseLoop d stable.length mode stable {}

/-- The text may still become a delimiter. -/
def IsPartial (text : List Char) : Prop := ∃ mode, text <+: d.token mode ∧ d.token mode ≠ text

instance (text : List Char) : Decidable (IsPartial d text) :=
  inferInstanceAs (Decidable (∃ _, _))

/-- `partial_suffix_len`, in characters. -/
def partialSuffixLen : List Char → Nat
  | [] => 0
  | c :: text => max (if IsPartial d (c :: text) then text.length + 1 else 0) (partialSuffixLen text)

def push (p : Parser) (delta : List Char) : ReasoningDelta × Parser :=
  let buffer := p.buffer ++ delta
  let stableLen := buffer.length - partialSuffixLen d buffer
  let (result, mode) := parseStableText d p.currentInReasoning (buffer.take stableLen)
  (result, ⟨mode, buffer.drop stableLen⟩)

def finish (p : Parser) : ReasoningDelta × Parser :=
  let (result, mode) := parseStableText d p.currentInReasoning p.buffer
  (result, ⟨mode, []⟩)

/-- The deltas of a stream. -/
def feed {σ : Type} (push : σ → List Char → ReasoningDelta × σ) (finish : σ → ReasoningDelta × σ) :
    σ → List (List Char) → List ReasoningDelta
  | p, [] => [(finish p).1]
  | p, chunk :: chunks => (push p chunk).1 :: feed push finish (push p chunk).2 chunks

/-- All text of one mode. -/
def collect (mode : Bool) (deltas : List ReasoningDelta) : List Char :=
  deltas.flatMap (·.text mode)

/-! ### Parsing is the pass -/

section Pass

variable {d} {text s₁ s₂ : List Char}

theorem token_ne_nil (mode : Bool) : d.token mode ≠ [] := by
  intro empty
  cases mode with
  | false => exact d.start_apart (Eq.subst (motive := (· <+: _)) empty.symm nil_prefix)
  | true => exact d.end_apart (Eq.subst (motive := (· <+: _)) empty.symm nil_prefix)

theorem text_push (delta : ReasoningDelta) (mode m : Bool) (text : List Char) :
    (delta.push mode text).text m = delta.text m ++ if m = mode then text else [] := by
  unfold ReasoningDelta.push
  split
  · simp [*]
  · cases mode <;> cases m <;> simp [ReasoningDelta.text]

theorem scan_skip (mode : Bool) (k : Nat) (text : List Char) :
    scan d mode k text = scan d mode 0 (text.drop k) := by
  induction text generalizing k with
  | nil => simp [scan]
  | cons c text ih =>
    cases k with
    | zero => rfl
    | succ k => exact ih k

/-- The pass up to the next delimiter. -/
theorem scan_eq_find (mode : Bool) (text : List Char) :
    scan d mode 0 text = match find (d.token mode) text with
      | some i =>
        let rest := scan d (!mode) 0 (text.drop (i + (d.token mode).length))
        (fun m => (if m = mode then text.take i else []) ++ rest.1 m, rest.2)
      | none => (fun m => if m = mode then text else [], mode) := by
  induction text with
  | nil => simp [scan, find, token_ne_nil]
  | cons c text ih =>
    rw [scan, find]
    split
    · obtain ⟨n, length⟩ := Nat.exists_eq_succ_of_ne_zero
        (mt length_eq_zero_iff.mp (token_ne_nil (d := d) mode))
      simp [scan_skip (!mode) n, length]
    · rw [ih]
      cases find (d.token mode) text with
      | none =>
        refine Prod.ext (funext fun m => ?_) rfl
        by_cases same : m = mode <;> simp [same]
      | some i =>
        simp only [Option.map_some, Nat.add_right_comm i 1, drop_succ_cons, take_succ_cons]
        refine Prod.ext (funext fun m => ?_) rfl
        by_cases same : m = mode <;> simp [same]

theorem parseLoop_eq {fuel : Nat} (enough : text.length ≤ fuel) (mode : Bool)
    (delta : ReasoningDelta) :
    (parseLoop d fuel mode text delta).2 = (scan d mode 0 text).2 ∧ ∀ m,
      (parseLoop d fuel mode text delta).1.text m = delta.text m ++ (scan d mode 0 text).1 m := by
  induction fuel generalizing mode text delta with
  | zero =>
    rw [length_eq_zero_iff.mp (Nat.le_zero.mp enough)]
    simp [parseLoop, scan]
  | succ fuel ih =>
    rw [parseLoop]
    split
    · rename_i empty
      simp [empty, scan]
    · rw [scan_eq_find]
      cases find (d.token mode) text with
      | none => exact ⟨rfl, fun m => text_push delta mode m text⟩
      | some i =>
        have pos := length_pos_iff.mpr (token_ne_nil (d := d) mode)
        have less : (text.drop (i + (d.token mode).length)).length ≤ fuel := by
          rw [length_drop]
          omega
        obtain ⟨sameMode, texts⟩ := ih less (!mode) (delta.push mode (text.take i))
        refine ⟨sameMode, fun m => ?_⟩
        rw [texts, text_push, append_assoc]

theorem parseStableText_eq (mode : Bool) (text : List Char) :
    (parseStableText d mode text).2 = (scan d mode 0 text).2 ∧
      (parseStableText d mode text).1.text = (scan d mode 0 text).1 := by
  obtain ⟨sameMode, texts⟩ := parseLoop_eq (d := d) le_rfl mode {}
  refine ⟨sameMode, funext fun m => (texts m).trans ?_⟩
  cases m <;> rfl

/-- No delimiter that begins in the first text goes over its end. -/
def Whole (d : Delimiters) (s₁ s₂ : List Char) : Prop :=
  ∀ mode v, v <:+ s₁ → v ≠ [] → d.token mode <+: v ++ s₂ → d.token mode <+: v

theorem scan_append (whole : Whole d s₁ s₂) (mode : Bool) {k : Nat} (le : k ≤ s₁.length) :
    let first := scan d mode k s₁
    let rest := scan d first.2 0 s₂
    scan d mode k (s₁ ++ s₂) = (fun m => first.1 m ++ rest.1 m, rest.2) := by
  induction s₁ generalizing mode k with
  | nil =>
    cases Nat.le_zero.mp le
    rfl
  | cons c s₁ ih =>
    have later : Whole d s₁ s₂ := fun mode v suffix => whole mode v (suffix.trans (suffix_cons c s₁))
    cases k with
    | succ k => exact ih later mode (Nat.le_of_succ_le_succ le)
    | zero =>
      have same : d.token mode <+: c :: s₁ ++ s₂ ↔ d.token mode <+: c :: s₁ :=
        ⟨whole mode _ suffix_rfl (cons_ne_nil _ _), fun here => here.trans (prefix_append _ _)⟩
      rw [cons_append] at same ⊢
      simp only [scan, same]
      split
      · rename_i here
        have := here.length_le
        rw [length_cons] at this
        exact ih later _ (by omega)
      · simp [ih later mode (Nat.zero_le _)]

/-! ### The end that is held back -/

theorem partialSuffixLen_le (text : List Char) : partialSuffixLen d text ≤ text.length := by
  induction text with
  | nil => exact le_rfl
  | cons c text ih =>
    rw [partialSuffixLen, length_cons]
    split <;> omega

theorem le_partialSuffixLen {v : List Char} (suffix : v <:+ text) (isPartial : IsPartial d v) :
    v.length ≤ partialSuffixLen d text := by
  induction text with
  | nil => rw [suffix_nil.mp suffix]; exact le_rfl
  | cons c text ih =>
    rw [partialSuffixLen]
    rcases suffix_cons_iff.mp suffix with rfl | later
    · rw [if_pos isPartial]
      exact le_max_left _ _
    · exact (ih later).trans (le_max_right _ _)

theorem isPartial_pending (text : List Char) :
    text.drop (text.length - partialSuffixLen d text) = [] ∨
      IsPartial d (text.drop (text.length - partialSuffixLen d text)) := by
  induction text with
  | nil => exact .inl rfl
  | cons c text ih =>
    have le := partialSuffixLen_le (d := d) text
    rw [partialSuffixLen, length_cons]
    split
    · rename_i isPartial
      rw [max_eq_left (by omega), Nat.sub_self]
      exact .inr isPartial
    · rw [Nat.zero_max, Nat.succ_sub le]
      exact ih

/-- No delimiter goes over the end of the text that is parsed, whatever comes later. -/
theorem whole_stable (text later : List Char) :
    let stable := text.length - partialSuffixLen d text
    Whole d (text.take stable) (text.drop stable ++ later) := by
  intro stable mode v suffix nonempty begins
  by_contra notBegins
  have short : v.length < (d.token mode).length := by
    by_contra long
    exact notBegins (prefix_of_prefix_length_le begins (prefix_append _ _) (not_lt.mp long))
  cases pending : text.drop stable with
  | nil =>
    -- Nothing is held back, although the end `v` may become a delimiter.
    have all : text.take stable = text := by
      rw [← take_append_drop stable text, pending, append_nil, take_take, min_self]
    have most := le_partialSuffixLen (d := d) (all ▸ suffix)
      ⟨mode, prefix_of_prefix_length_le (prefix_append _ _) begins short.le,
        fun same => short.ne (congrArg length same.symm)⟩
    have := congrArg length pending
    have := length_pos_iff.mpr nonempty
    have := partialSuffixLen_le (d := d) text
    simp only [length_drop, length_nil, stable] at *
    omega
  | cons c rest =>
    -- The held back text starts like a delimiter, and not at the start of this one.
    obtain ⟨mode', ⟨after, isToken⟩, -⟩ := (isPartial_pending (d := d) text).resolve_left
      (by rw [pending]; exact cons_ne_nil _ _)
    rw [pending] at begins isToken
    obtain ⟨tail, isToken'⟩ : v ++ [c] <+: d.token mode :=
      prefix_of_prefix_length_le (by simp) begins (by simpa using short)
    obtain ⟨a, v', rfl⟩ := exists_cons_of_ne_nil nonempty
    have mem : ∀ mode, d.token mode ∈ [d.startToken, d.endToken] := by
      intro mode
      cases mode <;> simp [Delimiters.token]
    refine d.first _ (mem mode') _ (mem mode) c ?_ ?_
    · rw [← isToken]
      exact mem_cons_self
    · rw [← isToken']
      simp

/-! ### The stream -/

/-- What a stream still delivers is what the pass keeps of the buffer and the chunks to come. -/
theorem collect_feed (p : Parser) (chunks : List (List Char)) (m : Bool) :
    collect m (feed (push d) (finish d) p chunks) =
      (scan d p.currentInReasoning 0 (p.buffer ++ chunks.flatten)).1 m := by
  induction chunks generalizing p with
  | nil =>
    rw [flatten_nil, append_nil, ← (parseStableText_eq _ _).2]
    exact append_nil _
  | cons chunk chunks ih =>
    have pieces := scan_append (whole_stable (d := d) (p.buffer ++ chunk) chunks.flatten)
      p.currentInReasoning (Nat.zero_le _)
    rw [← append_assoc, take_append_drop, append_assoc] at pieces
    rw [flatten_cons, pieces, ← (parseStableText_eq _ _).2, ← (parseStableText_eq _ _).1]
    exact congrArg (_ ++ ·) (ih _)

end Pass

/-- However a text is split into chunks, its reasoning and its content are those of the pass. -/
theorem feed_eq_scan (mode m : Bool) (chunks : List (List Char)) :
    collect m (feed (push d) (finish d) ⟨mode, []⟩ chunks) = (scan d mode 0 chunks.flatten).1 m := by
  rw [collect_feed]
  rfl

/-! ### Gemma4 -/

def gemma4 : Delimiters where
  startToken := ['<', '|', 'c', 'h', 'a', 'n', 'n', 'e', 'l', '>']
  endToken := ['<', 'c', 'h', 'a', 'n', 'n', 'e', 'l', '|', '>']
  start_apart := by decide
  end_apart := by decide
  first := by simp

/-- `THOUGHT_PREFIX`. -/
def label : List Char := ['t', 'h', 'o', 'u', 'g', 'h', 't', '\n']

/-- The state of `strip_thought_prefix`. -/
structure LabelState where
  reasoningText : List Char := []
  prefixStripped : Bool := false

/-- `strip_thought_prefix`. The text kept from earlier deltas is ASCII, so characters count as
bytes do. -/
def stripThoughtPrefix (s : LabelState) (reasoning : List Char) :
    Option (List Char) × LabelState :=
  if s.prefixStripped then (some reasoning, s)
  else
    let text := s.reasoningText ++ reasoning
    if label <+: text then
      let previousLen := text.length - reasoning.length
      if label.length ≤ previousLen then (some reasoning, ⟨[], true⟩)
      else
        let stripped := reasoning.drop (min (label.length - previousLen) reasoning.length)
        if stripped = [] then
          (none, if label.length ≤ text.length then ⟨[], true⟩ else ⟨text, false⟩)
        else (some stripped, ⟨[], true⟩)
    else if text <+: label then (none, ⟨text, false⟩)
    else (some text, ⟨[], true⟩)

def postProcess (s : LabelState) (result : ReasoningDelta) : ReasoningDelta × LabelState :=
  match result.reasoning with
  | none => (result, s)
  | some reasoning =>
    let (text, s) := stripThoughtPrefix s reasoning
    ({ result with reasoning := text.filter (· ≠ []) }, s)

/-- `Gemma4ReasoningParser`. -/
structure Gemma4Parser extends LabelState where
  inner : Parser

/-- `push` or `finish`, as the inner parser does it. -/
def Gemma4Parser.process (p : Gemma4Parser) (inner : ReasoningDelta × Parser) :
    ReasoningDelta × Gemma4Parser :=
  let (result, s) := postProcess p.toLabelState inner.1
  (result, ⟨s, inner.2⟩)

def gemma4Feed : Gemma4Parser → List (List Char) → List ReasoningDelta :=
  feed (fun p delta => p.process (push gemma4 p.inner delta))
    (fun p => p.process (finish gemma4 p.inner))

/-- The text without one leading label. -/
def withoutLabel (text : List Char) : List Char :=
  if label <+: text then text.drop label.length else text

/-- What was delivered of the reasoning text so far. -/
def Delivered (s : LabelState) (text delivered : List Char) : Prop :=
  if s.prefixStripped then delivered = withoutLabel text ∧ (label <+: text ∨ ¬ text <+: label)
  else delivered = [] ∧ s.reasoningText = text ∧ text <+: label ∧ text ≠ label

section Label

variable {s : LabelState} {text delivered : List Char}

theorem withoutLabel_append (decided : label <+: text ∨ ¬ text <+: label) (more : List Char) :
    withoutLabel (text ++ more) = withoutLabel text ++ more := by
  by_cases labelled : label <+: text
  · rw [withoutLabel, withoutLabel, if_pos labelled, if_pos (labelled.trans (prefix_append _ _)),
      drop_append_of_le_length labelled.length_le]
  · have unlabelled : ¬ label <+: text ++ more := by
      intro isLabel
      rcases prefix_or_prefix_of_prefix isLabel (prefix_append _ _) with inside | begins
      · exact labelled inside
      · exact decided.resolve_left labelled begins
    rw [withoutLabel, withoutLabel, if_neg labelled, if_neg unlabelled]

theorem delivered_strip (sofar : Delivered s text delivered) (more : List Char) :
    Delivered (stripThoughtPrefix s more).2 (text ++ more)
      (delivered ++ (stripThoughtPrefix s more).1.getD []) := by
  unfold Delivered at sofar
  unfold stripThoughtPrefix
  split at sofar
  · rename_i stripped
    obtain ⟨rfl, decided⟩ := sofar
    rw [if_pos stripped, Delivered, if_pos stripped]
    refine ⟨(withoutLabel_append decided more).symm, ?_⟩
    exact decided.imp (·.trans (prefix_append _ _)) (mt (prefix_append _ _).trans)
  · rename_i waiting
    obtain ⟨rfl, isText, begins, ne⟩ := sofar
    rw [if_neg waiting, isText]
    have short : text.length < label.length :=
      lt_of_le_of_ne begins.length_le (fun same => ne (begins.eq_of_length same))
    simp only [length_append, Nat.add_sub_cancel, if_neg short.not_ge]
    split
    · rename_i labelled
      have enough := labelled.length_le
      rw [length_append] at enough
      have rest : withoutLabel (text ++ more) = more.drop (label.length - text.length) := by
        rw [withoutLabel, if_pos labelled, drop_append, drop_eq_nil_of_le short.le, nil_append]
      rw [Nat.min_eq_left (by omega), if_pos enough]
      split
      · rename_i empty
        exact ⟨rest.symm ▸ empty.symm, .inl labelled⟩
      · exact ⟨rest.symm, .inl labelled⟩
    · rename_i unlabelled
      split
      · rename_i still
        exact ⟨rfl, rfl, still, fun same => unlabelled (same ▸ prefix_rfl)⟩
      · rename_i other
        exact ⟨by rw [withoutLabel, if_neg unlabelled]; rfl, .inr other⟩

theorem delivered_postProcess (sofar : Delivered s text delivered) (delta : ReasoningDelta) :
    Delivered (postProcess s delta).2 (text ++ delta.text true)
        (delivered ++ (postProcess s delta).1.text true) ∧
      (postProcess s delta).1.text false = delta.text false := by
  rcases delta with ⟨_ | more, content⟩
  · simpa [postProcess, ReasoningDelta.text] using sofar
  · have same : ∀ text : Option (List Char), (text.filter (· ≠ [])).getD [] = text.getD [] := by
      rintro (_ | _ | _) <;> rfl
    have step := delivered_strip sofar more
    rw [← same] at step
    exact ⟨step, rfl⟩

/-- The Gemma4 stream beside the one of its inner parser. -/
theorem delivered_feed (sofar : Delivered s text delivered) (p : Parser)
    (chunks : List (List Char)) :
    let plain := feed (push gemma4) (finish gemma4) p chunks
    let deltas := gemma4Feed ⟨s, p⟩ chunks
    (∃ s', Delivered s' (text ++ collect true plain) (delivered ++ collect true deltas)) ∧
      collect false deltas = collect false plain := by
  induction chunks generalizing s text delivered p with
  | nil =>
    obtain ⟨step, content⟩ := delivered_postProcess sofar (finish gemma4 p).1
    simp only [gemma4Feed, feed, collect, flatMap_singleton]
    exact ⟨⟨_, step⟩, content⟩
  | cons chunk chunks ih =>
    obtain ⟨step, content⟩ := delivered_postProcess sofar (push gemma4 p chunk).1
    obtain ⟨⟨s', final⟩, contents⟩ := ih step (push gemma4 p chunk).2
    rw [append_assoc, append_assoc] at final
    exact ⟨⟨s', final⟩, congrArg₂ (· ++ ·) content contents⟩

theorem delivered_iff (final : Delivered s text delivered) :
    delivered = withoutLabel text ↔ (text <+: label → text = [] ∨ text = label) := by
  unfold Delivered at final
  split at final
  · obtain ⟨rfl, decided⟩ := final
    exact iff_of_true rfl fun begins =>
      .inr (begins.eq_of_length_le (decided.resolve_right (not_not_intro begins)).length_le)
  · obtain ⟨rfl, -, begins, ne⟩ := final
    have unlabelled : ¬ label <+: text := fun isLabel =>
      ne (begins.eq_of_length_le isLabel.length_le)
    rw [withoutLabel, if_neg unlabelled, eq_comm]
    exact ⟨fun empty _ => .inl empty, fun all => (all begins).resolve_right ne⟩

end Label

/-- The reasoning and the content between the delimiters of Gemma4. -/
def delimited (mode : Bool) (chunks : List (List Char)) : Bool → List Char :=
  (scan gemma4 mode 0 chunks.flatten).1

/-- Gemma4's stream delivers the reasoning without its label, and the content, exactly if the
reasoning is not a nonempty proper beginning of the label: that is withheld and never flushed. -/
theorem gemma4_delivers_iff (mode : Bool) (chunks : List (List Char)) :
    collect true (gemma4Feed ⟨{}, mode, []⟩ chunks) = withoutLabel (delimited mode chunks true) ∧
        collect false (gemma4Feed ⟨{}, mode, []⟩ chunks) = delimited mode chunks false ↔
      (delimited mode chunks true <+: label →
        delimited mode chunks true = [] ∨ delimited mode chunks true = label) := by
  have start : Delivered {} [] [] := ⟨rfl, rfl, nil_prefix, by decide⟩
  obtain ⟨⟨s, final⟩, content⟩ := delivered_feed start ⟨mode, []⟩ chunks
  rw [collect_feed] at final content
  exact (and_iff_left content).trans (delivered_iff final)

/-- The reasoning of `<|channel>th<channel|>` is lost. -/
theorem gemma4_loses_reasoning :
    collect true (gemma4Feed ⟨{}, false, []⟩ [gemma4.startToken, ['t', 'h'], gemma4.endToken]) = [] ∧
      withoutLabel (delimited false [gemma4.startToken, ['t', 'h'], gemma4.endToken] true) =
        ['t', 'h'] := by
  decide +kernel

end Vllm.Rust.Reasoning
