import Mathlib

/-!
Lossy UTF-8 decoding, byte by byte: a sequence that breaks off becomes one replacement
character, and so does each byte that cannot start a character.

A text that does not end in a replacement character was decoded up to a character boundary,
so decoding goes on after it as from the start (`decode_append`).
-/

namespace Vllm.Lib.Utf8

open List

def replacement : Char := Char.ofNat 0xFFFD

/-- Between characters, or inside of one: where its next byte has to be, its bits so far, and
how many bytes follow the next one. -/
inductive State where
  | ground
  | inside (low high code more : Nat)

def lead (b : Nat) : List Char × State :=
  if b < 0x80 then ([Char.ofNat b], .ground)
  else if 0xC2 ≤ b ∧ b ≤ 0xDF then ([], .inside 0x80 0xBF (b - 0xC0) 0)
  else if b = 0xE0 then ([], .inside 0xA0 0xBF 0 1)
  else if b = 0xED then ([], .inside 0x80 0x9F 0xD 1)
  else if 0xE1 ≤ b ∧ b ≤ 0xEF then ([], .inside 0x80 0xBF (b - 0xE0) 1)
  else if b = 0xF0 then ([], .inside 0x90 0xBF 0 2)
  else if 0xF1 ≤ b ∧ b ≤ 0xF3 then ([], .inside 0x80 0xBF (b - 0xF0) 2)
  else if b = 0xF4 then ([], .inside 0x80 0x8F 4 2)
  else ([replacement], .ground)

/-- One byte: the characters that are complete with it, and the state after it. -/
def step : State → Nat → List Char × State
  | .ground, b => lead b
  | .inside low high code more, b =>
    if (0x80 ≤ b ∧ b ≤ 0xBF) ∧ low ≤ b ∧ b ≤ high then
      if more = 0 then ([Char.ofNat (code * 0x40 + (b - 0x80))], .ground)
      else ([], .inside 0x80 0xBF (code * 0x40 + (b - 0x80)) (more - 1))
    else (replacement :: (lead b).1, (lead b).2)

/-- The bytes from a state on. -/
def run : State → List UInt8 → List Char × State
  | state, [] => ([], state)
  | state, b :: bytes =>
    let (text, after) := run (step state b.toNat).2 bytes
    ((step state b.toNat).1 ++ text, after)

/-- The end of the bytes. -/
def finish : State → List Char
  | .ground => []
  | .inside .. => [replacement]

def decodeFrom (state : State) (bytes : List UInt8) : List Char :=
  (run state bytes).1 ++ finish (run state bytes).2

def decode (bytes : List UInt8) : List Char := decodeFrom .ground bytes

/-- The text ends in a replacement character. -/
def EndsOpen (text : List Char) : Prop := text.getLast? = some replacement deriving Decidable

@[simp] theorem decode_nil : decode [] = [] := rfl

theorem endsOpen_append {text more : List Char} (some : more ≠ []) :
    EndsOpen (text ++ more) ↔ EndsOpen more := by
  obtain ⟨last, isLast⟩ := Option.ne_none_iff_exists'.mp (mt getLast?_eq_none_iff.mp some)
  rw [EndsOpen, EndsOpen, getLast?_append, isLast, Option.some_or]

theorem decodeFrom_cons (state : State) (b : UInt8) (bytes : List UInt8) :
    decodeFrom state (b :: bytes) =
      (step state b.toNat).1 ++ decodeFrom (step state b.toNat).2 bytes := by
  rw [decodeFrom, decodeFrom, run, append_assoc]

theorem decodeFrom_append (state : State) (a b : List UInt8) :
    decodeFrom state (a ++ b) = (run state a).1 ++ decodeFrom (run state a).2 b := by
  induction a generalizing state with
  | nil => rfl
  | cons byte a ih => rw [cons_append, decodeFrom_cons, ih, run, append_assoc]

theorem decode_append {a : List UInt8} (clean : ¬ EndsOpen (decode a)) (b : List UInt8) :
    decode (a ++ b) = decode a ++ decode b := by
  have whole : decode a = (run .ground a).1 ++ finish (run .ground a).2 := rfl
  rw [decode, decodeFrom_append, whole]
  rw [whole] at clean
  cases state : (run .ground a).2 with
  | ground =>
    rw [finish, append_nil]
    rfl
  | inside low high code more =>
    rw [state] at clean
    exact absurd getLast?_concat clean

/-- A byte between characters gives a character or starts one. -/
theorem lead_ne (b : Nat) : (lead b).1 ≠ [] ∨ ∃ low high code more,
    (lead b).2 = .inside low high code more := by
  unfold lead
  repeat' split
  all_goals simp

/-- A character that was started gives some text. -/
theorem decodeFrom_inside_ne_nil (bytes : List UInt8) (low high code more : Nat) :
    decodeFrom (.inside low high code more) bytes ≠ [] := by
  induction bytes generalizing low high code more with
  | nil => exact cons_ne_nil _ _
  | cons b bytes ih =>
    rw [decodeFrom_cons, step]
    split
    · split
      · exact cons_ne_nil _ _
      · exact ih _ _ _ _
    · exact cons_ne_nil _ _

theorem decode_eq_nil {bytes : List UInt8} : decode bytes = [] ↔ bytes = [] := by
  refine ⟨fun empty => ?_, fun empty => by rw [empty, decode_nil]⟩
  cases bytes with
  | nil => rfl
  | cons b bytes =>
    rw [decode, decodeFrom_cons, append_eq_nil_iff] at empty
    rcases lead_ne b.toNat with text | ⟨low, high, code, more, starts⟩
    · exact absurd empty.1 text
    · rw [step, starts] at empty
      exact absurd empty.2 (decodeFrom_inside_ne_nil _ _ _ _ _)

/-- A part that decodes without a replacement character starts a character, so what is before
it does not change it. -/
theorem exists_decode_append {b : List UInt8} (some : b ≠ []) (clean : replacement ∉ decode b)
    (a : List UInt8) : ∃ text, decode (a ++ b) = text ++ decode b := by
  cases b with
  | nil => exact absurd rfl some
  | cons byte b =>
    have starts : ¬ (0x80 ≤ byte.toNat ∧ byte.toNat ≤ 0xBF) := by
      intro inside
      refine clean ?_
      rw [decode, decodeFrom_cons, step, lead, if_neg (by omega), if_neg (by omega),
        if_neg (by omega), if_neg (by omega), if_neg (by omega), if_neg (by omega),
        if_neg (by omega), if_neg (by omega)]
      exact mem_cons_self
    rw [decode, decodeFrom_append]
    cases (run .ground a).2 with
    | ground => exact ⟨_, rfl⟩
    | inside low high code more =>
      have restarts : step (.inside low high code more) byte.toNat =
          (replacement :: (lead byte.toNat).1, (lead byte.toNat).2) := if_neg fun tail => starts tail.1
      refine ⟨(run .ground a).1 ++ [replacement], ?_⟩
      rw [decode, decodeFrom_cons, decodeFrom_cons, restarts, append_assoc]
      rfl

theorem not_endsOpen_append {b : List UInt8} (some : b ≠ []) (clean : replacement ∉ decode b)
    (a : List UInt8) : ¬ EndsOpen (decode (a ++ b)) := by
  obtain ⟨text, eq⟩ := exists_decode_append some clean a
  rw [eq, endsOpen_append fun empty => some (decode_eq_nil.mp empty)]
  exact fun openEnd => clean (mem_of_getLast? openEnd)

end Vllm.Lib.Utf8
