import Vllm.Engine.Detokenizer
import Vllm.Lib.Steps

/-!
What a detokenizer streams is what it ends with (`vllm/v1/engine/detokenizer.py`).

Between two updates the text may be asked for, and at the end the rest of it is. As long as the
request ends with the first update that reports a stop string, the text that was emitted is a
part of the output that no stop string takes back.
-/

namespace Vllm.Engine

open Vllm.Lib.Steps

variable {T D : Type}

/-- A call of `update`, or of `get_next_output_text` while the request runs. -/
inductive StreamCall (T : Type)
  | update (newTokenIds : List T) (stopTerminated : Bool)
  | next

/-- A detokenizer with the text that was emitted, and whether a stop string was reported. -/
structure TextStream (T D : Type) where
  detokenizer : Detokenizer T D
  emitted : List Char := []
  stopped : Bool := false

namespace TextStream

variable (decodeNext : List T → D → T → List Char × D) (params : DetokenizeParams)

def exec (s : TextStream T D) : StreamCall T → TextStream T D
  | .update newTokenIds stopTerminated =>
    let r := s.detokenizer.update decodeNext params newTokenIds stopTerminated
    { s with detokenizer := r.1, stopped := s.stopped || r.2.isSome }
  | .next =>
    let r := s.detokenizer.getNextOutputText params false true
    { s with detokenizer := r.1, emitted := s.emitted ++ r.2 }

/-- What has been emitted after `get_next_output_text(finished=True, delta=True)`. -/
def finish (s : TextStream T D) : List Char :=
  s.emitted ++ (s.detokenizer.getNextOutputText params true true).2

/-- No update comes after one that reported a stop string. -/
def Live (s : TextStream T D) : StreamCall T → Prop
  | .update _ _ => s.stopped = false
  | .next => True

instance (s : TextStream T D) : (call : StreamCall T) → Decidable (s.Live call)
  | .update _ _ => inferInstanceAs (Decidable (_ = _))
  | .next => inferInstanceAs (Decidable True)

/-- What was emitted is the output up to the offset, which later stop strings cannot reach. -/
structure Faithful (s : TextStream T D) : Prop where
  emitted : s.emitted = s.detokenizer.outputText.take s.detokenizer.lastOutputTextOffset
  le : s.detokenizer.lastOutputTextOffset ≤ s.detokenizer.outputText.length
  plain : params.detokenize = false → s.detokenizer.outputText = []
  held : s.stopped = false → s.detokenizer.Held params

variable {decodeNext params} {s : TextStream T D}

theorem Faithful.update (faithful : s.Faithful params) {newTokenIds : List T}
    {stopTerminated : Bool} (live : s.stopped = false) :
    (s.exec decodeNext params (.update newTokenIds stopTerminated)).Faithful params := by
  have updated := Detokenizer.updated decodeNext params s.detokenizer newTokenIds stopTerminated
  have held := faithful.held live
  obtain ⟨le, same⟩ := updated.kept faithful.le
    (held.stopsAfterSent decodeNext params newTokenIds stopTerminated)
  rw [← updated.lastOutputTextOffset] at le same
  constructor
  case emitted => exact faithful.emitted.trans (updated.lastOutputTextOffset ▸ same.symm)
  case le => exact le
  case plain => exact fun none => (updated.plain none).trans (faithful.plain none)
  case held =>
    intro running
    obtain ⟨-, none⟩ := Bool.or_eq_false_iff.mp running
    exact updated.held decodeNext params held (by simpa using none)

theorem Faithful.next (faithful : s.Faithful params) :
    (s.exec decodeNext params .next).Faithful params := by
  have handed := Detokenizer.handedOut params s.detokenizer false faithful.le faithful.plain
  constructor
  case emitted =>
    dsimp only [exec]
    rw [handed.outputText, handed.text, faithful.emitted]
  case le => exact handed.le.trans_eq (congrArg List.length handed.outputText.symm)
  case plain => exact fun none => handed.outputText.trans (faithful.plain none)
  case held => exact fun running => handed.held rfl (faithful.held running)

/-- If no update comes after one that reported a stop string, nothing is emitted that is not in
the output, and all of it in the end. -/
theorem finish_eq_outputText {calls : List (StreamCall T)} {decoder : D}
    (live : Along Live (exec decodeNext params) { detokenizer := { decoder } } calls) :
    let s := calls.foldl (exec decodeNext params) { detokenizer := { decoder } }
    s.emitted <+: s.detokenizer.outputText ∧ s.finish params = s.detokenizer.outputText := by
  intro s
  have faithful : s.Faithful params := by
    refine (Run.of_along live).invariant (Faithful params) ?_ ⟨rfl, le_rfl, fun _ => rfl, ?_⟩
    · rintro s (⟨newTokenIds, stopTerminated⟩ | _) _ faithful ⟨live, rfl⟩
      · exact faithful.update live
      · exact faithful.next
    · exact fun _ => .inl rfl
  have handed := Detokenizer.handedOut params s.detokenizer true faithful.le faithful.plain
  constructor
  · rw [faithful.emitted]
    exact List.take_prefix _ _
  · rw [finish, faithful.emitted, ← handed.text, handed.all rfl, List.take_length]

/-- Two stop strings, of two and of five characters, which are not to be in the output. -/
def twoStops : DetokenizeParams where
  detokenize := true
  stop := ["ab".toList, "bcdef".toList]
  stop_ne_nil := by decide
  minTokens := 0
  includeStopStrInOutput := false

/-- Every token is its own text. -/
def spell (_ : List (List Char)) (_ : Unit) (token : List Char) : List Char × Unit := (token, ())

/-- The stop string is completed by the second token; only the first character was emitted. -/
theorem finish_at_stop :
    let calls := [.update ["bcdea".toList] false, .next, .update ["b".toList] false]
    let s := calls.foldl (exec spell twoStops) { detokenizer := { decoder := () } }
    s.emitted = ['b'] ∧ s.finish twoStops = "bcde".toList := by
  refine ⟨by decide, (finish_eq_outputText ?_).2.trans (by decide)⟩
  decide

/-- If the request goes on after the first stop string, the second one may begin in what was
emitted, and takes it back. -/
theorem finish_after_stop :
    let calls := [.update ["bcdea".toList] false, .next, .update ["b".toList] false,
      .update ["f".toList] false]
    let s := calls.foldl (exec spell twoStops) { detokenizer := { decoder := () } }
    s.emitted = ['b'] ∧ s.detokenizer.outputText = [] ∧ s.finish twoStops = ['b'] := by
  decide

end TextStream

end Vllm.Engine
