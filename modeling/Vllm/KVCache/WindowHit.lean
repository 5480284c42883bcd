import Vllm.KVCache.Lookup
import Vllm.Lib.RunScan

/-!
`SlidingWindowManager.find_longest_cache_hit` against its specification: the longest
aligned length whose window is cached.

The loop from the right finds the last end that its run serves (`Vllm.Lib.RunScan`).
Without a match the blocks from the start are then trimmed to the alignment before the eagle
block is popped and once more after that, an alignment step too much; and a window of one
token needs no block, but the loop asks for one (`windowHit_iff`).
-/

namespace Vllm.KVCache

open Vllm.Lib.Ceil Vllm.Lib.Fallible Vllm.Lib.RunScan List

variable {H : Type}

/-! ### Specification -/

/-- The arguments of a lookup beside the cache and the hashes. -/
structure WindowQuery where
  window : Nat
  blockSize : Nat
  maxLength : Nat
  alignmentTokens : Nat
  dropEagleBlock : Bool

open WindowQuery

namespace WindowQuery

variable (q : WindowQuery)

def eagleBlocks : Nat := if q.dropEagleBlock then 1 else 0

/-- The blocks that a hit needs: `ceil((window - 1) / block_size)`, and the eagle block. -/
def need : Nat := cdiv (q.window - 1) q.blockSize + q.eagleBlocks

def maxNumBlocks : Nat := q.maxLength / q.blockSize

end WindowQuery

/-- The block is cached in every group. -/
def Hits (lookup : Nat → Except KVError (Option Row)) (i : Nat) : Prop :=
  ∃ row, lookup i = .ok (some row)

/-- `L` blocks are within the maximal length with the eagle block, they are aligned, and
the blocks of the window before their end are cached, as far as there are so many. -/
structure Accepts (lookup : Nat → Except KVError (Option Row)) (q : WindowQuery) (L : Nat) :
    Prop where
  fits : (L + q.eagleBlocks) * q.blockSize ≤ q.maxLength
  aligned : q.alignmentTokens ∣ L * q.blockSize
  run : RunBefore (Hits lookup) q.need (L + q.eagleBlocks)

/-- The longest length that is accepted, zero if there is none. -/
def Longest (lookup : Nat → Except KVError (Option Row)) (q : WindowQuery) (L : Nat) : Prop :=
  (Accepts lookup q L ∨ (L = 0 ∧ ∀ L', ¬ Accepts lookup q L')) ∧ ∀ L', Accepts lookup q L' → L' ≤ L

/-- The hit has the longest length, the cached blocks in its window and null blocks before
them. -/
structure WindowHit (lookup : Nat → Except KVError (Option Row)) (numGroups : Nat)
    (q : WindowQuery) (rows : List Row) : Prop where
  longest : Longest lookup q rows.length
  inside : ∀ i row, rows[i]? = some row → rows.length + q.eagleBlocks - q.need ≤ i →
    lookup i = .ok (some row)
  outside : ∀ i row, rows[i]? = some row → i < rows.length + q.eagleBlocks - q.need →
    row = nullRow numGroups

/-! ### The loop -/

section Loop

variable {lookup : Nat → Except KVError (Option Row)} {numGroups : Nat}

/-- A run of blocks ends at an aligned place, after the eagle pop if there is one. -/
def IsEnd (q : WindowQuery) (e : Nat) : Prop := q.alignmentTokens ∣ (e - q.eagleBlocks) * q.blockSize

theorem isEnd_iff (q : WindowQuery) (i : Nat) :
    IsEnd q (i + 1) ↔ ¬ EndsUnaligned q.blockSize q.dropEagleBlock q.alignmentTokens i := by
  have same : i + 1 - q.eagleBlocks = if q.dropEagleBlock then i else i + 1 := by
    unfold eagleBlocks
    split <;> omega
  rw [IsEnd, same]
  refine ⟨?_, fun aligned => runAligned_of_not_endsUnaligned aligned Nat.one_pos⟩
  rintro aligned ⟨-, rest⟩
  exact rest (Nat.mod_eq_zero_of_dvd aligned)

theorem isEnd_zero (q : WindowQuery) : IsEnd q 0 := by
  rw [IsEnd, Nat.zero_sub, Nat.zero_mul]
  exact Nat.dvd_zero _

/-- What the loop needs to know of the rows: null rows before `i`, hits in the run. -/
structure RowsSoFar (lookup : Nat → Except KVError (Option Row)) (numGroups m i k : Nat)
    (computed : List Row) : Prop where
  length : computed.length = m
  before : ∀ j row, j < i → computed[j]? = some row → row = nullRow numGroups
  running : ∀ j row, i ≤ j → j < i + k → computed[j]? = some row → lookup j = .ok (some row)

variable {m i k : Nat} {computed : List Row}

theorem RowsSoFar.shrink (rows : RowsSoFar lookup numGroups m (i + 1) k computed) :
    RowsSoFar lookup numGroups m i 0 computed where
  length := rows.length
  before j row lt := rows.before j row (by omega)
  running j row _ _ := by omega

theorem RowsSoFar.set {row : Row} (rows : RowsSoFar lookup numGroups m (i + 1) k computed)
    (found : lookup i = .ok (some row)) :
    RowsSoFar lookup numGroups m i (k + 1) (computed.set i row) where
  length := by rw [length_set, rows.length]
  before j other lt at_j := by
    rw [List.getElem?_set_ne (by omega)] at at_j
    exact rows.before j other (by omega) at_j
  running j other after before at_j := by
    rcases eq_or_ne i j with rfl | same
    · obtain ⟨inside, -⟩ := List.getElem?_eq_some_iff.mp at_j
      rw [length_set] at inside
      rw [getElem?_set_self inside] at at_j
      cases at_j
      exact found
    · rw [getElem?_set_ne same] at at_j
      exact rows.running j other (by omega) (by omega) at_j

/-- What the loop returns: the last end `e` that is served. A match was found if `e` has
room for a whole run, and then the rows end at `e`. -/
structure Scanned (lookup : Nat → Except KVError (Option Row)) (numGroups : Nat) (q : WindowQuery)
    (need e : Nat) (rows : List Row) (contiguous : Nat) (found : Bool) : Prop where
  last : LastRun (Hits lookup) (IsEnd q) need q.maxNumBlocks e
  matched : found = true → need ≤ e ∧ rows.length = e
  unmatched : found = false → e < need ∧ contiguous = e ∧ rows.length = q.maxNumBlocks
  inside : ∀ i row, (rows.take e)[i]? = some row → e - need ≤ i → lookup i = .ok (some row)
  outside : ∀ i row, (rows.take e)[i]? = some row → i < e - need → row = nullRow numGroups

theorem slidingWindowLoop_scanned {q : WindowQuery} {need : Nat} {rows : List Row}
    {contiguous : Nat} {found : Bool}
    (scan : Scanning (Hits lookup) (IsEnd q) need q.maxNumBlocks i k)
    (soFar : RowsSoFar lookup numGroups q.maxNumBlocks i k computed)
    (run : slidingWindowLoop lookup need q.blockSize q.dropEagleBlock q.alignmentTokens i computed k =
      .ok (rows, contiguous, found)) :
    ∃ e, Scanned lookup numGroups q need e rows contiguous found := by
  induction i generalizing computed k with
  | zero =>
    cases run
    have short := scan.short
    refine ⟨contiguous, scan.finish, fun none => (nomatch none),
      fun _ => ⟨short, rfl, soFar.length⟩, ?_, ?_⟩
    · intro i row at_i _
      rw [getElem?_take] at at_i
      split at at_i
      · exact soFar.running i row (Nat.zero_le i) (by omega) at_i
      · cases at_i
    · omega
  | succ i ih =>
    obtain ⟨hit, looked, run⟩ := bind_eq_ok.mp run
    cases hit with
    | none =>
      have missed : ¬ Hits lookup i := by
        rintro ⟨row, hit⟩
        rw [looked] at hit
        cases hit
      exact ih (scan.miss missed) soFar.shrink run
    | some row =>
      dsimp only at run
      split at run
      · rename_i skipped
        obtain ⟨rfl, unaligned⟩ := skipped
        exact ih (scan.skip fun ends => (isEnd_iff q i).mp ends unaligned) soFar.shrink run
      · rename_i counted
        have opens : k = 0 → IsEnd q (i + 1) := fun first =>
          (isEnd_iff q i).mpr fun unaligned => counted ⟨first, unaligned⟩
        have set := soFar.set looked
        split at run
        · rename_i enough
          cases run
          have last := scan.found ⟨row, looked⟩ opens enough
          have short := scan.short
          have length : ((computed.set i row).take (i + (k + 1))).length = i + (k + 1) := by
            rw [length_take, set.length, Nat.min_eq_left last.le]
          refine ⟨i + (k + 1), last, fun _ => ⟨by omega, length⟩, fun none => (nomatch none),
            ?_, ?_⟩
          · intro j other at_j after
            rw [take_take, getElem?_take] at at_j
            split at at_j
            · exact set.running j other (by omega) (by omega) at_j
            · cases at_j
          · intro j other at_j before
            rw [take_take, Nat.min_self, getElem?_take] at at_j
            split at at_j
            · exact set.before j other (by omega) at_j
            · cases at_j
        · exact ih (scan.extend ⟨row, looked⟩ opens (by omega)) set run

/-- A window of one token needs no block, but the loop stops at its first one. -/
theorem slidingWindowLoop_zero (q : WindowQuery) (i : Nat) (computed : List Row) (k : Nat) :
    slidingWindowLoop lookup 0 q.blockSize q.dropEagleBlock q.alignmentTokens i computed k =
      slidingWindowLoop lookup 1 q.blockSize q.dropEagleBlock q.alignmentTokens i computed k := by
  induction i generalizing computed k with
  | zero => rfl
  | succ i ih =>
    unfold slidingWindowLoop
    congr 1
    funext hit
    cases hit with
    | none => exact ih computed 0
    | some row =>
      dsimp only
      split
      · exact ih computed k
      · rw [if_pos (Nat.zero_le _), if_pos (by omega)]

theorem slidingWindowLoop_ok (q : WindowQuery) (need : Nat)
    (covered : ∀ j < i, ∃ hit, lookup j = .ok hit) (computed : List Row) (k : Nat) :
    ∃ out, slidingWindowLoop lookup need q.blockSize q.dropEagleBlock q.alignmentTokens i computed k =
      .ok out := by
  induction i generalizing computed k with
  | zero => exact ⟨_, rfl⟩
  | succ i ih =>
    have below : ∀ j < i, ∃ hit, lookup j = .ok hit := fun j lt => covered j (by omega)
    obtain ⟨hit, looked⟩ := covered i (Nat.lt_succ_self i)
    unfold slidingWindowLoop
    rw [looked]
    cases hit with
    | none => exact ih below computed 0
    | some row =>
      dsimp only
      split
      · exact ih below computed k
      · split
        · exact ⟨_, rfl⟩
        · exact ih below _ _

end Loop

/-! ### After the loop -/

section Hit

variable {lookup : Nat → Except KVError (Option Row)} {numGroups : Nat} {q : WindowQuery}
  {L e : Nat}

variable {blockSize align n : Nat} {rows : List Row}

theorem popUnaligned_of_dvd (aligned : align ∣ n * blockSize) :
    popUnaligned blockSize align n = n := by
  cases n with
  | zero => rfl
  | succ n =>
    rw [popUnaligned, if_neg]
    rintro ⟨-, rest⟩
    exact rest (Nat.mod_eq_zero_of_dvd aligned)

theorem trimUnaligned_of_dvd (aligned : align ∣ rows.length * blockSize) :
    trimUnaligned blockSize align rows = rows := by
  rw [trimUnaligned, popUnaligned_of_dvd aligned, take_length]

/-- A length is accepted if the end of its run, with the eagle block, is served. -/
theorem accepts_iff (pos : 0 < q.blockSize) : Accepts lookup q L ↔
    L + q.eagleBlocks ≤ q.maxNumBlocks ∧ IsEnd q (L + q.eagleBlocks) ∧
      RunBefore (Hits lookup) q.need (L + q.eagleBlocks) := by
  have ends : IsEnd q (L + q.eagleBlocks) ↔ q.alignmentTokens ∣ L * q.blockSize := by
    rw [IsEnd, Nat.add_sub_cancel]
  rw [ends, maxNumBlocks, Nat.le_div_iff_mul_le pos]
  exact ⟨fun accepted => ⟨accepted.fits, accepted.aligned, accepted.run⟩,
    fun ⟨fits, aligned, run⟩ => ⟨fits, aligned, run⟩⟩

theorem Longest.unique {L' : Nat} (longest : Longest lookup q L) (longest' : Longest lookup q L') :
    L = L' := by
  have le : ∀ {a b}, Longest lookup q a → Longest lookup q b → a ≤ b := by
    rintro a b ⟨accepted | ⟨zero, -⟩, -⟩ ⟨-, longest⟩
    · exact longest a accepted
    · omega
  exact Nat.le_antisymm (le longest longest') (le longest' longest)

/-- The last end that is served gives the longest length. -/
theorem longest_of_lastRun (pos : 0 < q.blockSize)
    (last : LastRun (Hits lookup) (IsEnd q) q.need q.maxNumBlocks e) :
    Longest lookup q (e - q.eagleBlocks) := by
  have bound : ∀ L', Accepts lookup q L' → L' + q.eagleBlocks ≤ e := by
    intro L' accepted
    obtain ⟨fits, ends, run⟩ := (accepts_iff pos).mp accepted
    by_contra beyond
    exact last.none_after _ (by omega) fits ends run
  refine ⟨?_, fun L' accepted => by have := bound L' accepted; omega⟩
  by_cases room : q.eagleBlocks ≤ e
  · left
    rw [accepts_iff pos, Nat.sub_add_cancel room]
    exact ⟨last.le, last.atEnd (isEnd_zero q), last.run⟩
  · right
    refine ⟨by omega, fun L' accepted => ?_⟩
    have := bound L' accepted
    omega

/-- The lookup over the arguments as one record. -/
def windowHit (lookup : Nat → Except KVError (Option Row)) (numGroups : Nat) (q : WindowQuery) :
    Except KVError (List Row) :=
  slidingWindowHit lookup numGroups q.window q.maxLength q.blockSize q.dropEagleBlock
    q.alignmentTokens

/-- What is left of the blocks up to the last end. -/
def settle (q : WindowQuery) (found : Bool) (front : List Row) : List Row :=
  let hits := if found then front else trimUnaligned q.blockSize q.alignmentTokens front
  if q.dropEagleBlock then trimUnaligned q.blockSize q.alignmentTokens hits.dropLast else hits

theorem windowHit_scanned (run : windowHit lookup numGroups q = .ok rows) :
    ∃ e computed contiguous found,
      Scanned lookup numGroups q (max 1 q.need) e computed contiguous found ∧
      rows = settle q found (computed.take e) := by
  obtain ⟨⟨computed, contiguous, found⟩, loop, run⟩ := bind_eq_ok.mp run
  have same : slidingWindowLoop lookup (max 1 q.need) q.blockSize q.dropEagleBlock
      q.alignmentTokens q.maxNumBlocks (replicate q.maxNumBlocks (nullRow numGroups)) 0 =
      .ok (computed, contiguous, found) := by
    rcases Nat.eq_zero_or_pos q.need with none | some
    · have zero : contiguousBlocksForHit q.window q.blockSize q.dropEagleBlock = 0 := none
      rw [zero] at loop
      rw [none, Nat.max_eq_left (Nat.zero_le 1), ← slidingWindowLoop_zero]
      exact loop
    · rw [Nat.max_eq_right some]
      exact loop
  obtain ⟨e, scanned⟩ := slidingWindowLoop_scanned (.start _ (by omega))
    ⟨length_replicate,
      fun j row _ at_j => eq_of_mem_replicate (mem_of_getElem? at_j),
      fun j row _ _ => by omega⟩ same
  refine ⟨e, computed, contiguous, found, scanned, ?_⟩
  have front : (if found then computed else
      trimUnaligned q.blockSize q.alignmentTokens (computed.take contiguous)) =
      if found then computed.take e else
        trimUnaligned q.blockSize q.alignmentTokens (computed.take e) := by
    cases found with
    | true =>
      rw [if_pos rfl, if_pos rfl, take_of_length_le (Nat.le_of_eq (scanned.matched rfl).2)]
    | false => rw [if_neg nofun, if_neg nofun, (scanned.unmatched rfl).2.1]
  unfold settle
  rw [← front]
  cases drop : q.dropEagleBlock with
  | false | true =>
    rw [drop] at run
    cases run
    rfl

section Settle

variable {need contiguous : Nat} {found : Bool} {computed : List Row}

section

variable (scanned : Scanned lookup numGroups q need e computed contiguous found)
include scanned

theorem Scanned.length_front : (computed.take e).length = e := by
  rw [length_take]
  cases found with
  | true => rw [(scanned.matched rfl).2, Nat.min_self]
  | false => rw [(scanned.unmatched rfl).2.2, Nat.min_eq_left scanned.last.le]

theorem Scanned.aligned : q.alignmentTokens ∣ (e - q.eagleBlocks) * q.blockSize :=
  scanned.last.atEnd (isEnd_zero q)

/-- Both trims are harmless after a match, when every length is aligned, and when there is
nothing beside the eagle block. -/
theorem Scanned.settle_eq
    (harmless : q.dropEagleBlock = true → found = true ∨ q.blockSize = q.alignmentTokens ∨ e ≤ 1) :
    settle q found (computed.take e) = (computed.take e).take (e - q.eagleBlocks) := by
  have length := scanned.length_front
  have aligned := scanned.aligned
  unfold settle eagleBlocks at *
  cases drop : q.dropEagleBlock with
  | false =>
    rw [drop] at aligned
    have whole : trimUnaligned q.blockSize q.alignmentTokens (computed.take e) =
        computed.take e := trimUnaligned_of_dvd (by rw [length]; exact aligned)
    rw [whole, ite_self, if_neg nofun, if_neg nofun, Nat.sub_zero, take_take, Nat.min_self]
  | true =>
    rw [drop] at aligned
    rw [if_pos rfl, if_pos rfl]
    have popped : (computed.take e).dropLast = (computed.take e).take (e - 1) := by
      rw [dropLast_eq_take, length]
    have last : trimUnaligned q.blockSize q.alignmentTokens (computed.take e).dropLast =
        (computed.take e).take (e - 1) := by
      rw [popped]
      apply trimUnaligned_of_dvd
      rw [length_take, length, Nat.min_eq_left (Nat.sub_le e 1)]
      exact aligned
    rcases harmless drop with isFound | equal | few
    · rw [if_pos isFound, last]
    · have whole : trimUnaligned q.blockSize q.alignmentTokens (computed.take e) =
          computed.take e := by
        apply trimUnaligned_of_dvd
        rw [equal]
        exact Nat.dvd_mul_left _ _
      rw [whole, ite_self, last]
    · -- At most one row is left to pop.
      have empty : ∀ rows : List Row, rows.length ≤ 1 → rows.dropLast = [] := by
        intro rows short
        apply eq_nil_of_length_eq_zero
        rw [length_dropLast]
        omega
      have short : (if found = true then computed.take e else
          trimUnaligned q.blockSize q.alignmentTokens (computed.take e)).length ≤ 1 := by
        split
        · omega
        · exact Nat.le_trans (length_trimUnaligned_le _ _ _) (by omega)
      rw [empty _ short, show e - 1 = 0 by omega]
      rfl

/-- Without a match the first trim takes the eagle block already, and the second one then
takes a whole step of the alignment. -/
theorem Scanned.settle_short (multiple : q.blockSize ∣ q.alignmentTokens)
    (drop : q.dropEagleBlock = true) (notFound : found = false)
    (ne : q.blockSize ≠ q.alignmentTokens) (several : 1 < e) :
    (settle q found (computed.take e)).length < e - 1 := by
  have length := scanned.length_front
  have aligned := scanned.aligned
  rw [eagleBlocks, drop] at aligned
  obtain ⟨n, rfl⟩ : ∃ n, e = n + 1 := ⟨e - 1, by omega⟩
  have first : popUnaligned q.blockSize q.alignmentTokens (n + 1) = n := by
    -- Two consecutive lengths are aligned only when a block is.
    have rest : ¬ q.alignmentTokens ∣ (n + 1) * q.blockSize := by
      intro next
      rw [Nat.succ_mul] at next
      exact ne (Nat.dvd_antisymm multiple ((Nat.dvd_add_right aligned).mp next))
    rw [Nat.dvd_iff_mod_eq_zero] at rest
    rw [popUnaligned, if_pos ⟨ne, rest⟩]
    exact popUnaligned_of_dvd aligned
  have popped := length_trimUnaligned_le q.blockSize q.alignmentTokens
    (trimUnaligned q.blockSize q.alignmentTokens (computed.take (n + 1))).dropLast
  rw [length_dropLast] at popped
  have whole : (trimUnaligned q.blockSize q.alignmentTokens (computed.take (n + 1))).length ≤ n := by
    rw [trimUnaligned, length, first]
    exact length_take_le _ _
  unfold settle
  rw [drop, if_pos rfl, notFound, if_neg Bool.false_ne_true]
  omega

end

theorem Scanned.windowHit (pos : 0 < q.blockSize)
    (scanned : Scanned lookup numGroups q q.need e computed contiguous found) :
    WindowHit lookup numGroups q ((computed.take e).take (e - q.eagleBlocks)) := by
  have length : ((computed.take e).take (e - q.eagleBlocks)).length = e - q.eagleBlocks := by
    rw [length_take, scanned.length_front, Nat.min_eq_left (Nat.sub_le _ _)]
  have at_front : ∀ i row, ((computed.take e).take (e - q.eagleBlocks))[i]? = some row →
      i < e - q.eagleBlocks ∧ (computed.take e)[i]? = some row := by
    intro i row at_i
    rw [getElem?_take] at at_i
    split at at_i
    · rename_i lt
      exact ⟨lt, at_i⟩
    · cases at_i
  constructor
  case longest =>
    rw [length]
    exact longest_of_lastRun pos scanned.last
  case inside =>
    intro i row at_i after
    obtain ⟨lt, at_i⟩ := at_front i row at_i
    exact scanned.inside i row at_i (by omega)
  case outside =>
    intro i row at_i before
    obtain ⟨lt, at_i⟩ := at_front i row at_i
    exact scanned.outside i row at_i (by omega)

end Settle

/-- The hit without the eagle drop. Length and lookups determine the rows. -/
structure KeptHit (lookup : Nat → Except KVError (Option Row)) (numGroups : Nat) (q : WindowQuery)
    (rows : List Row) : Prop where
  last : LastRun (Hits lookup) (IsEnd q) (max 1 q.need) q.maxNumBlocks rows.length
  inside : ∀ i row, rows[i]? = some row → rows.length - max 1 q.need ≤ i → lookup i = .ok (some row)
  outside : ∀ i row, rows[i]? = some row → i < rows.length - max 1 q.need → row = nullRow numGroups

theorem windowHit_kept (keeps : q.dropEagleBlock = false)
    (run : windowHit lookup numGroups q = .ok rows) : KeptHit lookup numGroups q rows := by
  obtain ⟨e, computed, contiguous, found, scanned, isRows⟩ := windowHit_scanned run
  rw [scanned.settle_eq fun drop => absurd drop (by rw [keeps]; nofun)] at isRows
  have front : rows = computed.take e := by
    rw [isRows, eagleBlocks, keeps, if_neg nofun, Nat.sub_zero, take_take,
      Nat.min_self]
  have length : rows.length = e := by
    rw [front]
    exact scanned.length_front
  constructor
  case last =>
    rw [length]
    exact scanned.last
  case inside =>
    intro i row at_i after
    rw [length] at after
    rw [front] at at_i
    exact scanned.inside i row at_i after
  case outside =>
    intro i row at_i before
    rw [length] at before
    rw [front] at at_i
    exact scanned.outside i row at_i before

/-! ### Lengths -/

section Lengths

variable {maxLength blockSize align : Nat} {drop : Bool}

theorem slidingWindowHit_length {window : Nat}
    (run : slidingWindowHit lookup numGroups window maxLength blockSize drop align = .ok rows) :
    HitLength blockSize align maxLength drop rows := by
  obtain ⟨e, computed, contiguous, found, scanned, rfl⟩ :=
    windowHit_scanned (q := ⟨window, blockSize, maxLength, align, drop⟩) run
  have length := scanned.length_front
  have bound : e ≤ maxLength / blockSize := scanned.last.le
  cases drop with
  | false =>
    rw [scanned.settle_eq nofun]
    refine ⟨?_, Nat.le_trans (length_take_le _ _) (Nat.le_trans (Nat.sub_le _ _) bound), nofun⟩
    rw [length_take, length, Nat.min_eq_left (Nat.sub_le _ _)]
    exact scanned.aligned
  | true =>
    change HitLength _ _ _ true (trimUnaligned blockSize align (if found then computed.take e
      else trimUnaligned blockSize align (computed.take e)).dropLast)
    have hits : (if found then computed.take e
        else trimUnaligned blockSize align (computed.take e)).length ≤ e := by
      split
      · exact Nat.le_of_eq length
      · exact Nat.le_trans (length_trimUnaligned_le _ _ _) (Nat.le_of_eq length)
    have le := length_trimUnaligned_le blockSize align (if found then computed.take e
      else trimUnaligned blockSize align (computed.take e)).dropLast
    rw [length_dropLast] at le
    refine ⟨dvd_trimUnaligned _, by omega, fun _ nonempty => ?_⟩
    have pos := length_pos_iff.mpr nonempty
    omega

/-- The loop of Mamba looks for one block. -/
theorem mambaLoop_lastRun {m : Nat}
    (scan : Scanning (Hits lookup) (fun e => align ∣ e * blockSize) 1 m i 0)
    (run : mambaLoop lookup numGroups blockSize align i = .ok rows) :
    LastRun (Hits lookup) (fun e => align ∣ e * blockSize) 1 m rows.length := by
  induction i with
  | zero =>
    cases run
    exact scan.finish
  | succ i ih =>
    obtain ⟨hit, looked, run⟩ := bind_eq_ok.mp run
    cases hit with
    | none =>
      refine ih (scan.miss ?_) run
      rintro ⟨row, hit⟩
      rw [looked] at hit
      cases hit
    | some row =>
      dsimp only at run
      split at run
      · rename_i unaligned
        exact ih (scan.skip fun aligned => unaligned.2 (Nat.mod_eq_zero_of_dvd aligned)) run
      · rename_i aligned
        cases run
        rw [length_append, length_replicate]
        have aligned : RunAligned blockSize align false (i + 1) 1 :=
          runAligned_of_not_endsUnaligned aligned
        exact scan.found ⟨row, looked⟩ (fun _ => aligned Nat.one_pos) (Nat.le_refl 1)

theorem mambaHit_length (run : mambaHit lookup numGroups maxLength blockSize align = .ok rows) :
    HitLength blockSize align maxLength false rows := by
  have last := mambaLoop_lastRun (.start _ Nat.one_pos) run
  exact ⟨last.atEnd (by rw [Nat.zero_mul]; exact Nat.dvd_zero _), last.le, nofun⟩

/-- Every manager's hit is aligned and within the maximal length; all but Mamba's
leave room for the eagle block they dropped. -/
theorem findLongestCacheHit_length {p : BlockPool H} {hashes : List H} {hashBlockSize : Nat}
    {groupIds : List Nat} {spec : KVCacheSpec} {cp : Nat}
    (run : findLongestCacheHit p hashes hashBlockSize maxLength groupIds spec cp drop align =
      .ok rows) :
    HitLength (spec.blockSize * cp) align maxLength
      (drop && !spec.kind matches .mamba _ _) rows := by
  rw [findLongestCacheHit] at run
  by_cases unsupported : cp ≠ 1 ∧ ¬ spec.isFullAttention
  · rw [if_pos unsupported] at run
    cases run
  rw [if_neg unsupported] at run
  cases kind : spec.kind with
  | fullAttention =>
    simp only [kind] at run
    simpa using fullAttentionHit_length run
  | slidingWindow w =>
    simp only [kind] at run
    simpa using slidingWindowHit_length run
  | chunkedLocalAttention c =>
    simp only [kind] at run
    simpa using chunkedLocalHit_length run
  | mamba mode k =>
    simp only [kind] at run
    simpa using mambaHit_length run
  | crossAttention =>
    simp only [kind] at run
    cases run

end Lengths

/-! ### When the lookup meets its specification -/

/-- With the eagle drop: either a block is aligned, or the longest length is not one that
lies within the first window. Without it: the window reaches back, or nothing can be hit. -/
def SearchExact (lookup : Nat → Except KVError (Option Row)) (q : WindowQuery) : Prop :=
  if q.dropEagleBlock then
    q.blockSize = q.alignmentTokens ∨ ∀ L, 0 < L → L + 1 < q.need → ¬ Longest lookup q L
  else
    2 ≤ q.window ∨ ∀ L, 0 < L → L * q.blockSize ≤ q.maxLength → ¬ q.alignmentTokens ∣ L * q.blockSize

theorem need_pos_iff (pos : 0 < q.blockSize) (keeps : q.dropEagleBlock = false) :
    0 < q.need ↔ 2 ≤ q.window := by
  rw [need, eagleBlocks, keeps, if_neg nofun, Nat.add_zero, lt_cdiv_iff pos]
  omega

theorem windowHit_spec_keep (pos : 0 < q.blockSize) (keeps : q.dropEagleBlock = false)
    (cached : ∀ i row, lookup i = .ok (some row) → row ≠ nullRow numGroups)
    (run : windowHit lookup numGroups q = .ok rows) :
    WindowHit lookup numGroups q rows ↔ SearchExact lookup q := by
  have kept := windowHit_kept keeps run
  have noEagle : q.eagleBlocks = 0 := by
    rw [eagleBlocks, keeps, if_neg nofun]
  rw [SearchExact, keeps, ← need_pos_iff pos keeps]
  rcases Nat.eq_zero_or_pos q.need with none | some
  · constructor
    · -- Every aligned length is accepted, so the hit ends with a block that is cached
      -- where the specification has a null block.
      intro hit
      right
      intro L positive fits aligned
      have accepted : Accepts lookup q L := by
        refine ⟨by rw [noEagle]; exact fits, aligned, ?_⟩
        intro i after before
        omega
      have le := hit.longest.2 L accepted
      obtain ⟨row, last⟩ : ∃ row, rows[rows.length - 1]? = some row :=
        ⟨_, getElem?_eq_getElem (by omega)⟩
      have isNull := hit.outside _ row last (by rw [none]; omega)
      exact cached _ _ (kept.inside _ row last (by omega)) isNull
    · rintro (none' | nothing)
      · omega
      · have empty : rows = [] := by
          by_contra nonempty
          have positive := length_pos_iff.mpr nonempty
          have fits := kept.last.le
          rw [maxNumBlocks, Nat.le_div_iff_mul_le pos] at fits
          have aligned := kept.last.ends positive
          rw [IsEnd, noEagle] at aligned
          exact nothing _ positive fits aligned
        rw [empty]
        have start : Accepts lookup q 0 := by
          refine ⟨by rw [noEagle]; omega, by rw [Nat.zero_mul]; exact Nat.dvd_zero _, ?_⟩
          intro i _ before
          omega
        refine ⟨⟨.inl start, fun L accepted => ?_⟩, nofun, nofun⟩
        by_contra positive
        have fits := accepted.fits
        rw [noEagle] at fits
        exact nothing L (Nat.lt_of_not_le positive) fits accepted.aligned
  · refine ⟨fun _ => .inl some, fun _ => ⟨?_, fun i row at_i after => ?_, fun i row at_i before => ?_⟩⟩
    · have last := kept.last
      rw [Nat.max_eq_right some] at last
      have longest := longest_of_lastRun pos last
      rwa [noEagle] at longest
    · exact kept.inside i row at_i (by omega)
    · exact kept.outside i row at_i (by omega)

theorem windowHit_spec_drop (pos : 0 < q.blockSize) (multiple : q.blockSize ∣ q.alignmentTokens)
    (drop : q.dropEagleBlock = true) (run : windowHit lookup numGroups q = .ok rows) :
    WindowHit lookup numGroups q rows ↔ SearchExact lookup q := by
  obtain ⟨e, computed, contiguous, found, scanned, isRows⟩ := windowHit_scanned run
  have eagle : q.eagleBlocks = 1 := by
    rw [eagleBlocks, drop, if_pos rfl]
  have some : 1 ≤ q.need := by
    rw [need]
    omega
  rw [Nat.max_eq_right some] at scanned
  have longest := longest_of_lastRun pos scanned.last
  rw [eagle] at longest
  rw [SearchExact, drop]
  by_cases harmless : found = true ∨ q.blockSize = q.alignmentTokens ∨ e ≤ 1
  · rw [isRows, scanned.settle_eq fun _ => harmless]
    refine ⟨fun _ => ?_, fun _ => scanned.windowHit pos⟩
    -- The longest length is `e - 1`, which is not one of those in question.
    rcases harmless with isFound | equal | few
    · right
      intro L _ inside isLongest
      have := (scanned.matched isFound).1
      have := isLongest.unique longest
      omega
    · exact .inl equal
    · right
      intro L positive _ isLongest
      have := isLongest.unique longest
      omega
  · obtain ⟨notFound, ne, several⟩ : found = false ∧ q.blockSize ≠ q.alignmentTokens ∧ 1 < e := by
      refine ⟨by simpa using fun isFound => harmless (.inl isFound),
        fun equal => harmless (.inr (.inl equal)), ?_⟩
      exact Nat.lt_of_not_le fun few => harmless (.inr (.inr few))
    have short := scanned.settle_short multiple drop notFound ne several
    rw [← isRows] at short
    constructor
    · intro hit
      have := hit.longest.unique longest
      omega
    · rintro (equal | notWithin)
      · exact absurd equal ne
      · have := (scanned.unmatched notFound).1
        exact absurd longest (notWithin (e - 1) (by omega) (by omega))

end Hit

/-- The hash list has all blocks that the lookup asks for; a list of a coarser granularity
never runs out. -/
def HashesReach (blockHashes : List H) (hashBlockSize : Nat) (q : WindowQuery) : Prop :=
  q.blockSize / hashBlockSize = 1 → q.maxNumBlocks ≤ blockHashes.length

variable {hashes : List H} {scale i : Nat} {p : BlockPool H} {groupIds : List Nat}

theorem hashAt_ok (reach : scale = 1 → i < hashes.length) :
    ∃ hash, hashAt hashes scale i = .ok hash := by
  unfold hashAt
  split
  · rename_i one
    rw [getElem?_eq_getElem (reach one)]
    exact ⟨_, rfl⟩
  · exact ⟨_, rfl⟩

theorem lookupBlock_ok (groupIds : List Nat) (reach : scale = 1 → i < hashes.length) :
    ∃ hit, lookupBlock p hashes scale groupIds i = .ok hit := by
  obtain ⟨hash, isHash⟩ := hashAt_ok reach
  refine ⟨p.getCachedBlock hash groupIds, ?_⟩
  rw [lookupBlock, isHash]
  rfl

theorem lt_length_of_lookupBlock {hit : Option Row}
    (looked : lookupBlock p hashes 1 groupIds i = .ok hit) : i < hashes.length := by
  by_contra outside
  rw [lookupBlock, hashAt, getElem?_eq_none (Nat.le_of_not_lt outside)] at looked
  cases looked

theorem getElem?_of_mapM {α β : Type} {f : α → Option β} {xs : List α} {ys : List β}
    (run : xs.mapM f = some ys) (j : Nat) : ys[j]? = xs[j]?.bind f := by
  induction xs generalizing ys j with
  | nil =>
    cases run
    rfl
  | cons x rest ih =>
    rw [mapM_cons] at run
    obtain ⟨y, first, run⟩ := Option.bind_eq_some_iff.mp run
    obtain ⟨zs, restRun, run⟩ := Option.bind_eq_some_iff.mp run
    cases run
    cases j with
    | zero => simpa using first.symm
    | succ j => simpa using ih restRun j

/-- The blocks of a row hold a hash, and so none is the null block. -/
theorem ne_nullBlock_of_lookupBlock (uncached : NullUncached p) {row : Row}
    (found : lookupBlock p hashes scale groupIds i = .ok (some row)) :
    ∀ b ∈ row, b ≠ nullBlock := by
  obtain ⟨hash, -, found⟩ := bind_eq_ok.mp found
  have found : p.getCachedBlock hash groupIds = some row := Except.ok.inj found
  rintro b mem rfl
  obtain ⟨j, lt, at_j⟩ := getElem_of_mem mem
  have at_row := getElem?_of_mapM found j
  rw [getElem?_eq_getElem lt, at_j] at at_row
  obtain ⟨g, -, head⟩ := Option.bind_eq_some_iff.mp at_row.symm
  exact uncached _ (mem_of_mem_head? head)

theorem lookupBlock_ne_nullRow (uncached : NullUncached p) (nonempty : groupIds ≠ []) {row : Row}
    (found : lookupBlock p hashes scale groupIds i = .ok (some row)) :
    row ≠ nullRow groupIds.length := by
  rintro rfl
  refine ne_nullBlock_of_lookupBlock uncached found nullBlock ?_ rfl
  exact mem_replicate.mpr ⟨Nat.ne_of_gt (length_pos_iff.mpr nonempty), rfl⟩

section Pool

variable {p : BlockPool H} {hashes : List H} {hashBlockSize : Nat} {groupIds : List Nat}
  {q : WindowQuery}

theorem windowHit_ok (p : BlockPool H) (groupIds : List Nat)
    (reach : HashesReach hashes hashBlockSize q) :
    ∃ rows, windowHit (lookupBlock p hashes (q.blockSize / hashBlockSize) groupIds)
      groupIds.length q = .ok rows := by
  have covered : ∀ j < q.maxNumBlocks, ∃ hit,
      lookupBlock p hashes (q.blockSize / hashBlockSize) groupIds j = .ok hit :=
    fun j lt => lookupBlock_ok groupIds fun one => Nat.lt_of_lt_of_le lt (reach one)
  obtain ⟨out, loop⟩ := slidingWindowLoop_ok q
    (contiguousBlocksForHit q.window q.blockSize q.dropEagleBlock) covered
    (replicate q.maxNumBlocks (nullRow groupIds.length)) 0
  unfold maxNumBlocks at loop
  unfold windowHit slidingWindowHit
  dsimp only
  rw [loop]
  cases q.dropEagleBlock with
  | false | true => exact ⟨_, rfl⟩

theorem hashesReach_of_windowHit {rows : List Row}
    (run : windowHit (lookupBlock p hashes (q.blockSize / hashBlockSize) groupIds)
      groupIds.length q = .ok rows) : HashesReach hashes hashBlockSize q := by
  intro one
  rw [one] at run
  obtain ⟨out, loop, -⟩ := bind_eq_ok.mp run
  unfold maxNumBlocks
  -- The first block that the loop looks at is the last one.
  cases blocks : q.maxLength / q.blockSize with
  | zero => exact Nat.zero_le _
  | succ m =>
    rw [blocks] at loop
    obtain ⟨hit, looked, -⟩ := bind_eq_ok.mp loop
    exact lt_length_of_lookupBlock looked

theorem findLongestCacheHit_window {spec : KVCacheSpec} {w : Nat} (window : spec.kind = .slidingWindow w)
    {maxLength align : Nat} {drop : Bool} :
    findLongestCacheHit p hashes hashBlockSize maxLength groupIds spec 1 drop align =
      windowHit (lookupBlock p hashes (spec.blockSize / hashBlockSize) groupIds)
        groupIds.length ⟨w, spec.blockSize, maxLength, align, drop⟩ := by
  unfold findLongestCacheHit
  simp only [Nat.mul_one, window]
  rfl

end Pool

/-- The lookup returns the longest hit exactly when the hashes reach, and either the search
is exact or there is nothing longer to find. -/
theorem slidingWindow_hit_iff {p : BlockPool H} (uncached : NullUncached p) (blockHashes : List H)
    (hashBlockSize : Nat) {groupIds : List Nat} (nonempty : groupIds ≠ []) {spec : KVCacheSpec}
    {window : Nat} (kind : spec.kind = .slidingWindow window) (maxLength : Nat)
    (dropEagleBlock : Bool) {alignmentTokens : Nat} (multiple : spec.blockSize ∣ alignmentTokens) :
    (∃ rows, findLongestCacheHit p blockHashes hashBlockSize maxLength groupIds spec 1
        dropEagleBlock alignmentTokens = .ok rows ∧
      WindowHit (lookupBlock p blockHashes (spec.blockSize / hashBlockSize) groupIds)
        groupIds.length ⟨window, spec.blockSize, maxLength, alignmentTokens, dropEagleBlock⟩ rows) ↔
    HashesReach blockHashes hashBlockSize
        ⟨window, spec.blockSize, maxLength, alignmentTokens, dropEagleBlock⟩ ∧
      SearchExact (lookupBlock p blockHashes (spec.blockSize / hashBlockSize) groupIds)
        ⟨window, spec.blockSize, maxLength, alignmentTokens, dropEagleBlock⟩ := by
  let q : WindowQuery := ⟨window, spec.blockSize, maxLength, alignmentTokens, dropEagleBlock⟩
  have exact_iff : ∀ rows, windowHit (lookupBlock p blockHashes (q.blockSize / hashBlockSize) groupIds)
      groupIds.length q = .ok rows →
      (WindowHit (lookupBlock p blockHashes (q.blockSize / hashBlockSize) groupIds)
        groupIds.length q rows ↔
      SearchExact (lookupBlock p blockHashes (q.blockSize / hashBlockSize) groupIds) q) := by
    intro rows run
    cases drop : dropEagleBlock with
    | false =>
      exact windowHit_spec_keep spec.blockSize_pos drop
        (fun i row found => lookupBlock_ne_nullRow uncached nonempty found) run
    | true => exact windowHit_spec_drop spec.blockSize_pos multiple drop run
  rw [findLongestCacheHit_window kind]
  constructor
  · rintro ⟨rows, run, hit⟩
    exact ⟨hashesReach_of_windowHit run, (exact_iff rows run).mp hit⟩
  · rintro ⟨reach, isExact⟩
    obtain ⟨rows, run⟩ := windowHit_ok p groupIds reach
    exact ⟨rows, run, (exact_iff rows run).mpr isExact⟩

/-- A pool whose blocks hold the first `n` hashes of the first group. -/
def cachedPrefix (n : Nat) : BlockPool Nat :=
  (range n).foldl (fun p i => p.insertCached ⟨[i], 0⟩ (i + 1)) (BlockPool.init Nat (n + 1))

theorem nullUncached_cachedPrefix (n : Nat) : NullUncached (cachedPrefix n) := by
  apply foldlRecOn (range n)
  · exact fun _ => not_mem_nil
  · intro p uncached i _
    exact uncached.insertCached _ (Nat.succ_ne_zero i)

/-- A window of four blocks and the eagle block, at the start of the sequence: two blocks
and the eagle block are cached and aligned, but nothing is hit. -/
theorem eagle_window_hit_lost :
    findLongestCacheHit (cachedPrefix 3) [0, 1, 2] 2 6 [0]
        { kind := .slidingWindow 9, blockSize := 2 } 1 true 4 = .ok [] ∧
      ¬ WindowHit (lookupBlock (cachedPrefix 3) [0, 1, 2] 1 [0]) 1 ⟨9, 2, 6, 4, true⟩ [] := by
  refine ⟨by decide +kernel, fun hit => ?_⟩
  have accepted : Accepts (lookupBlock (cachedPrefix 3) [0, 1, 2] 1 [0]) ⟨9, 2, 6, 4, true⟩ 2 := by
    refine ⟨by decide, by decide, ?_⟩
    intro i _ before
    refine ⟨[i + 1], ?_⟩
    have lt : i < 3 := before
    match i, lt with
    | 0, _ | 1, _ | 2, _ => rfl
  exact absurd (hit.longest.2 2 accepted) (by decide)

/-- The same blocks without the eagle drop, where a block is aligned. -/
theorem window_hit_found : ∃ rows,
    findLongestCacheHit (cachedPrefix 3) [0, 1, 2] 2 6 [0]
        { kind := .slidingWindow 9, blockSize := 2 } 1 false 2 = .ok rows ∧
      WindowHit (lookupBlock (cachedPrefix 3) [0, 1, 2] 1 [0]) 1 ⟨9, 2, 6, 2, false⟩ rows := by
  exact (slidingWindow_hit_iff (nullUncached_cachedPrefix 3) [0, 1, 2] 2 (by decide) rfl 6 false
    (by decide)).mpr ⟨fun _ => by decide, .inl (by decide)⟩

end Vllm.KVCache
