import Vllm.KVCache.HitSound
import Vllm.Lib.Descent

/-!
What the lookups of full attention, sliding window and Mamba have in common: without the
eagle drop each returns the greatest aligned length whose blocks before the end are cached,
and a second lookup with that length returns the same blocks.

The three differ in how many blocks before the end they need: all, those of the window (at
least one), or the last one.
-/

namespace Vllm.KVCache

open Vllm.Lib.Ceil Vllm.Lib.Descent Vllm.Lib.Fallible Vllm.Lib.RunScan KVCacheSpec List

variable {H : Type}

/-- The specs for which a hit is a run of cached blocks before its end. -/
def KVCacheSpec.needsRun (spec : KVCacheSpec) : Bool :=
  spec.kind matches .fullAttention | .slidingWindow _ | .mamba _ _

theorem KVCacheSpec.kind_of_needsRun {spec : KVCacheSpec} (needsRun : spec.needsRun = true) :
    spec.kind = .fullAttention ∨ (∃ w, spec.kind = .slidingWindow w) ∨
      ∃ mode k, spec.kind = .mamba mode k := by
  unfold KVCacheSpec.needsRun at needsRun
  cases kind : spec.kind <;> simp_all

/-- The length of that run, for a hit of `n` blocks. -/
def KVCacheSpec.blocksNeeded (spec : KVCacheSpec) (n : Nat) : Nat :=
  match spec.kind with
  | .fullAttention => n
  | .slidingWindow w => cdiv (w - 1) spec.blockSize
  | .mamba _ _ => 1
  | .chunkedLocalAttention _ | .crossAttention => 0

/-- The group can take over `L` tokens. -/
def GroupAccepts (lookup : Nat → Except KVError (Option Row)) (spec : KVCacheSpec) (L : Nat) :
    Prop :=
  RunBefore (Hits lookup) (spec.blocksNeeded (L / spec.blockSize)) (L / spec.blockSize)

/-- The group's lookup stops at `L` tokens: it needs one block at least. -/
def GroupStops (lookup : Nat → Except KVError (Option Row)) (spec : KVCacheSpec) (L : Nat) : Prop :=
  RunBefore (Hits lookup) (max 1 (spec.blocksNeeded (L / spec.blockSize))) (L / spec.blockSize)

section Walks

variable {lookup : Nat → Except KVError (Option Row)} {numGroups blockSize align : Nat}

variable {maxLength n i numHashes : Nat} {rows rows' : List Row} {q : WindowQuery}

/-- The last end in blocks is the greatest length in tokens. -/
theorem greatest_of_lastRun {need e : Nat} (pos : 0 < blockSize) (multiple : blockSize ∣ align)
    (last : LastRun (Hits lookup) (fun e => align ∣ e * blockSize) need (maxLength / blockSize) e) :
    Greatest (fun L => align ∣ L ∧ RunBefore (Hits lookup) need (L / blockSize)) maxLength
      (e * blockSize) := by
  have aligned : align ∣ e * blockSize := last.atEnd (by rw [Nat.zero_mul]; exact Nat.dvd_zero align)
  refine ⟨⟨(Nat.le_div_iff_mul_le pos).mp last.le, aligned, ?_⟩, ?_⟩
  · rw [Nat.mul_div_cancel e pos]
    exact last.run
  · rintro L ⟨le, dvd, run⟩
    obtain ⟨k, rfl⟩ := Nat.dvd_trans multiple dvd
    rw [Nat.mul_comm] at le dvd run ⊢
    rw [Nat.mul_div_cancel k pos] at run
    apply Nat.mul_le_mul_right
    by_contra beyond
    exact last.none_after k (Nat.lt_of_not_le beyond) ((Nat.le_div_iff_mul_le pos).mpr le) dvd run

/-! ### Full attention -/

/-- The walk comes to an end if no lookup up to the first miss runs out of hashes. -/
theorem collectHits_ok (covered : ∀ j, i ≤ j → j < i + n →
      (∀ k, i ≤ k → k < j → lookup k ≠ .ok none) → ∃ hit, lookup j = .ok hit) :
    ∃ rows, collectHits lookup n i = .ok rows := by
  induction n generalizing i with
  | zero => exact ⟨[], rfl⟩
  | succ n ih =>
    obtain ⟨hit, looked⟩ := covered i le_rfl (by omega) fun k _ _ => by omega
    unfold collectHits
    rw [looked]
    cases hit with
    | none => exact ⟨[], rfl⟩
    | some row =>
      obtain ⟨rest, restRun⟩ : ∃ rows, collectHits lookup n (i + 1) = .ok rows := by
        refine ih fun j after before noMiss =>
          covered j (by omega) (by omega) fun k after' before' => ?_
        rcases Nat.eq_or_lt_of_le after' with rfl | later
        · rw [looked]
          nofun
        · exact noMiss k later before'
      refine ⟨row :: rest, ?_⟩
      rw [restRun]
      rfl

theorem le_popUnaligned {k : Nat} (aligned : align ∣ k * blockSize) (le : k ≤ n) :
    k ≤ popUnaligned blockSize align n := by
  induction n with
  | zero => exact le
  | succ n ih =>
    rw [popUnaligned]
    split
    · rename_i unaligned
      rcases Nat.eq_or_lt_of_le le with same | lt
      · rw [same] at aligned
        exact absurd (Nat.mod_eq_zero_of_dvd aligned) unaligned.2
      · exact ih (Nat.le_of_lt_succ lt)
    · exact le

theorem fullAttentionHit_lastRun (whole : ∀ i, Hits lookup i → i < numHashes)
    (run : fullAttentionHit lookup numHashes maxLength blockSize false align = .ok rows) :
    LastRun (Hits lookup) (fun e => align ∣ e * blockSize) (maxLength / blockSize)
      (maxLength / blockSize) rows.length := by
  obtain ⟨hits, collected, run⟩ := bind_eq_ok.mp run
  cases run
  have collected := collectHits_collected collected
  have bound := collected.length_le
  have length : (trimUnaligned blockSize align hits).length =
      popUnaligned blockSize align hits.length := by
    rw [trimUnaligned, length_take, min_eq_left (popUnaligned_le _)]
  have popped : popUnaligned blockSize align hits.length ≤ hits.length := popUnaligned_le _
  rw [if_neg Bool.false_ne_true, length]
  constructor
  case le => omega
  case ends => exact fun _ => dvd_popUnaligned hits.length
  case run =>
    intro i _ before
    have inside : i < hits.length := by omega
    have cached := collected.found i _ (getElem?_eq_getElem inside)
    rw [Nat.zero_add] at cached
    exact ⟨_, cached⟩
  case none_after =>
    intro e' lt le ends run
    rw [runBefore_iff_all le] at run
    have cut : e' ≤ hits.length := by
      by_contra beyond
      have inHashes := whole (e' - 1) (run (e' - 1) (by omega))
      have missed := collected.stops (by omega)
      obtain ⟨row, hit⟩ := run hits.length (by omega)
      rw [Nat.zero_add, hit] at missed
      cases missed
    have := le_popUnaligned ends cut
    omega

theorem fullAttentionHit_ok {drop : Bool} (covered : ∀ j < numHashes, ∃ hit, lookup j = .ok hit) :
    ∃ rows, fullAttentionHit lookup numHashes maxLength blockSize drop align = .ok rows := by
  obtain ⟨rows, collected⟩ :
      ∃ rows, collectHits lookup (min (maxLength / blockSize) numHashes) 0 = .ok rows :=
    collectHits_ok fun j _ before _ => covered j (by omega)
  unfold fullAttentionHit
  rw [collected]
  exact ⟨_, rfl⟩

theorem mambaLoop_ok (covered : ∀ j < i, ∃ hit, lookup j = .ok hit) :
    ∃ rows, mambaLoop lookup numGroups blockSize align i = .ok rows := by
  induction i with
  | zero => exact ⟨[], rfl⟩
  | succ i ih =>
    obtain ⟨rows, below⟩ := ih fun j lt => covered j (by omega)
    obtain ⟨hit, looked⟩ := covered i (Nat.lt_succ_self i)
    unfold mambaLoop
    rw [looked, ok_bind]
    cases hit with
    | none => exact ⟨rows, below⟩
    | some row =>
      dsimp only
      split
      · exact ⟨rows, below⟩
      · exact ⟨_, rfl⟩

/-- The loop finds its block again where it stopped. -/
theorem mambaLoop_again (run : mambaLoop lookup numGroups blockSize align i = .ok rows) :
    mambaLoop lookup numGroups blockSize align rows.length = .ok rows := by
  induction i with
  | zero =>
    cases run
    rfl
  | succ i ih =>
    obtain ⟨hit, looked, rest⟩ := bind_eq_ok.mp run
    cases hit with
    | none => exact ih rest
    | some row =>
      dsimp only at rest
      split at rest
      · exact ih rest
      · have length : rows.length = i + 1 := by
          rw [← Except.ok.inj rest, length_append, length_replicate,
            length_singleton]
        rw [length]
        exact run

theorem KeptHit.unique (kept : KeptHit lookup numGroups q rows)
    (kept' : KeptHit lookup numGroups { q with maxLength } rows')
    (length : rows'.length = rows.length) : rows' = rows := by
  apply ext_getElem length
  intro i before' before
  have at_i := getElem?_eq_getElem before
  have at_i' := getElem?_eq_getElem before'
  rcases lt_or_ge i (rows.length - max 1 q.need) with outside | inside
  · rw [kept.outside i _ at_i outside, kept'.outside i _ at_i' (by rw [length]; exact outside)]
  · have looked := kept.inside i _ at_i inside
    have looked' := kept'.inside i _ at_i' (by rw [length]; exact inside)
    rw [looked] at looked'
    exact (Option.some.inj (Except.ok.inj looked')).symm

theorem KeptHit.again (pos : 0 < q.blockSize) (kept : KeptHit lookup numGroups q rows)
    (kept' : KeptHit lookup numGroups { q with maxLength := rows.length * q.blockSize } rows') :
    rows' = rows := by
  have bound : WindowQuery.maxNumBlocks { q with maxLength := rows.length * q.blockSize } =
      rows.length := Nat.mul_div_cancel _ pos
  have last' := kept'.last
  rw [bound] at last'
  exact kept.unique kept' (last'.unique (kept.last.lower le_rfl kept.last.le))

end Walks

/-! ### The managers -/

section Managers

variable {p : BlockPool H} {hashes : List H} {hashBlockSize align maxLength : Nat}
  {groupIds : List Nat} {spec : KVCacheSpec} {drop : Bool} {rows : List Row}

theorem findLongestCacheHit_full (full : spec.kind = .fullAttention) :
    findLongestCacheHit p hashes hashBlockSize maxLength groupIds spec 1 drop align =
      fullAttentionHit (lookupBlock p hashes (spec.blockSize / hashBlockSize) groupIds)
        (hashes.length / (spec.blockSize / hashBlockSize)) maxLength spec.blockSize drop
        align := by
  unfold findLongestCacheHit
  simp only [Nat.mul_one, ne_eq, not_true_eq_false, false_and, if_false, full]

theorem findLongestCacheHit_mamba {mode : MambaCacheMode} {k : Nat}
    (mamba : spec.kind = .mamba mode k) :
    findLongestCacheHit p hashes hashBlockSize maxLength groupIds spec 1 drop align =
      mambaHit (lookupBlock p hashes (spec.blockSize / hashBlockSize) groupIds)
        groupIds.length maxLength spec.blockSize align := by
  unfold findLongestCacheHit
  simp only [Nat.mul_one, ne_eq, not_true_eq_false, false_and, if_false, mamba]

section

variable (needsRun : spec.needsRun = true)
include needsRun

/-- The lookup returns the greatest aligned length at which it stops. -/
theorem findLongestCacheHit_greatest
    (multiple : spec.blockSize ∣ align)
    (whole : ∀ i, Hits (lookupBlock p hashes (spec.blockSize / hashBlockSize) groupIds) i →
      i < hashes.length / (spec.blockSize / hashBlockSize))
    (run : findLongestCacheHit p hashes hashBlockSize maxLength groupIds spec 1 false align =
      .ok rows) :
    Greatest (fun L => align ∣ L ∧
        GroupStops (lookupBlock p hashes (spec.blockSize / hashBlockSize) groupIds) spec L)
      maxLength (rows.length * spec.blockSize) := by
  have pos := spec.blockSize_pos
  obtain kind | ⟨w, kind⟩ | ⟨mode, k, kind⟩ := kind_of_needsRun needsRun
  · rw [findLongestCacheHit_full kind] at run
    have greatest := greatest_of_lastRun pos multiple (fullAttentionHit_lastRun whole run)
    -- Up to the maximal length both ask for all blocks.
    have same : ∀ L ≤ maxLength, GroupStops (lookupBlock p hashes
        (spec.blockSize / hashBlockSize) groupIds) spec L ↔
        RunBefore (Hits (lookupBlock p hashes (spec.blockSize / hashBlockSize) groupIds))
          (maxLength / spec.blockSize) (L / spec.blockSize) := by
      intro L le
      unfold GroupStops blocksNeeded
      rw [kind, runBefore_iff_all (Nat.div_le_div_right le)]
      exact runBefore_iff_all (Nat.le_max_right _ _)
    refine ⟨⟨greatest.le, greatest.accepted.1, (same _ greatest.le).mpr greatest.accepted.2⟩, ?_⟩
    rintro L ⟨le, dvd, stops⟩
    exact greatest.above le ⟨dvd, (same L le).mp stops⟩
  · rw [findLongestCacheHit_window kind] at run
    have greatest := greatest_of_lastRun pos multiple (windowHit_kept rfl run).last
    unfold GroupStops blocksNeeded
    rw [kind]
    exact greatest
  · rw [findLongestCacheHit_mamba kind] at run
    have greatest := greatest_of_lastRun pos multiple (mambaLoop_lastRun (.start _ Nat.one_pos) run)
    unfold GroupStops blocksNeeded
    rw [kind]
    exact greatest

/-- The lookup comes to an end if the hashes reach; full attention stops at the last one. -/
theorem findLongestCacheHit_ok_iff :
    (∃ rows, findLongestCacheHit p hashes hashBlockSize maxLength groupIds spec 1 drop align =
      .ok rows) ↔
    (spec.isFullAttention = false → spec.blockSize / hashBlockSize = 1 →
      maxLength / spec.blockSize ≤ hashes.length) := by
  obtain kind | ⟨w, kind⟩ | ⟨mode, k, kind⟩ := kind_of_needsRun needsRun
  · rw [findLongestCacheHit_full kind]
    refine ⟨fun _ notFull => ?_, fun _ => fullAttentionHit_ok fun j lt => ?_⟩
    · rw [isFullAttention, kind] at notFull
      cases notFull
    · refine lookupBlock_ok groupIds fun one => ?_
      rwa [one, Nat.div_one] at lt
  · rw [findLongestCacheHit_window kind]
    let q : WindowQuery := ⟨w, spec.blockSize, maxLength, align, drop⟩
    constructor
    · rintro ⟨rows, run⟩ _
      have reach : HashesReach hashes hashBlockSize q := hashesReach_of_windowHit run
      exact reach
    · intro reach
      have reach : HashesReach hashes hashBlockSize q :=
        reach (by rw [isFullAttention, kind]; rfl)
      exact windowHit_ok p groupIds reach
  · rw [findLongestCacheHit_mamba kind]
    constructor
    · rintro ⟨rows, run⟩ _ one
      rw [one] at run
      unfold mambaHit at run
      cases blocks : maxLength / spec.blockSize with
      | zero => exact Nat.zero_le _
      | succ m =>
        rw [blocks] at run
        obtain ⟨hit, looked, -⟩ := bind_eq_ok.mp run
        exact lt_length_of_lookupBlock looked
    · intro reach
      refine mambaLoop_ok fun j lt => lookupBlock_ok groupIds fun one => ?_
      exact lt.trans_le (reach (by rw [isFullAttention, kind]; rfl) one)

/-- A second lookup with the length that was found. -/
theorem findLongestCacheHit_again
    (notFull : spec.isFullAttention = false)
    (run : findLongestCacheHit p hashes hashBlockSize maxLength groupIds spec 1 false align =
      .ok rows) :
    findLongestCacheHit p hashes hashBlockSize (rows.length * spec.blockSize) groupIds spec 1
      false align = .ok rows := by
  have pos := spec.blockSize_pos
  have reach := (findLongestCacheHit_ok_iff needsRun).mp ⟨rows, run⟩
  obtain kind | ⟨w, kind⟩ | ⟨mode, k, kind⟩ := kind_of_needsRun needsRun
  · rw [isFullAttention, kind] at notFull
    cases notFull
  · rw [findLongestCacheHit_window kind] at run
    have kept := windowHit_kept rfl run
    obtain ⟨rows', run'⟩ : ∃ rows', findLongestCacheHit p hashes hashBlockSize
        (rows.length * spec.blockSize) groupIds spec 1 false align = .ok rows' := by
      refine (findLongestCacheHit_ok_iff needsRun).mpr fun _ one => ?_
      rw [Nat.mul_div_cancel _ pos]
      exact kept.last.le.trans (reach notFull one)
    rw [run']
    rw [findLongestCacheHit_window kind] at run'
    rw [kept.again pos (windowHit_kept rfl run')]
  · rw [findLongestCacheHit_mamba kind] at run ⊢
    unfold mambaHit
    rw [Nat.mul_div_cancel _ pos]
    exact mambaLoop_again run

end

end Managers

end Vllm.KVCache
