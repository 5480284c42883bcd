import Vllm.KVCache.Prefill

/-!
The full-sequence gate of `allocate_slots`.

`full_sequence_must_fit` admits a new request only if the blocks of its whole
sequence fit. For a sliding window it caps their number by what the window and one
chunk need, and subtracts the blocks of the hit from the cap: a hit behind the window
takes the reservation away.
`prefillFits_iff` says when the chunks after an admission all get their blocks, and
`chunkFits_of_gate` when the gate guarantees it.
-/

namespace Vllm.KVCache

open Vllm.Lib Vllm.Lib.Ceil Vllm.Lib.Fallible Vllm.Lib.Steps SingleTypeKVCacheManager KVCacheConfig
open KVState
open List

variable {H : Type} [DecidableEq H]

/-! ### Admission -/

/-- The first call for a request: the manager holds nothing for it, the hit is the one
just looked up, and there are no external or lookahead tokens. -/
@[mk_iff]
structure Starts (cfg : KVCacheConfig) (s : KVState H) (request : Request H)
    (args : AllocateSlotsArgs) : Prop where
  promised : SlotsPromised cfg s request args
  isNew : cfg.IsNew s request.requestId
  numComputedTokens : request.numComputedTokens = 0
  numExternalComputedTokens : args.numExternalComputedTokens = 0
  numLookaheadTokens : args.numLookaheadTokens = 0
  /-- Longer requests are refused before they reach the scheduler. -/
  numTokens : request.numTokens ≤ cfg.maxModelLen
  /-- The block hasher has hashed every full block. -/
  blockHashes : cfg.enableCaching = true →
    request.numTokens / cfg.hashBlockSize ≤ request.blockHashes.length

/-- The first call with the gate. -/
@[mk_iff]
structure Admits (cfg : KVCacheConfig) (s : KVState H) (request : Request H)
    (args : AllocateSlotsArgs) : Prop extends Starts cfg s request args where
  fullSequenceMustFit : args.fullSequenceMustFit = true

instance decidableAdmits (cfg : KVCacheConfig) (s : KVState H) (request : Request H)
    (args : AllocateSlotsArgs) : Decidable (Admits cfg s request args) :=
  decidable_of_iff' _ ((admits_iff ..).trans (and_congr_left' (starts_iff ..)))

section Start

variable {cfg : KVCacheConfig} {s t : KVState H} {req : Request H} {args : AllocateSlotsArgs}
  {m : SingleTypeKVCacheManager}

variable {α : Type} {b : BlockId} {N n : Nat} {hits : List BlockId} {r : RequestId}

/-- A block in at most one of the lists, and there at most once. -/
theorem count_flatMap_le_one {f : α → List BlockId} {xs : List α} (nodup : xs.Nodup)
    (once : ∀ x ∈ xs, (f x).count b ≤ 1) (apart : ∀ x ∈ xs, ∀ y ∈ xs, b ∈ f x → b ∈ f y → x = y) :
    (xs.flatMap f).count b ≤ 1 := by
  induction xs with
  | nil => exact Nat.zero_le 1
  | cons x rest ih =>
    obtain ⟨notMem, nodup⟩ := nodup_cons.mp nodup
    rw [flatMap_cons, count_append]
    by_cases mem : b ∈ f x
    · have absent : (rest.flatMap f).count b = 0 := by
        refine count_eq_zero.mpr fun inRest => ?_
        obtain ⟨y, memY, inY⟩ := mem_flatMap.mp inRest
        have same := apart x (by simp) y (by simp [memY]) mem inY
        exact notMem (same ▸ memY)
      rw [absent]
      exact once x (by simp)
    · rw [count_eq_zero.mpr mem, Nat.zero_add]
      exact ih nodup (fun y memY => once y (by simp [memY]))
        fun y memY z memZ => apart y (by simp [memY]) z (by simp [memZ])

theorem count_le_flatMap {f : α → List BlockId} {a : α} {xs : List α} (mem : a ∈ xs) (b : BlockId) :
    (f a).count b ≤ (xs.flatMap f).count b := by
  obtain ⟨front, back, rfl⟩ := append_of_mem mem
  rw [flatMap_append, flatMap_cons, count_append, count_append]
  omega

/-- No block is a hit twice: within a group by promise, and in two groups because its
hash names one group. -/
theorem count_hits_le_one (valid : cfg.Valid) (wf : Wf cfg.numBlocks s)
    (promised : SlotsPromised cfg s req args) (notNull : b ≠ nullBlock) :
    (cfg.managers.flatMap (hitsOf (cfg.newComputedBlockList args))).count b ≤ 1 := by
  have group : ∀ m ∈ cfg.managers, b ∈ hitsOf (cfg.newComputedBlockList args) m →
      ∃ hash, s.blockPool.blockHash b = some ⟨hash, m.kvCacheGroupId⟩ := by
    intro m mem isHit
    obtain ⟨i, found⟩ := mem_iff_getElem?.mp isHit
    obtain ⟨hash, -, cached⟩ :=
      (hitSound_of_passesHit valid promised.passesHit mem).cached found notNull
    exact ⟨hash, (wf.pool.mem_cached _ b).mp cached⟩
  refine count_flatMap_le_one cfg.managers_nodup (fun m mem => ?_) fun m mem m' mem' hit hit' => ?_
  · by_cases isHit : b ∈ hitsOf (cfg.newComputedBlockList args) m
    · exact promised.distinct m mem b isHit notNull
    · rw [count_eq_zero.mpr isHit]
      exact Nat.zero_le 1
  · obtain ⟨hash, isHash⟩ := group m mem hit
    obtain ⟨hash', isHash'⟩ := group m' mem' hit'
    have same := Option.some.inj (isHash.symm.trans isHash')
    exact manager_ext mem mem' (congrArg BlockHashWithGroupId.groupId same)

omit [DecidableEq H] in
theorem hitsOf_eq_nil (passed : cfg.PassesHit s req args) (off : cfg.enableCaching = false)
    (m : SingleTypeKVCacheManager) : hitsOf (cfg.newComputedBlockList args) m = [] := by
  unfold KVCacheConfig.PassesHit at passed
  unfold newComputedBlockList hitsOf
  split at passed
  · rename_i noHits
    rw [noHits, Option.getD_none, getD_emptyKVCacheBlocks]
  · rename_i hits isHits
    rw [getComputedBlocks, if_pos (.inl (by rw [off]; exact Bool.false_ne_true))] at passed
    have same : cfg.emptyKVCacheBlocks = hits := congrArg Prod.fst (Except.ok.inj passed)
    rw [isHits, Option.getD_some, ← same, getD_emptyKVCacheBlocks]

omit [DecidableEq H] in
theorem touchHits_ok {p : BlockPool H} (ok : PoolOk N p)
    (inRange : ∀ b ∈ hits, b ≠ nullBlock → b < N) (usable : m.enableCaching = false → hits = []) :
    ∃ p', m.touchHits p hits = .ok p' := by
  unfold touchHits
  split
  · obtain ⟨p', run, -⟩ := ok.touch inRange
    exact ⟨p', run⟩
  · rename_i off
    exact ⟨p, if_neg (Decidable.not_not.mpr (usable (Bool.eq_false_iff.mpr off)))⟩

theorem addComputedBlocks_ok (wf : Wf N t) (empty : m.blocksOf t r = [])
    (once : ∀ b, b ≠ nullBlock → hits.count b ≤ 1) (inRange : ∀ b ∈ hits, b ≠ nullBlock → b < N)
    (usable : m.enableCaching = false → hits = []) :
    ∃ u, m.addComputedBlocks t r hits n 0 = .ok u ∧ m.blocksOf u r = m.hitTable hits n ∧
      u.numCachedBlock (m.key r) = some (m.hitTable hits n).length ∧
      OnlyEntry (m.key r) t u ∧ Wf N u := by
  have noExternal : ¬ 0 < m.numExternalInWindow n 0 := fun pos =>
    lt_irrefl 0 (external_of_inWindow pos)
  have inWindow : ∀ b ∈ m.hitsInWindow hits (n + 0), b ∈ hits := fun b isHit =>
    mem_of_mem_drop isHit
  obtain ⟨p, touched⟩ := touchHits_ok wf.pool
    (fun b isHit => inRange b (inWindow b isHit)) fun off => by
      rw [usable off]
      exact drop_nil
  obtain ⟨u, run⟩ : ∃ u, m.addComputedBlocks t r hits n 0 = .ok u := by
    rw [addComputedBlocks]
    simp only [touched, takeExternal, if_neg noExternal]
    exact ⟨_, rfl⟩
  obtain ⟨-, blocks, -, -, -, amount, table, entry, cached, -, -, -, wf'⟩ :=
    addComputedBlocks_spec wf empty
      (fun b notNull => ((drop_sublist _ _).count_le b).trans (once b notNull))
      (fun b isHit => inRange b (inWindow b isHit)) (fun some => absurd some noExternal) run
  obtain rfl : blocks = [] := length_eq_zero_iff.mp (by omega)
  rw [append_nil] at table
  exact ⟨u, run, table, cached, entry, wf'⟩

theorem Borrows.allocateNewComputedBlocks {hits : List (List BlockId)}
    (setting : Setting cfg s hits) (borrows : Borrows cfg r s t) (isNew : cfg.IsNew t r)
    (once : ∀ b, b ≠ nullBlock → (cfg.managers.flatMap (hitsOf hits)).count b ≤ 1)
    (inRange : ∀ m ∈ cfg.managers, ∀ b ∈ hitsOf hits m, b ≠ nullBlock → b < cfg.numBlocks)
    (usable : cfg.enableCaching = false → ∀ m, hitsOf hits m = []) :
    ∃ u, cfg.allocateNewComputedBlocks t r hits n 0 = .ok u ∧ Borrows cfg r s u ∧
      ∀ m ∈ cfg.managers, Holds s u r m (hitsOf hits m) (m.numSkippedBlocks n)
        (max (m.numSkippedBlocks n) (hitsOf hits m).length) := by
  have countHitTable : ∀ (m : SingleTypeKVCacheManager) (b : BlockId), b ≠ nullBlock →
      (m.hitTable (hitsOf hits m) n).count b ≤ (hitsOf hits m).count b := by
    intro m b notNull
    rw [hitTable, count_append, count_nulls notNull, Nat.zero_add]
    exact (drop_sublist _ _).count_le b
  have loop : Ensures (fun _ : KVError => True) (fun u => Borrows cfg r s u ∧ ∀ m ∈ cfg.managers,
      m.blocksOf u r = m.hitTable (hitsOf hits m) n ∧
        u.numCachedBlock (m.key r) = some (m.hitTable (hitsOf hits m) n).length)
      (cfg.allocateNewComputedBlocks t r hits n 0) := by
    refine ensures_foldlM_each (Borrows cfg r s)
      (fun (m : SingleTypeKVCacheManager) t =>
        m.blocksOf t r = [] ∧ t.numCachedBlock (m.key r) = none)
      (fun m t => m.blocksOf t r = m.hitTable (hitsOf hits m) n ∧
        t.numCachedBlock (m.key r) = some (m.hitTable (hitsOf hits m) n).length)
      cfg.managers_nodup ?_ borrows isNew
    rintro t m mem borrows ⟨empty, notCached⟩ all
    have notCross : ¬ (m.kvCacheSpec.isCrossAttention = true ∨
        (t.numCachedBlock (m.key r)).isSome = true) := by
      have kind := setting.kinds m mem
      rintro (cross | cached)
      · rw [of_decide_eq_true cross] at kind
        cases kind
      · rw [notCached] at cached
        cases cached
    have sameCaching : m.enableCaching = cfg.enableCaching := by
      obtain ⟨g, i, -, rfl⟩ := mem_managers.mp mem
      rfl
    obtain ⟨u, run, after, cached, entry, wf⟩ := addComputedBlocks_ok borrows.wf empty
      (fun b notNull => (count_le_flatMap mem b).trans (once b notNull)) (inRange m mem)
      fun off => usable (sameCaching ▸ off) m
    rw [SingleTypeKVCacheManager.allocateNewComputedBlocks, if_neg notCross,
      if_neg (Decidable.not_not.mpr empty)]
    change Ensures _ _ (m.addComputedBlocks t r (hitsOf hits m) n 0)
    rw [run, ensures_ok]
    have others : ∀ m' ∈ cfg.managers, m' ≠ m → m'.blocksOf u r = m'.blocksOf t r ∧
        u.numCachedBlock (m'.key r) = t.numCachedBlock (m'.key r) := fun m' mem' ne =>
      have key := key_ne mem mem' ne.symm r r
      ⟨entry.tables.get_of_ne key, entry.numCachedBlock key⟩
    refine ⟨borrows.update mem entry.tables wf fun b notNull _ => ?_, ⟨after, cached⟩,
      fun m' mem' ne => ?_⟩
    · -- Each table is empty or made of the hits of its group.
      refine le_trans ?_ (once b notNull)
      rw [owned, count_flatMap, count_flatMap]
      refine sum_le_sum fun m' mem' => ?_
      dsimp only [Function.comp]
      by_cases same : m' = m
      · rw [same, after]
        exact countHitTable m b notNull
      · rw [(others m' mem' same).1]
        rcases all m' mem' with ⟨empty', -⟩ | ⟨table', -⟩
        · rw [empty']
          exact Nat.zero_le _
        · rw [table']
          exact countHitTable m' b notNull
    · obtain ⟨sameTable, sameCached⟩ := others m' mem' ne
      rw [sameTable, sameCached]
      exact ⟨id, id⟩
  obtain ⟨u, run, borrows', tables⟩ := loop.exists_ok
  refine ⟨u, run, borrows', fun m mem => ?_⟩
  obtain ⟨table, cached⟩ := tables m mem
  have length := length_hitTable m (hitsOf hits m) n
  refine ⟨⟨[], ?_, forall_mem_nil _⟩, by rw [table, length], fun _ => ?_,
    fun _ i b le found _ => ?_⟩
  · rw [table, List.append_nil]
    rfl
  · rw [cached, length]
    exact Nat.le_max_right _ _
  · -- All of the table counts as cached.
    rw [cached] at le
    obtain ⟨lt, -⟩ := List.getElem?_eq_some_iff.mp found
    rw [table] at lt
    exact absurd (lt.trans_le le) (lt_irrefl _)

/-- The groups of a manager with self-attention, whose blocks are made of hash blocks. -/
structure SelfAttention (cfg : KVCacheConfig) : Prop where
  valid : cfg.Valid
  kinds : ∀ m ∈ cfg.managers, m.kvCacheSpec.kind.isSelfAttention = true
  divides : cfg.enableCaching = true → ∀ m ∈ cfg.managers, cfg.hashBlockSize ∣ m.blockSize

/-- What a manager asks for a new request. -/
def newRequestBlocks (s : KVState H) (hits : List (List BlockId)) (numTokens total : Nat)
    (applyAdmissionCap : Bool) (m : SingleTypeKVCacheManager) : Nat :=
  m.numRequiredBlocks numTokens applyAdmissionCap -
      max (m.numSkippedBlocks total) (hitsOf hits m).length +
    getNumEvictableBlocks s.blockPool ((hitsOf hits m).drop (m.numSkippedBlocks total))

theorem getNumBlocksToAllocate_of_new
    (kinds : ∀ m ∈ cfg.managers, m.kvCacheSpec.kind.isSelfAttention = true) (isNew : cfg.IsNew s r)
    (hits : List (List BlockId)) (numTokens numEncoderTokens total main : Nat) (cap : Bool) :
    cfg.getNumBlocksToAllocate s r numTokens hits numEncoderTokens total main cap =
      .ok (((cfg.managers.map (newRequestBlocks s hits numTokens total cap)).sum : Nat) : Int) := by
  have each : ∀ m ∈ cfg.managers, managerNumBlocksToAllocate s r numTokens hits
      numEncoderTokens total main cap m = .ok (newRequestBlocks s hits numTokens total cap m : Int) := by
    intro m mem
    obtain ⟨empty, notCached⟩ := isNew m mem
    rw [managerNumBlocksToAllocate_eq (kinds m mem)]
    unfold baseNumBlocksToAllocate
    simp only [notCached, empty]
    rfl
  have sum := foldlM_sum each 0
  rw [Nat.zero_add] at sum
  exact sum

omit [DecidableEq H] in
/-- Without the cap it is what the request then holds of the free blocks. -/
theorem newRequestBlocks_eq (s : KVState H) (hits : List (List BlockId)) (n k : Nat)
    (m : SingleTypeKVCacheManager) :
    newRequestBlocks s hits (n + k) n false m = chunkBlocks s hits n k m := by
  have required : m.numRequiredBlocks (n + k) false = cdiv (n + k) m.blockSize := rfl
  rw [newRequestBlocks, chunkBlocks, takenOf, tableLength]
  omega

section

variable (starts : Starts cfg s req args)
include starts

theorem Starts.setting (groups : SelfAttention cfg) (wf : Wf cfg.numBlocks s) :
    Setting cfg s (cfg.newComputedBlockList args) where
  valid := groups.valid
  kinds := groups.kinds
  divides := groups.divides
  wf := wf
  nullsFirst _ mem :=
    (hitSound_of_passesHit groups.valid starts.promised.passesHit mem).nullsFirst wf.pool.toCacheOk.nullUncached

theorem Starts.locals (inside : args.numNewComputedTokens + args.numNewTokens ≤ req.numTokens) :
    numLocalAndExternalTokens req args = args.numNewComputedTokens ∧
      cfg.totalComputedTokens req args = args.numNewComputedTokens ∧
      cfg.numTokensMainModel req args = args.numNewComputedTokens + args.numNewTokens ∧
      cfg.numTokensNeedSlot req args = args.numNewComputedTokens + args.numNewTokens ∧
      cfg.numTokensToCommit req args = args.numNewComputedTokens + args.numNewTokens := by
  have computed : req.numComputedTokens.toNat + args.numNewComputedTokens =
      args.numNewComputedTokens := by
    rw [starts.numComputedTokens]
    exact Nat.zero_add _
  have locals := locals_eq computed rfl starts.numExternalComputedTokens
    starts.numLookaheadTokens (inside.trans starts.numTokens)
  rwa [Nat.min_eq_left inside] at locals

theorem Starts.fullSequenceBlocks (groups : SelfAttention cfg)
    (inside : args.numNewComputedTokens ≤ req.numTokens) :
    cfg.fullSequenceBlocks req args s = .ok (((cfg.managers.map (newRequestBlocks s
      (cfg.newComputedBlockList args) req.numTokens args.numNewComputedTokens true)).sum :
        Nat) : Int) := by
  have fits := starts.numTokens
  have total : cfg.totalComputedTokens req args = args.numNewComputedTokens := by
    rw [totalComputedTokens, numLocalAndExternalTokens, numLocalComputedTokens,
      starts.numComputedTokens, starts.numExternalComputedTokens]
    omega
  simp only [KVCacheConfig.fullSequenceBlocks, total, min_eq_left fits]
  exact getNumBlocksToAllocate_of_new groups.kinds starts.isNew _ _ _ _ _ _

/-- Nothing is skipped for a request without a table. -/
theorem Starts.removeSkippedBlocks (wf : Wf cfg.numBlocks s) {s₁ : KVState H}
    (removed : cfg.removeSkippedBlocks s req.requestId n = .ok s₁) :
    Borrows cfg req.requestId s s₁ ∧ cfg.IsNew s₁ req.requestId := by
  obtain ⟨skipped, wf₁⟩ := removeSkippedBlocks_spec wf removed
  have isNew₁ := skipped.isNew starts.isNew
  exact ⟨.of_isNew wf₁ (fun m mem => (isNew₁ m mem).1)
    (skipped.pool_of_nil fun m mem => (starts.isNew m mem).1), isNew₁⟩

section

variable (setting : Setting cfg s (cfg.newComputedBlockList args))
include setting

/-- The tables before new blocks are taken. -/
theorem Starts.allocateComputed (borrows : Borrows cfg req.requestId s t)
    (isNew : cfg.IsNew t req.requestId) :
    ∃ u, cfg.allocateComputed req args t = .ok u ∧ Borrows cfg req.requestId s u ∧
      ∀ m ∈ cfg.managers, Holds s u req.requestId m (hitsOf (cfg.newComputedBlockList args) m)
        (m.numSkippedBlocks args.numNewComputedTokens)
        (max (m.numSkippedBlocks args.numNewComputedTokens)
          (hitsOf (cfg.newComputedBlockList args) m).length) := by
  have numLocal : numLocalComputedTokens req args = args.numNewComputedTokens := by
    rw [KVCacheConfig.numLocalComputedTokens, starts.numComputedTokens]
    exact Nat.zero_add _
  unfold KVCacheConfig.allocateComputed
  split
  · rw [numLocal, starts.numExternalComputedTokens]
    exact borrows.allocateNewComputedBlocks setting isNew
      (fun b => count_hits_le_one setting.valid setting.wf starts.promised)
      (inRange_of_passesHit setting.valid setting.wf starts.promised.passesHit)
      (hitsOf_eq_nil starts.promised.passesHit)
  · rename_i noNew
    have noNew := Bool.eq_false_iff.mpr noNew
    refine ⟨t, rfl, borrows, fun m mem => ?_⟩
    obtain ⟨empty, -⟩ := isNew m mem
    -- Without hits nothing is computed, and the window skips nothing.
    have noTokens : args.numNewComputedTokens = 0 := by
      have notCross : m.kvCacheSpec.isCrossAttention = false := by
        refine decide_eq_false fun cross => ?_
        have kind := setting.kinds m mem
        rw [cross] at kind
        cases kind
      have slots := starts.promised.slots noNew m mem notCross
      rw [numLocalAndExternalTokens, (starts.isNew m mem).1] at slots
      simp only [length_nil] at slots
      omega
    have noSkip : m.numSkippedBlocks args.numNewComputedTokens = 0 := by
      have : m.numSkippedBlocks 0 ≤ 0 := numSkippedBlocks_le setting.valid mem (Nat.zero_le _)
      rw [noTokens]
      omega
    have noHits : hitsOf (cfg.newComputedBlockList args) m = [] := groupHits_eq_nil noNew m
    rw [noHits, noSkip]
    refine ⟨⟨[], by rw [empty]; rfl, forall_mem_nil _⟩, by rw [empty]; rfl,
      fun _ => Nat.zero_le _, fun _ i b _ found => ?_⟩
    rw [empty] at found
    cases found

section

variable (inside : args.numNewComputedTokens + args.numNewTokens ≤ req.numTokens)
include inside

/-- The tables after the allocation, if the free blocks of `s` cover it. -/
theorem Starts.allocate
    (borrows : Borrows cfg req.requestId s t) (isNew : cfg.IsNew t req.requestId)
    (enough : Prop)
    (fits : enough → (totalChunkBlocks cfg s (cfg.newComputedBlockList args)
      args.numNewComputedTokens args.numNewTokens : Int) ≤ s.blockPool.getNumFreeBlocks) :
    Ensures (fun _ => enough) (fun result => Borrows cfg req.requestId s result.2 ∧
        ∀ m ∈ cfg.managers, Holds s result.2 req.requestId m
          (hitsOf (cfg.newComputedBlockList args) m)
          (m.numSkippedBlocks args.numNewComputedTokens)
          (tableLength (cfg.newComputedBlockList args)
            (args.numNewComputedTokens + args.numNewTokens) m))
      (cfg.allocate req args t) := by
  obtain ⟨-, -, -, needSlot, -⟩ := starts.locals inside
  obtain ⟨u, computed, borrows', holds⟩ := starts.allocateComputed setting borrows isNew
  have length : ∀ m ∈ cfg.managers, max (max (m.numSkippedBlocks args.numNewComputedTokens)
      (hitsOf (cfg.newComputedBlockList args) m).length)
      (cdiv (args.numNewComputedTokens + args.numNewTokens) m.blockSize) =
      tableLength (cfg.newComputedBlockList args)
        (args.numNewComputedTokens + args.numNewTokens) m := by
    intro m mem
    have window := numSkippedBlocks_le setting.valid mem
      (le_cdiv_mul m.blockSize_pos : args.numNewComputedTokens ≤ _)
    have mono := cdiv_mono m.blockSize_pos
      (Nat.le_add_right args.numNewComputedTokens args.numNewTokens)
    unfold tableLength
    omega
  rw [KVCacheConfig.allocate, computed, needSlot]
  exact borrows'.growToChunk setting holds length (cfg.numTokensMainModel req args)
    args.numEncoderTokens enough fits

/-- After a first call that got its blocks, the first chunk is computed. -/
theorem Starts.prefilling {newBlocks : List (List BlockId)}
    (run : cfg.allocateSlots req args s = .ok (some newBlocks, t)) :
    Prefilling cfg s req.requestId (cfg.newComputedBlockList args)
      (args.numNewComputedTokens + args.numNewTokens) t := by
  rcases allocateSlots_cases run with ⟨none, -⟩ | ⟨-, s₁, removed, rest⟩
  · cases none
  rcases rest with ⟨none, -⟩ | ⟨_, blocks, s₂, -, -, allocated, committed, -⟩
  · cases none
  obtain ⟨-, -, -, -, toCommit⟩ := starts.locals inside
  obtain ⟨borrows₁, isNew₁⟩ := starts.removeSkippedBlocks setting.wf removed
  obtain ⟨borrows₂, holds₂⟩ :=
    (starts.allocate setting inside borrows₁ isNew₁ False False.elim).1 _ allocated
  obtain ⟨u, commits, prefilling⟩ := borrows₂.commit setting holds₂ toCommit.le fun caching =>
    (Nat.div_le_div_right (toCommit.trans_le inside)).trans (starts.blockHashes caching)
  rw [commits] at committed
  cases committed
  exact prefilling

/-- The first call gets its blocks iff the free blocks cover what the request then holds
of them. -/
theorem Starts.allocateSlots (pos : 0 < args.numNewTokens) (reserved : args.reservedBlocks = 0)
    (gate : cfg.fullSequenceFits req args s = .ok true) :
    ((totalChunkBlocks cfg s (cfg.newComputedBlockList args) args.numNewComputedTokens
          args.numNewTokens : Int) ≤ s.blockPool.getNumFreeBlocks ∧ ∃ newBlocks u,
        cfg.allocateSlots req args s = .ok (some newBlocks, u) ∧
        Prefilling cfg s req.requestId (cfg.newComputedBlockList args)
          (args.numNewComputedTokens + args.numNewTokens) u) ∨
      (s.blockPool.getNumFreeBlocks < totalChunkBlocks cfg s (cfg.newComputedBlockList args)
          args.numNewComputedTokens args.numNewTokens ∧
        ∃ u, cfg.allocateSlots req args s = .ok (none, u)) := by
  obtain ⟨numLocal, total, main, needSlot, toCommit⟩ := starts.locals inside
  obtain ⟨s₁, skips, -⟩ : ∃ s₁, cfg.removeSkippedBlocks s req.requestId
      args.numNewComputedTokens = .ok s₁ ∧ True := by
    apply Ensures.exists_ok
    refine ensures_foldlM (fun rest _ => ∀ m ∈ rest, m ∈ cfg.managers) ?_ (fun _ mem => mem) |>.mono
      fun _ _ => trivial
    intro m rest s mem
    rw [removeSkippedBlocks_eq (setting.kinds m (mem m (by simp))), ensures_ok]
    exact fun m' mem' => mem m' (by simp [mem'])
  obtain ⟨borrows₁, isNew₁⟩ := starts.removeSkippedBlocks setting.wf skips
  have samePool : s₁.blockPool = s.blockPool :=
    (removeSkippedBlocks_spec setting.wf skips).1.pool_of_nil
      fun m mem => (starts.isNew m mem).1
  have predicted : cfg.numBlocksToAllocate req args s₁ =
      .ok (totalChunkBlocks cfg s (cfg.newComputedBlockList args) args.numNewComputedTokens
        args.numNewTokens : Int) := by
    rw [numBlocksToAllocate, needSlot, numLocal, getNumBlocksToAllocate_of_new setting.kinds isNew₁,
      map_congr_left fun m _ => newRequestBlocks_eq s₁ _ _ _ m]
    simp only [chunkBlocks, takenOf, samePool]
    rfl
  have someNew : ¬ (args.numNewTokens = 0 ∧ args.numExternalComputedTokens = 0) := by
    omega
  have slots : cfg.allocateSlots req args s = cfg.allocateIfFree req args s₁ := by
    rw [KVCacheConfig.allocateSlots, if_neg someNew, gate, ok_bind, if_pos rfl, total, skips, ok_bind]
  rw [slots, KVCacheConfig.allocateIfFree, predicted, ok_bind, samePool]
  by_cases short : s.blockPool.getNumFreeBlocks < totalChunkBlocks cfg s
      (cfg.newComputedBlockList args) args.numNewComputedTokens args.numNewTokens
  · exact .inr ⟨short, s₁, if_pos (by omega)⟩
  refine .inl ⟨by omega, ?_⟩
  rw [if_neg (by omega)]
  obtain ⟨⟨newBlocks, s₂⟩, allocated, borrows₂, holds₂⟩ :=
    (starts.allocate setting inside borrows₁ isNew₁ True fun _ => by omega).exists_ok
  obtain ⟨u, commits, prefilling⟩ := borrows₂.commit setting holds₂ toCommit.le fun caching =>
    (Nat.div_le_div_right (toCommit.trans_le inside)).trans (starts.blockHashes caching)
  refine ⟨newBlocks, u, ?_, prefilling⟩
  simp only [allocated, ok_bind, commits]
  rfl

end

end

end

end Start

/-! ### The chunks after an admission -/

/-- The call that computes `k` more tokens of a request with `n` computed ones. -/
def continuePrefill (cfg : KVCacheConfig) (request : Request H) (t : KVState H) (n k : Nat) :
    Except KVError (Option (List (List BlockId)) × KVState H) :=
  cfg.allocateSlots { request with numComputedTokens := n } { numNewTokens := k } t

/-- A chunk of the prefill: not longer than a batch, and within the request's tokens. -/
structure IsChunk (cfg : KVCacheConfig) (request : Request H) (n k : Nat) : Prop where
  pos : 0 < k
  batched : k ≤ cfg.maxNumBatchedTokens
  inside : n + k ≤ request.numTokens

/-- `Prefills cfg request t n u n'`: chunks that got their blocks lead from `n` computed
tokens in `t` to `n'` in `u`, with new steps in between. -/
inductive Prefills (cfg : KVCacheConfig) (request : Request H) (t : KVState H) (n : Nat) :
    KVState H → Nat → Prop
  | refl : Prefills cfg request t n t n
  | newStep {u : KVState H} {n' : Nat} :
      Prefills cfg request t n u n' → Prefills cfg request t n (cfg.newStepStarts u) n'
  | chunk {u v : KVState H} {n' k : Nat} {newBlocks : List (List BlockId)} :
      Prefills cfg request t n u n' → IsChunk cfg request n' k →
      continuePrefill cfg request u n' k = .ok (some newBlocks, v) →
      Prefills cfg request t n v (n' + k)

/-- Every chunk that continues the prefill gets its blocks. -/
def PrefillFits (cfg : KVCacheConfig) (request : Request H) (t : KVState H) (n : Nat) : Prop :=
  ∀ u n' k, Prefills cfg request t n u n' → IsChunk cfg request n' k →
    ∃ newBlocks v, continuePrefill cfg request u n' k = .ok (some newBlocks, v)

/-- In `s`, the free blocks cover the estimate of `get_num_blocks_to_allocate`, without
the cap, for `n + k` tokens of which `n` are computed. -/
def ChunkFits (cfg : KVCacheConfig) (s : KVState H) (requestId : RequestId)
    (hits : List (List BlockId)) (n k : Nat) : Prop :=
  ∃ numBlocks, cfg.getNumBlocksToAllocate s requestId (n + k) hits 0 n (n + k) false =
    .ok numBlocks ∧ numBlocks ≤ s.blockPool.getNumFreeBlocks

section Chunks

variable {cfg : KVCacheConfig} {s t u : KVState H} {req request : Request H} {args : AllocateSlotsArgs}
  {hits : List (List BlockId)} {m : SingleTypeKVCacheManager} {n k : Nat}

variable {r : RequestId} {n₀ : Nat}

/-- The estimate in `s` is what the request holds of the free blocks of `s`. -/
theorem chunkFits_iff (setting : Setting cfg s hits) (isNew : cfg.IsNew s r) :
    ChunkFits cfg s r hits n k ↔
      (totalChunkBlocks cfg s hits n k : Int) ≤ s.blockPool.getNumFreeBlocks := by
  have sum := getNumBlocksToAllocate_of_new setting.kinds isNew hits (n + k) 0 n (n + k) false
  rw [map_congr_left fun m _ => newRequestBlocks_eq s hits n k m] at sum
  constructor
  · rintro ⟨numBlocks, run, le⟩
    have same := sum.symm.trans run
    cases same
    exact le
  · intro le
    exact ⟨_, sum, le⟩

omit [DecidableEq H] in
theorem Prefilling.newStepStarts (prefilling : Prefilling cfg s r hits n t) :
    Prefilling cfg s r hits n (cfg.newStepStarts t) := by
  obtain ⟨c, same⟩ := newStepStarts_eq cfg t
  rw [same]
  obtain ⟨borrows, tables⟩ := prefilling
  refine ⟨⟨borrows.wf.of_pool borrows.wf.pool rfl rfl, borrows.refCnt, borrows.once⟩,
    fun m mem => ?_⟩
  obtain ⟨skipped, le, holds⟩ := tables m mem
  exact ⟨skipped, le, holds.table, holds.length_eq, holds.numCached, holds.unhashed⟩

/-- The outcome of a chunk is known from `s`. -/
theorem Prefilling.continuePrefill (prefilling : Prefilling cfg s req.requestId hits n t)
    (setting : Setting cfg s hits) (isNew : cfg.IsNew s req.requestId)
    (isChunk : IsChunk cfg req n k) (fits : req.numTokens ≤ cfg.maxModelLen)
    (hashes : cfg.enableCaching = true →
      req.numTokens / cfg.hashBlockSize ≤ req.blockHashes.length) :
    (ChunkFits cfg s req.requestId hits n k ∧ ∃ newBlocks u,
        continuePrefill cfg req t n k = .ok (some newBlocks, u) ∧
        Prefilling cfg s req.requestId hits (n + k) u) ∨
      (¬ ChunkFits cfg s req.requestId hits n k ∧
        ∃ u, continuePrefill cfg req t n k = .ok (none, u)) := by
  rw [chunkFits_iff setting isNew]
  let continued : Request H := { req with numComputedTokens := n }
  have prefilling : Prefilling cfg s continued.requestId hits n t := prefilling
  have outcome := prefilling.allocateSlots setting (continues_default cfg k) rfl isChunk.pos
    (isChunk.inside.trans fits) hashes rfl
  rcases outcome with enough | ⟨short, refused⟩
  · exact .inl enough
  · exact .inr ⟨by omega, refused⟩

theorem Prefills.le (prefills : Prefills cfg req t n₀ u n) : n₀ ≤ n := by
  induction prefills with
  | refl => exact le_rfl
  | newStep _ ih => exact ih
  | chunk _ _ _ ih => exact ih.trans (Nat.le_add_right _ _)

theorem Prefills.prefilling (prefills : Prefills cfg req t n₀ u n)
    (start : Prefilling cfg s req.requestId hits n₀ t) (setting : Setting cfg s hits)
    (isNew : cfg.IsNew s req.requestId) (fits : req.numTokens ≤ cfg.maxModelLen)
    (hashes : cfg.enableCaching = true →
      req.numTokens / cfg.hashBlockSize ≤ req.blockHashes.length) :
    Prefilling cfg s req.requestId hits n u := by
  induction prefills with
  | refl => exact start
  | newStep _ ih => exact ih.newStepStarts
  | chunk _ isChunk run ih =>
    rcases ih.continuePrefill setting isNew isChunk fits hashes with
      ⟨-, newBlocks, v, run', after⟩ | ⟨-, v, refused⟩
    · rw [run'] at run
      cases run
      exact after
    · rw [refused] at run
      cases run

omit [DecidableEq H] in
/-- One token at a time, the chunks reach every length. -/
theorem exists_prefills [DecidableEq H] (all : PrefillFits cfg req t n₀)
    (batch : 0 < cfg.maxNumBatchedTokens) {d : Nat} (inside : n₀ + d ≤ req.numTokens) :
    ∃ u, Prefills cfg req t n₀ u (n₀ + d) := by
  induction d with
  | zero => exact ⟨t, .refl⟩
  | succ d ih =>
    obtain ⟨u, before⟩ := ih (by omega)
    have isChunk : IsChunk cfg req (n₀ + d) 1 := ⟨Nat.one_pos, batch, by omega⟩
    obtain ⟨newBlocks, v, run⟩ := all u (n₀ + d) 1 before isChunk
    have after := Prefills.chunk before isChunk run
    exact ⟨v, after⟩

/-- After an admission every chunk gets its blocks iff, in the state before it, the
free blocks cover the estimate of every chunk still to come. -/
theorem prefillFits_iff (groups : SelfAttention cfg) (wf : Wf cfg.numBlocks s)
    (admits : Admits cfg s request args) {newBlocks : List (List BlockId)}
    (admitted : cfg.allocateSlots request args s = .ok (some newBlocks, t)) :
    PrefillFits cfg request t (args.numNewComputedTokens + args.numNewTokens) ↔
      ∀ n k, args.numNewComputedTokens + args.numNewTokens ≤ n → IsChunk cfg request n k →
        ChunkFits cfg s request.requestId (cfg.newComputedBlockList args) n k := by
  have setting := admits.toStarts.setting groups wf
  constructor
  · intro all n k le isChunk
    have pos := isChunk.pos
    have batched := isChunk.batched
    have inside := isChunk.inside
    have start := admits.toStarts.prefilling setting (by omega) admitted
    obtain ⟨d, rfl⟩ := Nat.exists_eq_add_of_le le
    obtain ⟨u, prefills⟩ := exists_prefills (d := d) all (by omega) (by omega)
    have prefilling := prefills.prefilling start setting admits.isNew admits.numTokens
      admits.blockHashes
    rcases prefilling.continuePrefill setting admits.isNew isChunk admits.numTokens
        admits.blockHashes with ⟨fits, -⟩ | ⟨-, v, refused⟩
    · exact fits
    · obtain ⟨newBlocks', v', run⟩ := all u _ k prefills isChunk
      rw [refused] at run
      cases run
  · intro fits u n k prefills isChunk
    have le := prefills.le
    have inside := isChunk.inside
    have start := admits.toStarts.prefilling setting (by omega) admitted
    have prefilling := prefills.prefilling start setting admits.isNew admits.numTokens
      admits.blockHashes
    rcases prefilling.continuePrefill setting admits.isNew isChunk admits.numTokens
        admits.blockHashes with ⟨-, newBlocks', v, run, -⟩ | ⟨short, -⟩
    · exact ⟨newBlocks', v, run⟩
    · exact absurd (fits n k le isChunk) short

/-! ### When the gate is enough -/

/-- A block of the group is not smaller than one of the spec. -/
theorem kvCacheSpec_blockSize_le (m : SingleTypeKVCacheManager) :
    m.kvCacheSpec.blockSize ≤ m.blockSize := by
  unfold blockSize
  split
  · exact Nat.le_mul_of_pos_right _ (by omega)
  · exact le_rfl

/-- A sliding window covers `w - 1` tokens before the new ones, and the blocks at both ends. -/
theorem windowBlocks_le {w : Nat} (kind : m.kvCacheSpec.kind = .slidingWindow w)
    (batched : k ≤ cfg.maxNumBatchedTokens) (inside : n + k ≤ cfg.maxModelLen) :
    cdiv (n + k) m.blockSize ≤ m.numSkippedBlocks n + (cdiv
      (min (w - 1 + cfg.maxNumBatchedTokens) cfg.maxModelLen) m.kvCacheSpec.blockSize + 1) := by
  have pos := m.blockSize_pos
  -- The tokens before the window fill the skipped blocks and less than one more.
  have skipped : n + 1 - w < (m.numSkippedBlocks n + 1) * m.blockSize := by
    unfold numSkippedBlocks KVCacheSpec.getNumSkippedTokens
    rw [kind]
    exact Nat.lt_mul_of_div_lt (Nat.lt_succ_self _) pos
  have covered : min (w - 1 + cfg.maxNumBatchedTokens) cfg.maxModelLen ≤
      cdiv (min (w - 1 + cfg.maxNumBatchedTokens) cfg.maxModelLen) m.kvCacheSpec.blockSize *
        m.blockSize :=
    (le_cdiv_mul m.kvCacheSpec.blockSize_pos).trans
      (Nat.mul_le_mul_left _ (kvCacheSpec_blockSize_le m))
  rw [cdiv_le_iff pos, Nat.add_left_comm, Nat.add_mul]
  omega

/-- A sliding window with one chunk never needs more blocks than the cap. -/
theorem windowBlocks_le_cap (mem : m ∈ cfg.managers) {w cap : Nat}
    (kind : m.kvCacheSpec.kind = .slidingWindow w)
    (isCap : m.maxAdmissionBlocksPerRequest = some cap) (batched : k ≤ cfg.maxNumBatchedTokens)
    (inside : n + k ≤ cfg.maxModelLen) :
    cdiv (n + k) m.blockSize - m.numSkippedBlocks n ≤ cap := by
  obtain ⟨g, i, -, isManager⟩ := mem_managers.mp mem
  have cap_eq : cap = cdiv (min (w - 1 + cfg.maxNumBatchedTokens) cfg.maxModelLen)
      m.kvCacheSpec.blockSize + 1 := by
    rw [isManager] at isCap kind ⊢
    simp only [manager, KVCacheSpec.maxAdmissionBlocksPerRequest] at isCap kind ⊢
    rw [kind] at isCap
    exact (Option.some.inj isCap).symm
  have := windowBlocks_le kind batched inside
  omega

/-- The gate guarantees the chunks if in each group the cap does not bind, or nothing
is subtracted from it. -/
theorem chunkFits_of_gate (groups : SelfAttention cfg) (wf : Wf cfg.numBlocks s)
    (admits : Admits cfg s req args)
    (kinds : ∀ m ∈ cfg.managers, m.kvCacheSpec.kind = .fullAttention ∨
      ∃ w, m.kvCacheSpec.kind = .slidingWindow w)
    (gate : cfg.fullSequenceFits req args s = .ok true)
    (covered : ∀ m ∈ cfg.managers,
      (∀ cap, m.maxAdmissionBlocksPerRequest = some cap →
        cdiv req.numTokens m.blockSize ≤ cap) ∨
      (hitsOf (cfg.newComputedBlockList args) m = [] ∧
        m.numSkippedBlocks args.numNewComputedTokens = 0))
    (le : args.numNewComputedTokens ≤ n) (isChunk : IsChunk cfg req n k) :
    ChunkFits cfg s req.requestId (cfg.newComputedBlockList args) n k := by
  have setting := admits.toStarts.setting groups wf
  have fits := admits.numTokens
  have inside := isChunk.inside
  let asked := newRequestBlocks s (cfg.newComputedBlockList args) req.numTokens
    args.numNewComputedTokens true
  have enough : ((cfg.managers.map asked).sum : Int) ≤ s.blockPool.getNumFreeBlocks := by
    rw [fullSequenceFits, if_pos admits.fullSequenceMustFit,
      admits.toStarts.fullSequenceBlocks groups (by omega)] at gate
    exact of_decide_eq_true (Except.ok.inj gate)
  have each : ∀ m ∈ cfg.managers,
      chunkBlocks s (cfg.newComputedBlockList args) n k m ≤ asked m := by
    intro m mem
    have window := numSkippedBlocks_mono m le
    have grows := cdiv_mono m.blockSize_pos inside
    have evictable : getNumEvictableBlocks s.blockPool
        ((hitsOf (cfg.newComputedBlockList args) m).drop (m.numSkippedBlocks n)) ≤
        getNumEvictableBlocks s.blockPool ((hitsOf (cfg.newComputedBlockList args) m).drop
          (m.numSkippedBlocks args.numNewComputedTokens)) :=
      List.Sublist.countP_le (drop_sublist_drop_left _ window)
    simp only [asked, newRequestBlocks, chunkBlocks, takenOf, tableLength]
    cases capped : m.maxAdmissionBlocksPerRequest with
    | none =>
      have required : m.numRequiredBlocks req.numTokens true =
          cdiv req.numTokens m.blockSize := by
        unfold numRequiredBlocks
        rw [capped]
      omega
    | some cap =>
      have required : m.numRequiredBlocks req.numTokens true =
          min (cdiv req.numTokens m.blockSize) cap := by
        unfold numRequiredBlocks
        rw [capped]
      rcases covered m mem with unbound | ⟨noHits, noSkip⟩
      · have := unbound cap capped
        omega
      · rw [noHits, drop_nil, length_nil]
        have atMost : cdiv (n + k) m.blockSize - m.numSkippedBlocks n ≤ cap := by
          rcases kinds m mem with full | ⟨w, window⟩
          · obtain ⟨g, i, -, isManager⟩ := mem_managers.mp mem
            rw [isManager] at capped full
            simp only [manager, KVCacheSpec.maxAdmissionBlocksPerRequest] at capped full
            rw [full] at capped
            cases capped
          · exact windowBlocks_le_cap mem window capped isChunk.batched (by omega)
        have none : getNumEvictableBlocks s.blockPool [] = 0 := rfl
        omega
  rw [chunkFits_iff setting admits.isNew]
  have total : totalChunkBlocks cfg s (cfg.newComputedBlockList args) n k ≤
      (cfg.managers.map asked).sum := sum_le_sum each
  omega

end Chunks

/-! ### A hit behind the window -/

/-- One group with a window of two tokens over two blocks of one token. -/
def windowOnly : KVCacheConfig where
  kvCacheGroups := [⟨{ kind := .slidingWindow 2, blockSize := 1, blockSize_pos := Nat.one_pos }, false⟩]
  numBlocks := 3
  maxModelLen := 16
  maxNumBatchedTokens := 3
  schedulerBlockSize := 1
  hashBlockSize := 1

theorem windowOnly_selfAttention : SelfAttention windowOnly :=
  ⟨⟨by decide, by decide, by decide, by decide, by decide⟩, by decide, by decide⟩

/-- A request whose tokens are hashed one by one, starting like every other. -/
def countingRequest (r : RequestId) (numTokens : Nat) : Request Nat :=
  { requestId := r
    allTokenIds := (range numTokens).map Int.ofNat
    blockHashes := range numTokens }

def computeToken (request : Request Nat) (n : Nat) : Call Nat :=
  .allocateSlots { request with numComputedTokens := n } { numNewTokens := 1 }

/-- Four tokens are computed one by one and freed; the last one stays cached. -/
def fourTokensFreed : List (Call Nat) :=
  [computeToken (countingRequest 0 4) 0, computeToken (countingRequest 0 4) 1,
    computeToken (countingRequest 0 4) 2, computeToken (countingRequest 0 4) 3, .free 0]

/-- The admission with that hit: null blocks for what the window skips, and the block of
the fourth token. -/
def admitAfterHit (hit : List (List BlockId)) : AllocateSlotsArgs :=
  { numNewTokens := 1, numNewComputedTokens := 4, newComputedBlocks := some hit,
    fullSequenceMustFit := true }

/-- The cap of five blocks less the four positions of the hit is one block, and one for
the hit itself: the gate admits nine tokens, but the chunk of three tokens after the
first needs three blocks of its own. -/
theorem windowOnly_not_prefillFits : SelfAttention windowOnly ∧ ∃ s t newBlocks,
    Run (guarded (CallPredictable windowOnly) windowOnly.step) (init Nat 3)
      fourTokensFreed s ∧
    Wf 3 s ∧ Admits windowOnly s (countingRequest 1 9) (admitAfterHit [[0, 0, 0, 2]]) ∧
    windowOnly.allocateSlots (countingRequest 1 9) (admitAfterHit [[0, 0, 0, 2]]) s =
      .ok (some newBlocks, t) ∧
    ¬ PrefillFits windowOnly (countingRequest 1 9) t 5 := by
  have final : (fourTokensFreed.foldlM windowOnly.exec (init Nat 3)).map (fun s =>
      (decide (Admits windowOnly s (countingRequest 1 9) (admitAfterHit [[0, 0, 0, 2]])),
        (windowOnly.allocateSlots (countingRequest 1 9) (admitAfterHit [[0, 0, 0, 2]]) s).map
          fun result => (result.1, (continuePrefill windowOnly (countingRequest 1 9) result.2 5
            3).map (·.1)))) =
      .ok (true, .ok (some [[1]], .ok none)) := by rfl
  obtain ⟨s, ends, facts⟩ := map_eq_ok.mp final
  obtain ⟨admits, facts⟩ := Prod.mk.inj facts
  obtain ⟨⟨result, t⟩, admitted, facts⟩ := map_eq_ok.mp facts
  obtain ⟨isSome, facts⟩ := Prod.mk.inj facts
  obtain ⟨⟨outcome, u⟩, refused, isNone⟩ := map_eq_ok.mp facts
  cases isSome
  cases isNone
  have run : Run (guarded (CallPredictable windowOnly) windowOnly.step) (init Nat 3)
      fourTokensFreed s := .of_alongOk (by decide) ends
  refine ⟨windowOnly_selfAttention, s, t, _, run, (accounted_of_run windowOnly_selfAttention.valid run).wf,
    of_decide_eq_true admits, admitted, fun all => ?_⟩
  obtain ⟨newBlocks, v, continued⟩ := all t 5 3 .refl ⟨by decide, by decide, by decide⟩
  rw [refused] at continued
  cases continued

/-- Nothing is subtracted from the cap for a request without a hit. -/
def admitFresh : AllocateSlotsArgs := { numNewTokens := 1, fullSequenceMustFit := true }

/-- The same window over five blocks admits a sequence of any length without a hit. -/
def windowOverFive : KVCacheConfig := { windowOnly with numBlocks := 6 }

theorem windowOverFive_prefillFits : ∃ t newBlocks,
    windowOverFive.allocateSlots (countingRequest 1 9) admitFresh (init Nat 6) =
      .ok (some newBlocks, t) ∧ PrefillFits windowOverFive (countingRequest 1 9) t 1 := by
  have final : (windowOverFive.allocateSlots (countingRequest 1 9) admitFresh
      (init Nat 6)).map (·.1) = .ok (some [[1]]) := by rfl
  obtain ⟨⟨result, t⟩, admitted, isSome⟩ := map_eq_ok.mp final
  cases isSome
  have groups : SelfAttention windowOverFive :=
    ⟨⟨by decide, by decide, by decide, by decide, by decide⟩, by decide, by decide⟩
  have wf : Wf 6 (init Nat 6) := .init Nat (by decide)
  have admits : Admits windowOverFive (init Nat 6) (countingRequest 1 9) admitFresh := by
    decide
  have window : ∀ m ∈ windowOverFive.managers, m.kvCacheSpec.kind = .slidingWindow 2 := by decide
  have nothing : ∀ m ∈ windowOverFive.managers,
      hitsOf (windowOverFive.newComputedBlockList admitFresh) m = [] ∧ m.numSkippedBlocks 0 = 0 := by
    decide
  refine ⟨t, _, admitted, (prefillFits_iff groups wf admits admitted).mpr fun n k le isChunk => ?_⟩
  exact chunkFits_of_gate groups wf admits (fun m mem => .inr ⟨2, window m mem⟩) rfl
    (fun m mem => .inr (nothing m mem)) (Nat.zero_le n) isChunk

end Vllm.KVCache
