import Vllm.Eplb.RebalanceExecute

/-!
The rearrangement of experts puts every expert where the new indices want it.

For each expert the ranks that have it share out the ranks that lack it, by quotient
and remainder (`senderPos`). A rank posts a send and a receive for each pair in the
relation that results (`Transfers`), both in the order of the expert ids, so that the two
ends of every channel agree (`channel_eq`).
-/

namespace Vllm.Eplb

open Vllm.Lib.Arrays Vllm.Lib.Fallible List
open Function (update update_self update_of_ne)

/-! ### Sharing out receivers -/

/-- The sender for the receiver at position `j`, of `s` senders and `n` receivers. -/
def senderPos (s n j : Nat) : Nat := if j < s * (n / s) then j / (n / s) else j - s * (n / s)

theorem senderPos_lt {s n j : Nat} (pos : 0 < s) (lt : j < n) : senderPos s n j < s := by
  unfold senderPos
  split
  · rename_i inBlocks
    exact Nat.div_lt_of_lt_mul (Nat.mul_comm s _ ▸ inBlocks)
  · have := Nat.div_add_mod n s
    have := Nat.mod_lt n pos
    omega

/-- The receivers of a sender: its block, and one of the remainder. -/
theorem senderPos_eq_iff {s n j p : Nat} (inSenders : p < s) :
    senderPos s n j = p ↔ (p * (n / s) ≤ j ∧ j < p * (n / s) + n / s) ∨ j = s * (n / s) + p := by
  unfold senderPos
  generalize n / s = q
  have block : p * q + q ≤ s * q := by
    rw [← Nat.succ_mul]
    exact Nat.mul_le_mul_right q inSenders
  split
  · rename_i inBlocks
    have pos : 0 < q := Nat.pos_of_ne_zero fun zero => by simp [zero] at inBlocks
    rw [Nat.div_eq_iff pos]
    omega
  · omega

section Shares

variable {S R : List Nat}

theorem mem_recvRanksOf {p r : Nat} (inSenders : p < S.length) :
    r ∈ recvRanksOf S R p ↔ ∃ j, R[j]? = some r ∧ senderPos S.length R.length j = p := by
  have block : r ∈ (R.drop (p * (R.length / S.length))).take (R.length / S.length) ↔
      ∃ j, R[j]? = some r ∧ p * (R.length / S.length) ≤ j ∧
        j < p * (R.length / S.length) + R.length / S.length := by
    rw [mem_iff_getElem?]
    constructor
    · rintro ⟨k, found⟩
      rw [getElem?_take] at found
      split at found
      · rw [getElem?_drop] at found
        exact ⟨_, found, by omega, by omega⟩
      · cases found
    · rintro ⟨j, found, after, before⟩
      refine ⟨j - p * (R.length / S.length), ?_⟩
      rw [getElem?_take, if_pos (by omega), getElem?_drop, Nat.add_sub_cancel' after]
      exact found
  have either : r ∈ recvRanksOf S R p ↔
      r ∈ (R.drop (p * (R.length / S.length))).take (R.length / S.length) ∨
        R[S.length * (R.length / S.length) + p]? = some r := by
    unfold recvRanksOf
    simp only
    cases R[S.length * (R.length / S.length) + p]? with
    | none => simp
    | some last => simp [eq_comm]
  rw [either, block]
  simp only [senderPos_eq_iff inSenders]
  constructor
  · rintro (⟨j, found, inBlock⟩ | last)
    · exact ⟨j, found, .inl inBlock⟩
    · exact ⟨_, last, .inr rfl⟩
  · rintro ⟨j, found, inBlock | rfl⟩
    · exact .inl ⟨j, found, inBlock⟩
    · exact .inr found

theorem recvRanksOf_sublist {p : Nat} (inSenders : p < S.length) :
    (recvRanksOf S R p).Sublist R := by
  unfold recvRanksOf
  generalize R.length / S.length = q
  have block : p * q + q ≤ S.length * q := by
    rw [← Nat.succ_mul]
    exact Nat.mul_le_mul_right q inSenders
  have first : ((R.drop (p * q)).take q).Sublist (R.take (p * q + q)) := by
    rw [take_add]
    exact sublist_append_right _ _
  simp only
  split
  · rename_i last found
    have later : last ∈ R.drop (p * q + q) := by
      refine mem_iff_getElem?.mpr ⟨S.length * q + p - (p * q + q), ?_⟩
      rw [getElem?_drop, Nat.add_sub_cancel' (by omega)]
      exact found
    have both := first.append (singleton_sublist.mpr later)
    rwa [take_append_drop] at both
  · exact first.trans (take_sublist _ _)

/-- The two ends agree: a rank is among the receivers of a sender if that is the sender
it waits for. -/
theorem mem_recvRanksOf_iff (nodupS : S.Nodup) (nodupR : R.Nodup) {a b : Nat} (sends : a ∈ S) :
    b ∈ recvRanksOf S R (S.idxOf a) ↔
      b ∈ R ∧ S[senderPos S.length R.length (R.idxOf b)]? = some a := by
  have inSenders := List.idxOf_lt_length_of_mem sends
  rw [mem_recvRanksOf inSenders]
  constructor
  · rintro ⟨j, found, assigned⟩
    have isIdx : R.idxOf b = j := by
      obtain ⟨inRange, rfl⟩ := List.getElem?_eq_some_iff.mp found
      exact nodupR.idxOf_getElem j inRange
    rw [isIdx, assigned]
    exact ⟨mem_of_getElem? found, getElem?_idxOf sends⟩
  · rintro ⟨mem, found⟩
    refine ⟨R.idxOf b, List.getElem?_idxOf mem, ?_⟩
    obtain ⟨inRange, same⟩ := List.getElem?_eq_some_iff.mp found
    rw [← same, nodupS.idxOf_getElem]

end Shares

/-! ### The ranks of an expert -/

section Lookup

variable {α : Type} {entries : List (Int × α)} {x : Int} {a : α}

theorem mem_of_lookup (found : entries.lookup x = some a) : (x, a) ∈ entries := by
  obtain ⟨before, after, rfl, -⟩ := lookup_eq_some_iff.mp found
  simp

theorem exists_lookup (mem : (x, a) ∈ entries) : ∃ b, entries.lookup x = some b := by
  refine Option.ne_none_iff_exists'.mp fun none => ?_
  simpa using lookup_eq_none_iff.mp none _ mem

end Lookup

/-- The expert is in a slot of the rank. -/
def Holds (numLocalExperts : Nat) (indices : List Int) (rank : Nat) (expert : Int) : Prop :=
  ∃ row < numLocalExperts, localExpertIds numLocalExperts rank indices row = expert

instance (n : Nat) (indices : List Int) (rank : Nat) (expert : Int) :
    Decidable (Holds n indices rank expert) :=
  inferInstanceAs (Decidable (∃ row < n, _))

section Ranks

variable {numRanks n : Nat} {indices old new : List Int} {x : Int}

def holders (numRanks n : Nat) (indices : List Int) (expert : Int) : List Nat :=
  (range numRanks).filter fun rank => Holds n indices rank expert

variable {rank : Nat} {uniqueExperts : List Int}

theorem mem_holders :
    rank ∈ holders numRanks n indices x ↔ rank < numRanks ∧ Holds n indices rank x := by
  simp [holders]

theorem holders_sorted : (holders numRanks n indices x).Pairwise (· < ·) :=
  pairwise_lt_range.filter _

theorem holds_iff_position (length : indices.length = numRanks * n) :
    rank < numRanks ∧ Holds n indices rank x ↔
      ∃ p < indices.length, expertAt indices p = x ∧ p / n = rank := by
  constructor
  · rintro ⟨inRanks, row, inRows, at_row⟩
    have pos : 0 < n := by omega
    refine ⟨rank * n + row, ?_, at_row, ?_⟩
    · have := Nat.mul_le_mul_right n inRanks
      rw [Nat.succ_mul] at this
      omega
    · rw [Nat.mul_comm, Nat.mul_add_div pos, Nat.div_eq_of_lt inRows, Nat.add_zero]
  · rintro ⟨p, inRange, at_p, rfl⟩
    rw [length] at inRange
    have pos : 0 < n := Nat.pos_of_ne_zero fun zero => by simp [zero] at inRange
    refine ⟨Nat.div_lt_of_lt_mul (Nat.mul_comm n _ ▸ inRange), p % n, Nat.mod_lt p pos, ?_⟩
    rw [localExpertIds, Nat.mul_comm, Nat.div_add_mod]
    exact at_p

theorem mem_ranksByExpert (length : indices.length = numRanks * n) {entry : Int × List Nat}
    (mem : entry ∈ ranksByExpert n indices uniqueExperts) :
    entry.2 = holders numRanks n indices entry.1 := by
  have increasing : ((range indices.length).filter
      (expertAt indices · ∈ uniqueExperts)).Pairwise (· < ·) := pairwise_lt_range.filter _
  obtain ⟨run, memRun, isEntry⟩ := mem_filterMap.mp mem
  obtain ⟨first, isHead, whole⟩ := (runsOf_positionsByKey increasing).whole run memRun
  rw [isHead, Option.map_some, Option.some.injEq] at isEntry
  subst isEntry
  have inRun : ∀ p, p ∈ run ↔ p < indices.length ∧ expertAt indices p = expertAt indices first := by
    have relevant : expertAt indices first ∈ uniqueExperts := by
      have := mem_of_mem_head? (Option.mem_def.mpr isHead)
      rw [whole] at this
      simpa using (mem_filter.mp (mem_filter.mp this).1).2
    intro p
    rw [whole, mem_filter, mem_filter, mem_range]
    simp only [decide_eq_true_eq]
    constructor
    · exact fun both => ⟨both.1.1, both.2⟩
    · exact fun both => ⟨⟨both.1, both.2 ▸ relevant⟩, both.2⟩
  have sorted : run.Pairwise (· < ·) := by
    rw [whole]
    exact increasing.filter _
  refine List.Pairwise.eq_of_mem_iff (firstAppearances_sorted ?_) holders_sorted ?_
  · exact pairwise_map.mpr (sorted.imp fun lt => Nat.div_le_div_right (lt.le))
  · intro rank
    rw [mem_firstAppearances, mem_map, mem_holders, holds_iff_position length]
    simp only [inRun]
    constructor
    · rintro ⟨p, ⟨inRange, at_p⟩, isRank⟩
      exact ⟨p, inRange, at_p, isRank⟩
    · rintro ⟨p, inRange, at_p, isRank⟩
      exact ⟨p, ⟨inRange, at_p⟩, isRank⟩

theorem exists_ranksByExpert (queried : x ∈ uniqueExperts) {p : Nat}
    (inRange : p < indices.length) (at_p : expertAt indices p = x) :
    ∃ entry ∈ ranksByExpert n indices uniqueExperts, entry.1 = x := by
  have increasing : ((range indices.length).filter
      (expertAt indices · ∈ uniqueExperts)).Pairwise (· < ·) := pairwise_lt_range.filter _
  have runs : RunsOf (expertAt indices) _ _ := runsOf_positionsByKey increasing
  obtain ⟨run, memRun, inRun⟩ := runs.cover p
    (mem_filter.mpr ⟨mem_range.mpr inRange, by simpa [at_p] using queried⟩)
  obtain ⟨first, isHead, whole⟩ := runs.whole run memRun
  rw [whole, mem_filter] at inRun
  have same : expertAt indices p = expertAt indices first := by simpa using inRun.2
  refine ⟨(expertAt indices first, firstAppearances (run.map (· / n))),
    mem_filterMap.mpr ⟨run, memRun, ?_⟩, same.symm.trans at_p⟩
  rw [isHead]
  rfl

theorem lookup_ranksByExpert (length : indices.length = numRanks * n)
    (queried : x ∈ uniqueExperts) :
    ((ranksByExpert n indices uniqueExperts).lookup x).getD [] =
      holders numRanks n indices x := by
  cases found : (ranksByExpert n indices uniqueExperts).lookup x with
  | some ranks => exact mem_ranksByExpert length (mem_of_lookup found)
  | none =>
    refine (filter_eq_nil_iff.mpr fun rank mem holds => ?_).symm
    obtain ⟨p, inRange, at_p, -⟩ := (holds_iff_position length).mp
      ⟨mem_range.mp mem, by simpa using holds⟩
    obtain ⟨entry, memEntry, same⟩ := exists_ranksByExpert queried inRange at_p
    have := lookup_eq_none_iff.mp found entry memEntry
    simp [same] at this

/-- Every expert asked for has an entry in the end. -/
theorem ranksOf_withMissing {ranks : List (Int × List Nat)} (queried : x ∈ uniqueExperts) :
    ranksOf (withMissing ranks uniqueExperts) x = .ok ((ranks.lookup x).getD []) := by
  have missing : ranks.lookup x = none →
      ((uniqueExperts.filter fun x => (ranks.lookup x).isNone).map
        fun x => (x, ([] : List Nat))).lookup x = some [] := by
    intro absent
    have mem : (x, ([] : List Nat)) ∈
        (uniqueExperts.filter fun x => (ranks.lookup x).isNone).map (·, []) :=
      mem_map.mpr ⟨x, mem_filter.mpr ⟨queried, by simp [absent]⟩, rfl⟩
    obtain ⟨v, found⟩ := exists_lookup mem
    obtain ⟨e, -, same⟩ := mem_map.mp (mem_of_lookup found)
    rw [found, (Prod.mk.inj same).2]
  unfold ranksOf withMissing
  rw [lookup_append]
  cases found : ranks.lookup x with
  | some r => rfl
  | none =>
    rw [missing found]
    rfl

theorem lookup_map_snd {α β : Type} (f : Int → α → β) (entries : List (Int × α)) (x : Int) :
    (entries.map fun entry => (entry.1, f entry.1 entry.2)).lookup x =
      (entries.lookup x).map (f x) := by
  induction entries with
  | nil => rfl
  | cons entry rest ih =>
    rw [map_cons, lookup_cons, lookup_cons]
    split
    · rename_i same
      rw [beq_iff_eq] at same
      rw [same]
      rfl
    · exact ih

/-- The ranks that have the expert, and those that have a slot for it and lack it. -/
theorem getEpRanksWithExpertsBatch_spec (oldLength : old.length = numRanks * n)
    (newLength : new.length = numRanks * n) {expertIds : List Int}
    (queried : x ∈ expertIds) :
    ranksOf (getEpRanksWithExpertsBatch expertIds n old new).1 x =
        .ok (holders numRanks n old x) ∧
      ranksOf (getEpRanksWithExpertsBatch expertIds n old new).2 x =
        .ok ((holders numRanks n new x).filter
          (· ∉ holders numRanks n old x)) := by
  have inUnique : x ∈ (unique expertIds).map Prod.fst :=
    mem_map.mpr ⟨(x, expertIds.idxOf x), mem_unique.mpr ⟨queried, rfl⟩, rfl⟩
  have asked : expertIds ≠ [] := ne_nil_of_mem queried
  unfold getEpRanksWithExpertsBatch
  rw [if_neg asked]
  rw [ranksOf_withMissing inUnique, ranksOf_withMissing inUnique,
    lookup_ranksByExpert oldLength inUnique]
  refine ⟨rfl, ?_⟩
  have entries := lookup_map_snd (fun e (ranks : List Nat) => ranks.filter
    (· ∉ ((ranksByExpert n old ((unique expertIds).map Prod.fst)).lookup e).getD []))
    (ranksByExpert n new ((unique expertIds).map Prod.fst)) x
  rw [entries, lookup_ranksByExpert oldLength inUnique, ← lookup_ranksByExpert newLength inUnique]
  cases (ranksByExpert n new ((unique expertIds).map Prod.fst)).lookup x <;> rfl

end Ranks

/-! ### Rows -/

section Rows

variable {n rank : Nat} {indices : List Int} {rows : List Nat}

theorem mem_firstRows {x : Int} {row : Nat}
    (mem : (x, row) ∈ firstRows n rank indices rows) :
    row ∈ rows ∧ localExpertIds n rank indices row = x := by
  obtain ⟨⟨expert', i⟩, memUnique, isEntry⟩ := mem_filterMap.mp mem
  obtain ⟨row', at_i, same⟩ := Option.map_eq_some_iff.mp isEntry
  cases same
  obtain ⟨inExperts, rfl⟩ := mem_unique.mp memUnique
  refine ⟨mem_of_getElem? at_i, ?_⟩
  have found := getElem?_idxOf inExperts
  rw [getElem?_map, at_i] at found
  exact Option.some.inj found

theorem exists_firstRows {row : Nat} (mem : row ∈ rows) :
    ∃ first, (localExpertIds n rank indices row, first) ∈ firstRows n rank indices rows := by
  have inExperts := mem_map_of_mem (f := localExpertIds n rank indices) mem
  have found := getElem?_idxOf inExperts
  rw [getElem?_map] at found
  obtain ⟨first, at_i, -⟩ := Option.map_eq_some_iff.mp found
  exact ⟨first, mem_filterMap.mpr ⟨_, mem_unique.mpr ⟨inExperts, rfl⟩, by rw [at_i]; rfl⟩⟩

theorem firstRows_sorted : (firstRows n rank indices rows).Pairwise (·.1 < ·.1) := by
  refine pairwise_filterMap.mpr ((unique_sorted _).imp ?_)
  intro entry later lt a isA b isB
  obtain ⟨_, -, rfl⟩ := Option.map_eq_some_iff.mp isA
  obtain ⟨_, -, rfl⟩ := Option.map_eq_some_iff.mp isB
  exact lt

end Rows

section Posts

variable {numRanks n rank : Nat} {old new : List Int} {x : Int}

variable {row : Nat}

/-- The rows to send from are the first rows of the experts that the rank has. -/
theorem mem_sendRows (mem : (x, row) ∈ sendRows n old rank) :
    x ≠ noExpert ∧ row < n ∧ localExpertIds n rank old row = x := by
  obtain ⟨inRows, isX⟩ := mem_firstRows mem
  obtain ⟨inRange, valid⟩ := mem_filter.mp inRows
  refine ⟨?_, mem_range.mp inRange, isX⟩
  rw [← isX]
  simpa using valid

theorem sendRows_sorted : (sendRows n old rank).Pairwise (·.1 < ·.1) := firstRows_sorted

theorem exists_sendRows (valid : x ≠ noExpert) :
    Holds n old rank x ↔ ∃ row, (x, row) ∈ sendRows n old rank := by
  constructor
  · rintro ⟨row, inRange, rfl⟩
    exact exists_firstRows (mem_filter.mpr ⟨mem_range.mpr inRange, by simpa using valid⟩)
  · rintro ⟨row, mem⟩
    obtain ⟨-, inRange, isX⟩ := mem_sendRows mem
    exact ⟨row, inRange, isX⟩

theorem isReceivedLocally_iff (inRange : row < n)
    (valid : localExpertIds n rank new row ≠ noExpert) :
    isReceivedLocally n old new rank row = true ↔
      Holds n old rank (localExpertIds n rank new row) := by
  unfold isReceivedLocally isUnchanged
  simp only [Bool.or_eq_true, decide_eq_true_eq, Bool.and_eq_true, mem_map, mem_range]
  constructor
  · rintro (same | ⟨-, row', inRange', same⟩)
    · exact ⟨row, inRange, same⟩
    · exact ⟨row', inRange', same⟩
  · rintro ⟨row', inRange', same⟩
    exact .inr ⟨by simpa using valid, row', inRange', same⟩

/-- The primary rows are rows for experts that the rank lacks. -/
theorem mem_recvRows (mem : (x, row) ∈ recvRows n old new rank) :
    x ≠ noExpert ∧ row < n ∧ localExpertIds n rank new row = x ∧
      ¬ Holds n old rank x := by
  obtain ⟨inRows, isX⟩ := mem_firstRows mem
  obtain ⟨inRange, kept⟩ := mem_filter.mp inRows
  simp only [Bool.and_eq_true, decide_eq_true_eq] at kept
  subst isX
  refine ⟨kept.2, mem_range.mp inRange, rfl, fun holds => ?_⟩
  rw [(isReceivedLocally_iff (mem_range.mp inRange) kept.2).mpr holds] at kept
  cases kept.1

theorem recvRows_sorted : (recvRows n old new rank).Pairwise (·.1 < ·.1) :=
  firstRows_sorted

theorem exists_recvRows (valid : x ≠ noExpert) :
    Holds n new rank x ∧ ¬ Holds n old rank x ↔
      ∃ row, (x, row) ∈ recvRows n old new rank := by
  constructor
  · rintro ⟨⟨row, inRange, rfl⟩, lacks⟩
    refine exists_firstRows (mem_filter.mpr ⟨mem_range.mpr inRange, ?_⟩)
    simp only [Bool.and_eq_true, Bool.not_eq_true', decide_eq_true_eq]
    refine ⟨?_, valid⟩
    rw [← Bool.not_eq_true, isReceivedLocally_iff inRange valid]
    exact lacks
  · rintro ⟨row, mem⟩
    obtain ⟨-, inRange, isX, lacks⟩ := mem_recvRows mem
    exact ⟨⟨row, inRange, isX⟩, lacks⟩

end Posts

/-! ### What a rank posts -/

/-- The arrays cover the ranks' slots, and every expert that is wanted is somewhere. -/
structure Layout (numRanks n : Nat) (old new : List Int) : Prop where
  oldLength : old.length = numRanks * n
  newLength : new.length = numRanks * n
  present : ∀ expert ∈ new, expert ≠ noExpert → expert ∈ old

section Exchange

variable {W : Type} (numRanks n : Nat) (old new : List Int)

def senders (expert : Int) : List Nat := holders numRanks n old expert

/-- The ranks that want the expert and lack it. -/
def receivers (expert : Int) : List Nat :=
  (holders numRanks n new expert).filter (· ∉ holders numRanks n old expert)

/-- The rank that `rank` gets the expert from. -/
def sourceFor (expert : Int) (rank : Nat) : Nat :=
  let senders := senders numRanks n old expert
  let receivers := receivers numRanks n old new expert
  senders.getD (senderPos senders.length receivers.length (receivers.idxOf rank)) 0

/-- `src` sends the expert to `dst`. -/
def Transfers (expert : Int) (src dst : Nat) : Prop :=
  src ∈ senders numRanks n old expert ∧
    dst ∈ receivers numRanks n old new expert ∧
    sourceFor numRanks n old new expert dst = src

def sendsOf (rank : Nat) (weights : Nat → W) : List (Send W) :=
  (sendRows n old rank).flatMap fun entry =>
    (recvRanksOf (senders numRanks n old entry.1)
      (receivers numRanks n old new entry.1)
      ((senders numRanks n old entry.1).idxOf rank)).map
        fun dst => ⟨dst, entry.1, weights entry.2⟩

def recvsOf (rank : Nat) : List Recv :=
  (recvRows n old new rank).map fun entry =>
    ⟨sourceFor numRanks n old new entry.1 rank, entry.1, entry.2⟩

variable {numRanks n old new} {rank : Nat} {x : Int}

theorem senders_nodup : (senders numRanks n old x).Nodup :=
  holders_sorted.imp ne_of_lt

theorem receivers_nodup : (receivers numRanks n old new x).Nodup :=
  (List.Pairwise.imp ne_of_lt holders_sorted).filter _

theorem mem_senders : rank ∈ senders numRanks n old x ↔
    rank < numRanks ∧ Holds n old rank x := mem_holders

theorem mem_receivers : rank ∈ receivers numRanks n old new x ↔
    rank < numRanks ∧ Holds n new rank x ∧ ¬ Holds n old rank x := by
  simp only [receivers, mem_filter, decide_eq_true_eq, mem_holders]
  constructor
  · rintro ⟨⟨inRanks, wants⟩, lacks⟩
    exact ⟨inRanks, wants, fun holds => lacks ⟨inRanks, holds⟩⟩
  · rintro ⟨inRanks, wants, lacks⟩
    exact ⟨⟨inRanks, wants⟩, fun both => lacks both.2⟩

/-- Posting for rows that are in order already. -/
theorem postAll_eq {β : Type} {rows : List (Int × Nat)} (sorted : rows.Pairwise (·.1 < ·.1))
    {post : List (Int × List Nat) → List (Int × List Nat) → Int × Nat → Except EplbError (List β)}
    {result : Int × Nat → List β}
    (each : ∀ entry ∈ rows,
      post (getEpRanksWithExpertsBatch (rows.map Prod.fst) n old new).1
        (getEpRanksWithExpertsBatch (rows.map Prod.fst) n old new).2 entry =
        .ok (result entry)) :
    postAll n old new rows post = .ok (rows.flatMap result) := by
  have ordered : rows.insertionSort (·.1 ≤ ·.1) = rows :=
    (sorted.imp fun lt => lt.le).insertionSort_eq
  unfold postAll
  rw [ordered]
  simp only
  rw [mapM_of_forall each]
  rfl

section

variable (layout : Layout numRanks n old new)
include layout

/-- Some rank has an expert that another one wants. -/
theorem Layout.exists_sender (valid : x ≠ noExpert)
    (wanted : rank ∈ receivers numRanks n old new x) :
    0 < (senders numRanks n old x).length := by
  obtain ⟨inRanks, wants, -⟩ := mem_receivers.mp wanted
  obtain ⟨p, inRange, at_p, -⟩ := (holds_iff_position layout.newLength).mp ⟨inRanks, wants⟩
  have mem : x ∈ new := by
    rw [← at_p, expertAt, getD_eq_getElem _ _ inRange]
    exact getElem_mem inRange
  obtain ⟨q, inOld, at_q⟩ := getElem_of_mem (layout.present x mem valid)
  have position : expertAt old q = x := by
    rw [expertAt, getD_eq_getElem _ _ inOld, at_q]
  exact length_pos_of_mem (mem_holders.mpr ((holds_iff_position layout.oldLength).mpr
    ⟨q, inOld, position, rfl⟩))

/-- A receiver waits for one of the senders. -/
theorem Layout.transfers (valid : x ≠ noExpert)
    (wanted : rank ∈ receivers numRanks n old new x) :
    Transfers numRanks n old new x
        (sourceFor numRanks n old new x rank) rank ∧
      senderOf (senders numRanks n old x)
        (receivers numRanks n old new x)
        ((receivers numRanks n old new x).idxOf rank) =
          .ok (sourceFor numRanks n old new x rank) := by
  have inRange := senderPos_lt (layout.exists_sender valid wanted)
    (idxOf_lt_length_of_mem wanted)
  have found := getElem?_eq_getElem inRange
  have isSource : sourceFor numRanks n old new x rank = _ :=
    getD_eq_getElem _ 0 inRange
  refine ⟨⟨?_, wanted, rfl⟩, ?_⟩
  · rw [isSource]
    exact getElem_mem inRange
  · rw [isSource]
    unfold senderPos at found
    unfold senderOf
    simp only [found]
    rfl

section

variable (inRanks : rank < numRanks)
include inRanks

theorem postSends_eq (weights : Nat → W) :
    postAll n old new (sendRows n old rank)
      (fun sendMap recvMap => postSends rank sendMap recvMap weights) =
        .ok (sendsOf numRanks n old new rank weights) := by
  refine postAll_eq sendRows_sorted fun entry mem => ?_
  obtain ⟨x, row⟩ := entry
  obtain ⟨valid, inRows, isX⟩ := mem_sendRows mem
  have queried : x ∈ (sendRows n old rank).map Prod.fst :=
    mem_map.mpr ⟨(x, row), mem, rfl⟩
  obtain ⟨isSenders, isReceivers⟩ :=
    getEpRanksWithExpertsBatch_spec layout.oldLength layout.newLength queried
  have sends : rank ∈ senders numRanks n old x :=
    mem_senders.mpr ⟨inRanks, row, inRows, isX⟩
  unfold postSends
  simp only [isSenders, isReceivers, ok_bind]
  split
  · rename_i none
    have noReceivers : receivers numRanks n old new x = [] :=
      none.resolve_left (ne_nil_of_mem sends)
    have empty : ∀ S p, recvRanksOf S [] p = [] := fun S p => by simp [recvRanksOf]
    rw [noReceivers, empty]
    rfl
  · have index : indexOf (holders numRanks n old x) rank =
        .ok ((senders numRanks n old x).idxOf rank) := if_pos sends
    rw [index]
    rfl

theorem postRecvs_eq :
    postAll n old new (recvRows n old new rank) (postRecv rank) =
      .ok (recvsOf numRanks n old new rank) := by
  rw [recvsOf, map_eq_flatMap]
  refine postAll_eq recvRows_sorted fun entry mem => ?_
  obtain ⟨x, row⟩ := entry
  obtain ⟨valid, inRows, isX, lacks⟩ := mem_recvRows mem
  have queried : x ∈ (recvRows n old new rank).map Prod.fst :=
    mem_map.mpr ⟨(x, row), mem, rfl⟩
  obtain ⟨isSenders, isReceivers⟩ :=
    getEpRanksWithExpertsBatch_spec layout.oldLength layout.newLength queried
  have wanted : rank ∈ receivers numRanks n old new x :=
    mem_receivers.mpr ⟨inRanks, ⟨row, inRows, isX⟩, lacks⟩
  unfold postRecv
  simp only [isSenders, isReceivers, ok_bind]
  split
  · rename_i none
    rcases none with noSenders | noReceivers
    · have := layout.exists_sender valid wanted
      rw [senders, noSenders] at this
      exact absurd this (lt_irrefl 0)
    · exact absurd noReceivers (ne_nil_of_mem wanted)
  · have index : indexOf ((holders numRanks n new x).filter
        (· ∉ holders numRanks n old x)) rank =
          .ok ((receivers numRanks n old new x).idxOf rank) := if_pos wanted
    rw [index, ok_bind]
    have source := (layout.transfers valid wanted).2
    unfold senders receivers at source
    unfold receivers
    rw [source]
    rfl

/-- What `move_to_buffer` leaves on a rank. -/
def postedOf (numRanks n : Nat) (old new : List Int) (weights buffer : Nat → W)
    (rank : Nat) : Posted W where
  buffer := moveLocally n old new rank weights buffer
  sends := sendsOf numRanks n old new rank weights
  recvs := recvsOf numRanks n old new rank
  metadata := {
    isUnchanged := isUnchanged n old new rank
    isReceivedLocally := isReceivedLocally n old new rank
    recvPrimaryMask := fun row => row ∈ (recvRows n old new rank).map Prod.snd
    recv := recvRows n old new rank }

theorem moveToBuffer_eq (weights buffer : Nat → W) :
    moveToBuffer n old new rank weights buffer =
      .ok (postedOf numRanks n old new weights buffer rank) := by
  have shape : ¬ old.length ≠ new.length := by
    rw [layout.oldLength, layout.newLength]
    exact not_not.mpr rfl
  have slots : ¬ old.length < rank * n + n := by
    rw [layout.oldLength, ← Nat.succ_mul]
    exact not_lt.mpr (Nat.mul_le_mul_right n inRanks)
  unfold moveToBuffer
  simp only [if_neg shape, if_neg slots, postSends_eq layout inRanks, postRecvs_eq layout inRanks]
  rfl

end

end

/-! ### Both ends of a channel -/

variable {src dst : Nat} {weights : Nat → W}

theorem mem_sendsOf (inRanks : src < numRanks) {send : Send W}
    (mem : send ∈ sendsOf numRanks n old new src weights) :
    send.expert ≠ noExpert ∧
      Transfers numRanks n old new send.expert src send.dst ∧
      ∃ row < n, localExpertIds n src old row = send.expert ∧ send.tensor = weights row := by
  obtain ⟨⟨x, row⟩, memRows, mem⟩ := mem_flatMap.mp mem
  obtain ⟨dst, memRanks, rfl⟩ := mem_map.mp mem
  obtain ⟨valid, inRows, isX⟩ := mem_sendRows memRows
  have sends : src ∈ senders numRanks n old x :=
    mem_senders.mpr ⟨inRanks, row, inRows, isX⟩
  obtain ⟨wanted, found⟩ := (mem_recvRanksOf_iff senders_nodup receivers_nodup sends).mp memRanks
  refine ⟨valid, ⟨sends, wanted, ?_⟩, row, inRows, isX, rfl⟩
  unfold sourceFor
  rw [getD_eq_getElem?_getD, found]
  rfl

theorem exists_sendsOf (valid : x ≠ noExpert)
    (transfers : Transfers numRanks n old new x src dst) :
    ∃ send ∈ sendsOf numRanks n old new src weights,
      send.dst = dst ∧ send.expert = x := by
  obtain ⟨sends, wanted, isSource⟩ := transfers
  obtain ⟨inRanks, holds⟩ := mem_senders.mp sends
  obtain ⟨row, memRows⟩ := (exists_sendRows valid).mp holds
  have inRange := senderPos_lt (length_pos_of_mem sends) (idxOf_lt_length_of_mem wanted)
  have memRanks := (mem_recvRanksOf_iff senders_nodup receivers_nodup sends).mpr ⟨wanted, by
    rw [getElem?_eq_getElem inRange, ← getD_eq_getElem _ 0 inRange]
    exact congrArg some isSource⟩
  exact ⟨_, mem_flatMap.mpr ⟨(x, row), memRows, mem_map.mpr ⟨dst, memRanks, rfl⟩⟩,
    rfl, rfl⟩

theorem exists_recvsOf (valid : x ≠ noExpert)
    (transfers : Transfers numRanks n old new x src dst) :
    ∃ recv ∈ recvsOf numRanks n old new dst, recv.src = src ∧ recv.expert = x := by
  obtain ⟨-, wanted, isSource⟩ := transfers
  obtain ⟨-, wants, lacks⟩ := mem_receivers.mp wanted
  obtain ⟨row, mem⟩ := (exists_recvRows valid).mp ⟨wants, lacks⟩
  exact ⟨_, mem_map.mpr ⟨(x, row), mem, rfl⟩, isSource, rfl⟩

/-- Sends are in the order of the expert ids, and an expert goes to each of its
receivers once. -/
theorem sendsOf_pairwise (inRanks : src < numRanks) :
    (sendsOf numRanks n old new src weights).Pairwise fun send later =>
      send.expert < later.expert ∨ send.expert = later.expert ∧ send.dst ≠ later.dst := by
  refine pairwise_flatMap.mpr ⟨?_, ?_⟩
  · rintro ⟨x, row⟩ mem
    obtain ⟨-, inRows, isX⟩ := mem_sendRows mem
    have inSenders := idxOf_lt_length_of_mem (mem_senders.mpr ⟨inRanks, row, inRows, isX⟩)
    refine pairwise_map.mpr ?_
    exact (receivers_nodup.sublist (recvRanksOf_sublist inSenders)).imp fun ne => .inr ⟨rfl, ne⟩
  · refine sendRows_sorted.imp fun lt a memA b memB => ?_
    obtain ⟨_, -, rfl⟩ := mem_map.mp memA
    obtain ⟨_, -, rfl⟩ := mem_map.mp memB
    exact .inl lt

theorem sendsOf_sorted (inRanks : src < numRanks) (dst : Nat) :
    ((sendsOf numRanks n old new src weights).filter (·.dst = dst)).Pairwise
      (·.expert < ·.expert) := by
  refine ((sendsOf_pairwise inRanks).filter _).imp_of_mem ?_
  intro a b memA memB either
  have atA := (mem_filter.mp memA).2
  have atB := (mem_filter.mp memB).2
  rw [decide_eq_true_eq] at atA atB
  rcases either with lt | ⟨-, ne⟩
  · exact lt
  · exact absurd (atA.trans atB.symm) ne

theorem recvsOf_sorted : (recvsOf numRanks n old new dst).Pairwise
    (·.expert < ·.expert) :=
  pairwise_map.mpr recvRows_sorted

/-- Each rank with its own weights and buffer. -/
def postedBy (numRanks n : Nat) (old new : List Int) (weights buffers : Nat → Nat → W)
    (rank : Nat) : Posted W :=
  postedOf numRanks n old new (weights rank) (buffers rank) rank

variable {weights buffers : Nat → Nat → W}

theorem mem_allSends : (src, dst, x) ∈
      allSends numRanks (postedBy numRanks n old new weights buffers) ↔
    x ≠ noExpert ∧ Transfers numRanks n old new x src dst := by
  unfold allSends
  simp only [mem_flatMap, mem_range, mem_map, Prod.mk.injEq]
  constructor
  · rintro ⟨rank, inRanks, send, mem, rfl, rfl, rfl⟩
    obtain ⟨valid, transfers, -⟩ := mem_sendsOf inRanks mem
    exact ⟨valid, transfers⟩
  · rintro ⟨valid, transfers⟩
    obtain ⟨send, mem, isDst, isX⟩ :
        ∃ send ∈ sendsOf numRanks n old new src (weights src),
          send.dst = dst ∧ send.expert = x := exists_sendsOf valid transfers
    exact ⟨src, (mem_senders.mp transfers.1).1, send, mem, rfl, isDst, isX⟩

section

variable (layout : Layout numRanks n old new)
include layout

theorem mem_recvsOf (inRanks : dst < numRanks) {recv : Recv}
    (mem : recv ∈ recvsOf numRanks n old new dst) :
    recv.expert ≠ noExpert ∧
      Transfers numRanks n old new recv.expert recv.src dst ∧
      (recv.expert, recv.row) ∈ recvRows n old new dst := by
  obtain ⟨⟨x, row⟩, memRows, rfl⟩ := mem_map.mp mem
  obtain ⟨valid, inRows, isX, lacks⟩ := mem_recvRows memRows
  exact ⟨valid, (layout.transfers valid
    (mem_receivers.mpr ⟨inRanks, ⟨row, inRows, isX⟩, lacks⟩)).1, memRows⟩

theorem mem_allRecvs :
    (src, dst, x) ∈
      allRecvs numRanks (postedBy numRanks n old new weights buffers) ↔
    x ≠ noExpert ∧ Transfers numRanks n old new x src dst := by
  unfold allRecvs
  simp only [mem_flatMap, mem_range, mem_map, Prod.mk.injEq]
  constructor
  · rintro ⟨rank, inRanks, recv, mem, rfl, rfl, rfl⟩
    obtain ⟨valid, transfers, -⟩ := mem_recvsOf layout inRanks mem
    exact ⟨valid, transfers⟩
  · rintro ⟨valid, transfers⟩
    obtain ⟨recv, mem, isSrc, isX⟩ := exists_recvsOf valid transfers
    exact ⟨dst, (mem_receivers.mp transfers.2.1).1, recv, mem, isSrc, rfl, isX⟩

/-- Every send has its receive. -/
theorem allSends_perm :
    (allSends numRanks (postedBy numRanks n old new weights buffers)).Perm
      (allRecvs numRanks (postedBy numRanks n old new weights buffers)) := by
  have sendsNodup :
      (allSends numRanks (postedBy numRanks n old new weights buffers)).Nodup := by
    refine pairwise_flatMap.mpr ⟨fun rank mem => ?_, ?_⟩
    · refine pairwise_map.mpr ((sendsOf_pairwise (mem_range.mp mem)).imp ?_)
      intro a b either same
      simp only [Prod.mk.injEq, true_and] at same
      rcases either with lt | ⟨-, ne⟩
      · exact absurd same.2 (ne_of_lt lt)
      · exact ne same.1
    · refine pairwise_lt_range.imp fun lt a memA b memB same => ?_
      obtain ⟨_, -, rfl⟩ := mem_map.mp memA
      obtain ⟨_, -, rfl⟩ := mem_map.mp memB
      exact absurd (Prod.mk.inj same).1 (ne_of_lt lt)
  have recvsNodup :
      (allRecvs numRanks (postedBy numRanks n old new weights buffers)).Nodup := by
    refine pairwise_flatMap.mpr ⟨fun rank _ => ?_, ?_⟩
    · refine pairwise_map.mpr (recvsOf_sorted.imp fun lt same => ?_)
      simp only [Prod.mk.injEq, true_and] at same
      exact absurd same.2 (ne_of_lt lt)
    · refine pairwise_lt_range.imp fun lt a memA b memB same => ?_
      obtain ⟨_, -, rfl⟩ := mem_map.mp memA
      obtain ⟨_, -, rfl⟩ := mem_map.mp memB
      exact absurd (Prod.mk.inj (Prod.mk.inj same).2).1 (ne_of_lt lt)
  refine (perm_ext_iff_of_nodup sendsNodup recvsNodup).mpr ?_
  rintro ⟨src, dst, x⟩
  rw [mem_allSends, mem_allRecvs layout]

/-! ### The weights afterwards -/

/-- Every slot holds the weights of its expert. -/
def Loaded (numRanks n : Nat) (indices : List Int) (content : Int → W) (weights : Nat → Nat → W) :
    Prop :=
  ∀ rank < numRanks, ∀ row < n, localExpertIds n rank indices row ≠ noExpert →
    weights rank row = content (localExpertIds n rank indices row)

/-- Both ranks of a channel list the same experts in the same order. -/
theorem channel_eq (srcIn : src < numRanks) (dstIn : dst < numRanks) :
    (channelSends (postedBy numRanks n old new weights buffers) src dst).map
        (·.expert) =
      (channelRecvs (postedBy numRanks n old new weights buffers) src dst).map
        (·.expert) := by
  refine List.Pairwise.eq_of_mem_iff (pairwise_map.mpr (sendsOf_sorted srcIn dst))
    (pairwise_map.mpr (recvsOf_sorted.filter _)) fun x => ?_
  simp only [channelSends, channelRecvs, mem_map, mem_filter, decide_eq_true_eq]
  constructor
  · rintro ⟨send, ⟨mem, rfl⟩, rfl⟩
    obtain ⟨valid, transfers, -⟩ := mem_sendsOf srcIn mem
    obtain ⟨recv, memRecv, isSrc, same⟩ := exists_recvsOf valid transfers
    exact ⟨recv, ⟨memRecv, isSrc⟩, same⟩
  · rintro ⟨recv, ⟨mem, rfl⟩, rfl⟩
    obtain ⟨valid, transfers, -⟩ := mem_recvsOf layout dstIn mem
    obtain ⟨send, memSend, isDst, same⟩ := exists_sendsOf valid transfers
    exact ⟨send, ⟨memSend, isDst⟩, same⟩

theorem channel_length (srcIn : src < numRanks) (dstIn : dst < numRanks) :
    (channelSends (postedBy numRanks n old new weights buffers) src dst).length =
      (channelRecvs (postedBy numRanks n old new weights buffers) src dst).length := by
  simpa only [length_map] using congrArg length (channel_eq layout srcIn dstIn)

/-- No operation waits for ever. -/
theorem execute_eq :
    execute numRanks (postedBy numRanks n old new weights buffers) =
      some (deliver numRanks (postedBy numRanks n old new weights buffers)) :=
  if_pos fun _ srcIn _ dstIn => channel_length layout srcIn dstIn

end

variable {content : Int → W}

variable {row : Nat}

theorem moveLocally_apply (loaded : Loaded numRanks n old content weights)
    (inRanks : rank < numRanks) (inRows : row < n)
    (valid : localExpertIds n rank new row ≠ noExpert)
    (changed : isUnchanged n old new rank row = false)
    (isLocal : isReceivedLocally n old new rank row = true) (buffer : Nat → W) :
    moveLocally n old new rank (weights rank) buffer row =
      content (localExpertIds n rank new row) := by
  have holds := (isReceivedLocally_iff inRows valid).mp isLocal
  obtain ⟨_, mem⟩ := (exists_sendRows valid).mp holds
  obtain ⟨src, found⟩ := exists_lookup mem
  obtain ⟨-, srcIn, isX⟩ := mem_sendRows (mem_of_lookup found)
  refine foldl_write id (fun _ => True) (fun _ _ _ _ => trivial) ?_ ?_ trivial ⟨row, ?_, rfl⟩
  · intro buffer dst _ ne
    cases (sendRows n old rank).lookup (localExpertIds n rank new dst) with
    | none => rfl
    | some other => exact update_of_ne (Ne.symm ne) _ _
  · intro buffer dst _ _ isRow
    rw [id] at isRow
    subst isRow
    rw [found]
    refine (update_self _ _ _).trans ?_
    rw [loaded rank inRanks src srcIn (isX ▸ valid), isX]
  · exact mem_filter.mpr ⟨mem_range.mpr inRows, by simp [changed, isLocal]⟩

/-- The rows that `move_from_buffer` copies out of the buffer. -/
def copiedRows (n : Nat) (old new : List Int) (rank : Nat) : List Nat :=
  (range n).filter fun row =>
    !isUnchanged n old new rank row &&
      (isReceivedLocally n old new rank row ||
        (row ∈ (recvRows n old new rank).map Prod.snd : Bool))

theorem copied_apply {weights buffer : Nat → W} :
    (row ∈ copiedRows n old new rank →
      (copiedRows n old new rank).foldl
        (fun weights dst => update weights dst (buffer dst)) weights row = buffer row) ∧
    (row ∉ copiedRows n old new rank →
      (copiedRows n old new rank).foldl
        (fun weights dst => update weights dst (buffer dst)) weights row = weights row) := by
  constructor
  · intro mem
    refine foldl_write id (fun _ => True) (fun _ _ _ _ => trivial)
      (fun _ _ _ ne => update_of_ne (Ne.symm ne) _ _) ?_ trivial ⟨row, mem, rfl⟩
    rintro weights dst - - rfl
    exact update_self _ _ _
  · intro notMem
    refine foldl_frame fun weights dst mem => update_of_ne ?_ _ _
    exact fun same => notMem (same ▸ mem)

/-- The copies of the second loop: from a primary row to another row of its expert. -/
def matchedRows (n : Nat) (old new : List Int) (rank : Nat) : List (Nat × Nat) :=
  let primSorted := (recvRows n old new rank).insertionSort (·.1 ≤ ·.1)
  let dupDstRows := (range n).filter fun row =>
    !isUnchanged n old new rank row &&
      !isReceivedLocally n old new rank row &&
      (!(row ∈ (recvRows n old new rank).map Prod.snd : Bool) &&
        localExpertIds n rank new row ≠ noExpert)
  dupDstRows.filterMap fun dst =>
    match primSorted[searchsorted (primSorted.map Prod.fst)
        (localExpertIds n rank new dst)]? with
    | some (expert, src) =>
      if expert = localExpertIds n rank new dst then some (dst, src) else none
    | none => none

/-- A row that has its expert from elsewhere, but is not the primary row for it. -/
structure Duplicate (n : Nat) (old new : List Int) (rank row : Nat) : Prop where
  inRows : row < n
  valid : localExpertIds n rank new row ≠ noExpert
  notLocal : isReceivedLocally n old new rank row = false
  notPrimary : ∀ expert, (expert, row) ∉ recvRows n old new rank

theorem mem_matchedRows (mem : (dst, src) ∈ matchedRows n old new rank) :
    Duplicate n old new rank dst ∧
      (localExpertIds n rank new dst, src) ∈ recvRows n old new rank := by
  obtain ⟨row, memRow, found⟩ := mem_filterMap.mp mem
  split at found
  · rename_i x src' at_k
    split at found
    · rename_i same
      cases found
      obtain ⟨inRange, facts⟩ := mem_filter.mp memRow
      simp only [Bool.and_eq_true, Bool.not_eq_true', decide_eq_true_eq, decide_eq_false_iff_not,
        mem_map, not_exists, not_and, Prod.forall] at facts
      obtain ⟨⟨-, notLocal⟩, notPrimary, valid⟩ := facts
      refine ⟨⟨mem_range.mp inRange, valid, notLocal, fun x mem =>
        notPrimary x dst mem rfl⟩, ?_⟩
      rw [← same]
      exact (mem_insertionSort _).mp (mem_of_getElem? at_k)
    · cases found
  · cases found

theorem Duplicate.exists_matched (duplicate : Duplicate n old new rank row) :
    ∃ src, (row, src) ∈ matchedRows n old new rank := by
  have sorted : (recvRows n old new rank).insertionSort (·.1 ≤ ·.1) =
      recvRows n old new rank :=
    (recvRows_sorted.imp fun lt => lt.le).insertionSort_eq
  obtain ⟨first, mem⟩ : ∃ first, (localExpertIds n rank new row, first) ∈
      recvRows n old new rank :=
    exists_firstRows (mem_filter.mpr ⟨mem_range.mpr duplicate.inRows, by
      simp [duplicate.notLocal, duplicate.valid]⟩)
  have found := (getElem?_searchsorted (pairwise_map.mpr recvRows_sorted)).mpr
    (mem_map.mpr ⟨_, mem, rfl⟩)
  rw [getElem?_map] at found
  obtain ⟨⟨x, src⟩, at_k, same⟩ := Option.map_eq_some_iff.mp found
  refine ⟨src, mem_filterMap.mpr ⟨row, mem_filter.mpr
    ⟨mem_range.mpr duplicate.inRows, ?_⟩, ?_⟩⟩
  · simp only [Bool.and_eq_true, Bool.not_eq_true', decide_eq_true_eq, decide_eq_false_iff_not,
      mem_map, not_exists, not_and, Prod.forall]
    exact ⟨⟨(Bool.or_eq_false_iff.mp duplicate.notLocal).1, duplicate.notLocal⟩,
      fun x row' mem same => duplicate.notPrimary x (same ▸ mem), duplicate.valid⟩
  · rw [sorted, at_k]
    exact if_pos same

theorem mem_copiedRows : row ∈ copiedRows n old new rank ↔
    row < n ∧ isUnchanged n old new rank row = false ∧
      (isReceivedLocally n old new rank row = true ∨
        ∃ x, (x, row) ∈ recvRows n old new rank) := by
  unfold copiedRows
  simp only [mem_filter, mem_range, Bool.and_eq_true, Bool.not_eq_true', Bool.or_eq_true,
    decide_eq_true_eq, mem_map, Prod.exists, exists_eq_right]

section

variable (layout : Layout numRanks n old new)
  (loaded : Loaded numRanks n old content weights) (inRanks : rank < numRanks)
include layout loaded inRanks

theorem deliver_apply :
    (∀ x, (x, row) ∈ recvRows n old new rank →
      deliver numRanks (postedBy numRanks n old new weights buffers) rank row =
        content x) ∧
    ((∀ x, (x, row) ∉ recvRows n old new rank) →
      deliver numRanks (postedBy numRanks n old new weights buffers) rank row =
        moveLocally n old new rank (weights rank) (buffers rank) row) := by
  have pairs : ∀ pair ∈ (range numRanks).flatMap fun src =>
      (channelRecvs (postedBy numRanks n old new weights buffers) src rank).zip
        (channelSends (postedBy numRanks n old new weights buffers) src rank),
      (pair.1.expert, pair.1.row) ∈ recvRows n old new rank ∧
        pair.2.tensor = content pair.1.expert := by
    intro pair mem
    obtain ⟨src, srcIn, mem⟩ := mem_flatMap.mp mem
    rw [mem_range] at srcIn
    obtain ⟨recvMem, sendMem⟩ := of_mem_zip mem
    obtain ⟨-, -, inRecvRows⟩ := mem_recvsOf layout inRanks (mem_filter.mp recvMem).1
    obtain ⟨valid, -, srcRow, inRows, isX, tensor⟩ :=
      mem_sendsOf srcIn (mem_filter.mp sendMem).1
    have same := eq_of_mem_zip (channel_eq layout srcIn inRanks).symm mem
    refine ⟨inRecvRows, ?_⟩
    rw [tensor, same, ← isX]
    exact loaded src srcIn srcRow inRows (isX ▸ valid)
  unfold deliver
  rw [← foldl_flatMap]
  have frame : ∀ (buffer : Nat → W) (pair : Recv × Send W), pair.1.row ≠ row →
      update buffer pair.1.row pair.2.tensor row = buffer row :=
    fun buffer pair ne => update_of_ne (Ne.symm ne) _ _
  constructor
  · intro x wanted
    refine foldl_write (fun pair => pair.1.row) (fun _ => True) (fun _ _ _ _ => trivial)
      (fun buffer pair _ ne => frame buffer pair ne) ?_ trivial ?_
    · intro buffer pair mem _ isRow
      obtain ⟨inRecvRows, tensor⟩ := pairs pair mem
      -- A row is wanted for one x.
      obtain ⟨-, -, isX, -⟩ := mem_recvRows inRecvRows
      obtain ⟨-, -, isExpert', -⟩ := mem_recvRows wanted
      rw [isRow] at isX ⊢
      rw [update_self, tensor, ← isX, isExpert']
    · have memRecv : (⟨sourceFor numRanks n old new x rank, x, row⟩ : Recv) ∈
          recvsOf numRanks n old new rank :=
        mem_map.mpr ⟨(x, row), wanted, rfl⟩
      obtain ⟨-, transfers, -⟩ := mem_recvsOf layout inRanks memRecv
      have srcIn := (mem_senders.mp transfers.1).1
      obtain ⟨send, memZip⟩ := exists_mem_zip (channel_length layout srcIn inRanks).symm
        (mem_filter.mpr ⟨memRecv, by simp⟩)
      exact ⟨_, mem_flatMap.mpr ⟨_, mem_range.mpr srcIn, memZip⟩, rfl⟩
  · intro unwanted
    refine foldl_frame fun buffer pair mem => frame buffer pair fun isRow => ?_
    exact unwanted _ (isRow ▸ (pairs pair mem).1)

/-- What the first loop leaves in a row that is not a duplicate. -/
theorem first_loop_apply (inRows : row < n) (valid : localExpertIds n rank new row ≠ noExpert)
    (single : ¬ Duplicate n old new rank row) :
    (copiedRows n old new rank).foldl
      (fun rows dst => update rows dst
        (deliver numRanks (postedBy numRanks n old new weights buffers) rank dst))
      (weights rank) row = content (localExpertIds n rank new row) := by
  by_cases unchanged : isUnchanged n old new rank row = true
  · -- The row keeps its x.
    have kept : row ∉ copiedRows n old new rank := fun mem => by
      rw [(mem_copiedRows.mp mem).2.1] at unchanged
      cases unchanged
    rw [copied_apply.2 kept]
    have same : localExpertIds n rank old row = localExpertIds n rank new row := by
      simpa [isUnchanged] using unchanged
    rw [loaded rank inRanks row inRows (same ▸ valid), same]
  rw [Bool.not_eq_true] at unchanged
  by_cases isLocal : isReceivedLocally n old new rank row = true
  · have notRemote : ∀ x, (x, row) ∉ recvRows n old new rank := by
      intro x mem
      obtain ⟨-, -, isX, lacks⟩ := mem_recvRows mem
      exact lacks (isX ▸ (isReceivedLocally_iff inRows valid).mp isLocal)
    rw [copied_apply.1 (mem_copiedRows.mpr ⟨inRows, unchanged, .inl isLocal⟩),
      (deliver_apply layout loaded inRanks).2 notRemote]
    exact moveLocally_apply loaded inRanks inRows valid unchanged isLocal _
  · rw [Bool.not_eq_true] at isLocal
    obtain ⟨x, mem⟩ : ∃ x, (x, row) ∈ recvRows n old new rank := by
      by_contra none
      exact single ⟨inRows, valid, isLocal, fun x mem => none ⟨x, mem⟩⟩
    rw [copied_apply.1 (mem_copiedRows.mpr ⟨inRows, unchanged, .inr ⟨x, mem⟩⟩),
      (deliver_apply layout loaded inRanks).1 x mem, (mem_recvRows mem).2.2.1]

theorem moveFromBuffer_apply (inRows : row < n) (valid : localExpertIds n rank new row ≠ noExpert) :
    moveFromBuffer n new rank
      (postedBy numRanks n old new weights buffers rank).metadata (weights rank)
      (deliver numRanks (postedBy numRanks n old new weights buffers) rank) row =
        content (localExpertIds n rank new row) := by
  change (matchedRows n old new rank).foldl
    (fun (rows : Nat → W) copy => update rows copy.1 (rows copy.2)) _ row = _
  by_cases duplicate : Duplicate n old new rank row
  · -- The primary rows keep what the first loop brought.
    obtain ⟨src, mem⟩ := duplicate.exists_matched
    refine foldl_write Prod.fst
      (fun rows => ∀ x src, (x, src) ∈ recvRows n old new rank →
        rows src = content x) ?_ (fun _ _ _ ne => update_of_ne (Ne.symm ne) _ _) ?_ ?_
      ⟨(row, src), mem, rfl⟩
    · intro rows copy memCopy primary x src memSrc
      have ne : src ≠ copy.1 := fun same =>
        (mem_matchedRows memCopy).1.notPrimary x (same ▸ memSrc)
      rw [update_of_ne ne]
      exact primary x src memSrc
    · rintro rows ⟨dst, src⟩ memCopy primary rfl
      rw [update_self]
      exact primary _ src (mem_matchedRows memCopy).2
    · intro x src memSrc
      obtain ⟨validSrc, srcIn, isX, -⟩ := mem_recvRows memSrc
      rw [← isX]
      exact first_loop_apply layout loaded inRanks srcIn (isX ▸ validSrc)
        fun duplicate => duplicate.notPrimary x memSrc
  · have notDst : ∀ copy ∈ matchedRows n old new rank, row ≠ copy.1 :=
      fun copy memCopy same => duplicate (same ▸ (mem_matchedRows memCopy).1)
    rw [foldl_frame fun rows copy memCopy => update_of_ne (notDst copy memCopy) _ _]
    exact first_loop_apply layout loaded inRanks inRows valid duplicate

end

end Exchange

variable {W : Type} {numRanks n : Nat} {oldIndices newIndices : List Int} {weights : Nat → Nat → W}
  {content : Int → W}

/-- On all ranks `move_to_buffer` succeeds, the sends and the receives pair off, the
exchange completes, and `move_from_buffer` leaves in every slot the weights of its new
expert. -/
theorem rearrange_correct (layout : Layout numRanks n oldIndices newIndices)
    (loaded : Loaded numRanks n oldIndices content weights) (buffers : Nat → Nat → W) :
    ∃ posted : Nat → Posted W,
      (∀ rank < numRanks, moveToBuffer n oldIndices newIndices rank (weights rank) (buffers rank) =
        .ok (posted rank)) ∧
      (allSends numRanks posted).Perm (allRecvs numRanks posted) ∧
      ∃ received, execute numRanks posted = some received ∧
        Loaded numRanks n newIndices content fun rank =>
          moveFromBuffer n newIndices rank (posted rank).metadata (weights rank) (received rank) :=
  ⟨postedBy numRanks n oldIndices newIndices weights buffers,
    fun _ inRanks => moveToBuffer_eq layout inRanks _ _, allSends_perm layout, _, execute_eq layout,
    fun _ inRanks _ inRows valid => moveFromBuffer_apply layout loaded inRanks inRows valid⟩

/-- Three ranks with two slots each. Expert 5 is on two ranks and goes to the third, which
wants it twice. -/
theorem rearrange_three_ranks :
    Layout 3 2 [5, 6, 5, 7, 8, -1] [6, 7, 7, 7, 5, 5] ∧ ∃ posted : Nat → Posted Int,
      (∀ rank < 3, moveToBuffer 2 [5, 6, 5, 7, 8, -1] [6, 7, 7, 7, 5, 5] rank
        (localExpertIds 2 rank [5, 6, 5, 7, 8, -1]) (fun _ => 0) = .ok (posted rank)) ∧
      (allSends 3 posted).Perm (allRecvs 3 posted) ∧
      ∃ received, execute 3 posted = some received ∧
        Loaded 3 2 [6, 7, 7, 7, 5, 5] id fun rank =>
          moveFromBuffer 2 [6, 7, 7, 7, 5, 5] rank (posted rank).metadata
            (localExpertIds 2 rank [5, 6, 5, 7, 8, -1]) (received rank) := by
  have layout : Layout 3 2 [5, 6, 5, 7, 8, -1] [6, 7, 7, 7, 5, 5] := ⟨rfl, rfl, by decide⟩
  have loaded : Loaded 3 2 [5, 6, 5, 7, 8, -1] id
      fun rank => localExpertIds 2 rank [5, 6, 5, 7, 8, -1] := fun _ _ _ _ _ => rfl
  exact ⟨layout, rearrange_correct layout loaded fun _ _ => 0⟩

end Vllm.Eplb
